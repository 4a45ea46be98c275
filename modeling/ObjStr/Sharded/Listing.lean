/-
  ObjStr.Sharded.Listing — `list_with_delimiter` of the cluster (`shardedobjstr/src/lib.rs`): what `list` returns for
  the prefix, divided at the next slash.

  The directories are collected as texts with a slash behind, in a sorted set, and become paths then.
-/

import ObjStr.Sharded.Read
import Mathlib.Data.List.DropRight
import Mathlib.Data.List.Sort

namespace ObjStr.Sharded

open ObjStr.Raw

structure ListResult where
  objects : List (Key × PlacementEntry)
  commonPrefixes : List Key

/-- `path_str.strip_prefix(prefix_str).unwrap_or(path_str).trim_start_matches('/')`. -/
def relativePath (pre path : List Char) : List Char :=
  (if pre.isPrefixOf path then path.drop pre.length else path).dropWhile (· == '/')

/-- `prefix_str.trim_end_matches('/')`. -/
def trimEnd (l : List Char) : List Char := l.rdropWhile (· == '/')

/-- The directory right under the prefix that a relative path goes through, if it goes through one. -/
def directoryOf (pre relative : List Char) : Option Key :=
  if '/' ∈ relative then
    some (String.ofList (if pre = [] then relative.takeWhile (· != '/') ++ ['/']
      else trimEnd pre ++ '/' :: (relative.takeWhile (· != '/') ++ ['/'])))
  else none

def listWithDelimiter (pre : Option Key) : ClusterM ListResult := do
  let all ← list pre
  let prefixStr := (pre.getD "").toList
  let dirs := (all.filterMap fun m => directoryOf prefixStr (relativePath prefixStr m.1.toList)).dedup
  pure {
    objects := all.filter fun m => (directoryOf prefixStr (relativePath prefixStr m.1.toList)).isNone
    commonPrefixes := (dirs.insertionSort fun a b => a ≤ b).map Path.fromStr }

end ObjStr.Sharded
