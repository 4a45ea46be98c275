/-
  ObjStr.Raw.Listing — what the raw store lists (`store.rs`): `list`, `list_with_meta` and `list_with_delimiter`.

  A listing is of the entries whose keys are not of the reserved prefix, in the order of the index. The path of a key
  is the key itself if it is one (`keyPath`). `list_with_delimiter` compares keys with the prefix as texts.

  No listing depends on an entry of the reserved prefix (`list_visible`, `listWithMeta_visible`,
  `listWithDelimiter_visible`).
-/

import ObjStr.Raw.Store
import ObjStr.Sharded.Paths

namespace ObjStr.Raw

open ObjStr.Lib ObjStr.Sharded

structure ObjectMeta where
  location : Key
  lastModified : DateTime
  size : Nat
  deriving DecidableEq

def metaFor (location : Key) (info : ExtentInfo) : ObjectMeta := ⟨location, info.lastModified, info.bodySize⟩

/-- `Path::parse(k).unwrap_or_else(|_| Path::from(k))`. -/
def keyPath (k : Key) : Key := (Path.parse k).getD (Path.fromStr k)

namespace Store

def snapshot (s : Store) : List (Key × ExtentInfo) :=
  (s.files.entries.filter fun e => !isMultipartTmp e.1).map fun e => (e.1, e.2)

/-- Whether a key lies under the prefix, if there is one. -/
def under (pre : Option Key) (k : Key) : Bool :=
  match pre with
  | some p => Path.prefixMatches (keyPath k) p
  | none => true

def list (s : Store) (pre : Option Key) : List ObjectMeta :=
  (s.snapshot.filter fun e => under pre e.1).map fun e => metaFor (keyPath e.1) e.2

def listWithMeta (s : Store) (pre : Option Key) : List (ObjectMeta × UInt16) :=
  (s.snapshot.filter fun e => under pre e.1).map fun e => (metaFor (keyPath e.1) e.2, e.2.metaLen)

end Store

structure ListResult where
  objects : List ObjectMeta
  commonPrefixes : List Key

/-- What is left of a key that is the prefix or begins with it and a slash. -/
def restOf (pre k : List Char) : Option (List Char) :=
  if pre = [] then some k
  else if pre.isPrefixOf k = true ∧ (k.length = pre.length ∨ k[pre.length]? = some '/') then some (k.drop pre.length)
  else none

/-- The key relative to the prefix; a key that is the prefix itself has none. -/
def relativeTo (pre k : List Char) : Option (List Char) :=
  (restOf pre k).bind fun rest => if pre = [] then some rest else if rest = [] then none else some rest.tail

def commonPrefix (pre k : List Char) : Option Key :=
  (relativeTo pre k).bind fun relative =>
    if '/' ∈ relative then
      some (keyPath (String.ofList (if pre = [] then relative.takeWhile (· != '/')
        else pre ++ '/' :: relative.takeWhile (· != '/'))))
    else none

def isChild (pre k : List Char) : Bool :=
  match relativeTo pre k with
  | some relative => !relative.contains '/'
  | none => false

namespace Store

def listWithDelimiter (s : Store) (pre : Option Key) : ListResult :=
  let p := (pre.getD "").toList
  let objects := (s.snapshot.filter fun e => isChild p e.1.toList).map fun e => metaFor (keyPath e.1) e.2
  let prefixes := (s.snapshot.filterMap fun e => commonPrefix p e.1.toList).dedup
  { objects := objects.insertionSort fun a b => a.location ≤ b.location
    commonPrefixes := prefixes.insertionSort fun a b => a ≤ b }

/-! ## Hidden entries -/

def visible (s : Store) : Store := { s with files := s.files.filterKeys fun k => !isMultipartTmp k }

theorem snapshot_visible (s : Store) : s.visible.snapshot = s.snapshot := by
  unfold snapshot visible FMap.filterKeys
  dsimp only
  rw [List.filter_filter]
  simp

theorem list_visible (s : Store) (pre : Option Key) : s.visible.list pre = s.list pre := by
  rw [list, snapshot_visible, list]

theorem listWithMeta_visible (s : Store) (pre : Option Key) : s.visible.listWithMeta pre = s.listWithMeta pre := by
  rw [listWithMeta, snapshot_visible, listWithMeta]

theorem listWithDelimiter_visible (s : Store) (pre : Option Key) : s.visible.listWithDelimiter pre = s.listWithDelimiter pre := by
  rw [listWithDelimiter, snapshot_visible, listWithDelimiter]

end Store

end ObjStr.Raw
