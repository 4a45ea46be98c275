/-
  ObjStr.Sharded.Basic — the sharded store's records and errors (`shardedobjstr/src/lib.rs`,
  `catalog.rs`, `metadata.rs`), paths, and the stores behind the shards.

  A shard's store is any `ObjectStore`. What the trait documents is modelled: a `put` either
  stores the whole object or fails and changes nothing, a `get` returns the object under the
  key, a `delete` removes it. Which calls fail is not decided here: each store carries the
  outcomes of its next calls, one list for each kind of call, and what is proved holds for all
  of them. Whether a `delete` of a key that is not there is an error depends on the store
  (`strictDelete`). The times a store stamps its objects with are its own.

  `Path.fromStr` is `object_store::path::Path::from`: it splits at `/`, drops empty segments and
  percent-encodes the characters a segment may not contain, also those of a string that is
  already encoded. A location is a path's text; `Path::parse` keeps the text as it is.

  `Chrono` is the text of a time, which a delete marker holds.
-/

import ObjStr.Raw.Basic
import ObjStr.Lib.Proc
import Mathlib.Data.List.Infix
import Mathlib.Logic.Embedding.Basic

namespace ObjStr.Sharded

open ObjStr.Lib ObjStr.Raw

/-! ## Paths -/

namespace Path

/-- The ASCII characters `PathPart` percent-encodes, next to the control characters. -/
def invalid : List Nat :=
  [0x2F, 0x5C, 0x7B, 0x5E, 0x7D, 0x25, 0x60, 0x5D, 0x22, 0x3E, 0x5B, 0x7E, 0x3C, 0x23, 0x7C, 0x2A, 0x3F]

def hexDigit (n : Nat) : Char := Char.ofNat (if n < 10 then 0x30 + n else 0x37 + n)

def encodeByte (b : UInt8) : List Char := ['%', hexDigit (b.toNat / 16), hexDigit (b.toNat % 16)]

def encodeChar (c : Char) : List Char :=
  if c.toNat < 0x20 || 0x7F ≤ c.toNat || invalid.contains c.toNat then (String.utf8EncodeChar c).flatMap encodeByte
  else [c]

/-- `PathPart::from`. -/
def encodePart (part : List Char) : List Char :=
  if part = ['.'] then ['%', '2', 'E']
  else if part = ['.', '.'] then ['%', '2', 'E', '%', '2', 'E']
  else part.flatMap encodeChar

def segments (s : Key) : List (List Char) := (s.toList.splitOn '/').filter fun p => !p.isEmpty

/-- `Path::from`. -/
def fromStr (s : Key) : Key := String.ofList (['/'].intercalate ((segments s).map encodePart))

end Path

def deleteMarkerPrefix : Key := "__deleted__/"

def deleteMarkerKey (key : Key) : Key := deleteMarkerPrefix ++ key

def isDeleteMarker (key : Key) : Bool := deleteMarkerPrefix.toList.isPrefixOf key.toList

/-- Metadata of an object on a shard that has no place for it is an object of its own. -/
def metaSuffix : Key := ".__meta__"

def metaSidecarPath (location : Key) : Key := Path.fromStr (location ++ metaSuffix)

/-- `key.ends_with(".__meta__")`. -/
def isSidecar (key : Key) : Bool := metaSuffix.toList.isSuffixOf key.toList

class Chrono where
  /-- `DateTime::to_rfc3339`. -/
  toRfc3339 : DateTime → Bytes
  /-- `DateTime::parse_from_rfc3339`, of bytes that should be a text. -/
  parseFromRfc3339 : Bytes → Option DateTime
  parse_toRfc3339 : ∀ t, parseFromRfc3339 (toRfc3339 t) = some t

/-! ## Errors -/

inductive StoreError where
  | notFound (path : Key)
  /-- Any other error, and whether its text says "data corruption". -/
  | backend (corruption : Bool)
  deriving DecidableEq, Repr

def StoreError.saysCorruption : StoreError → Bool
  | .notFound path => decide ("data corruption".toList <:+: path.toList)
  | .backend corruption => corruption

/-- A shard that failed a write: the first time, or when the write was retried. -/
structure WriteFailure where
  shard : Nat
  retry : Bool
  error : StoreError
  deriving DecidableEq, Repr

/-- `object_store::Error` and `RawStoreError`, with the `ShardError` they carry. -/
inductive Error where
  | notFound (path : Key)
  | alreadyExists (path : Key)
  | precondition (path : Key)
  | readOnly
  | noShards
  | allReplicasFailed (path : Key) (errors : List WriteFailure)
  | insufficientWrites (path : Key) (required actual : Nat) (errors : List WriteFailure)
  | store (e : StoreError)
  /-- Reading a local file failed. -/
  | io
  /-- The call unwinds. -/
  | panic
  deriving DecidableEq, Repr

def Error.isInsufficientWrites : Error → Bool
  | .insufficientWrites .. => true
  | _ => false

/-! ## Stores -/

abbrev StoreId := Nat

structure Object where
  body : Bytes
  /-- The metadata a raw shard keeps after the body. -/
  metadata : Bytes
  /-- The attributes an S3 shard keeps with the object. -/
  attributes : FMap String
  lastModified : DateTime
  deriving DecidableEq

structure Upload where
  body : Bytes
  metadata : Bytes := []
  attributes : FMap String := ∅
  deriving DecidableEq

inductive Call where
  | put | get | head | delete | list
  deriving DecidableEq, Repr

structure Store where
  objects : FMap Object
  /-- What the next calls of each kind fail with; `none`, and a call past the end, does not fail. -/
  outcomes : Call → List (Option StoreError)
  /-- The times of the next writes. -/
  clock : List DateTime
  /-- A `delete` of a key that is not there is an error. -/
  strictDelete : Bool

namespace Store

def outcome (s : Store) (c : Call) : Option StoreError := (s.outcomes c).head?.join

def next (s : Store) (c : Call) : Store :=
  { s with outcomes := Function.update s.outcomes c (s.outcomes c).tail }

def put (key : Key) (up : Upload) (s : Store) : Except StoreError Unit × Store :=
  match s.outcome .put with
  | some e => (.error e, s.next .put)
  | none =>
    (.ok (), { s.next .put with
      objects := s.objects.insert key ⟨up.body, up.metadata, up.attributes, s.clock.headD 0⟩
      clock := s.clock.tail })

def get (key : Key) (s : Store) : Except StoreError Object × Store :=
  match s.outcome .get, s.objects.lookup key with
  | some e, _ => (.error e, s.next .get)
  | none, some o => (.ok o, s.next .get)
  | none, none => (.error (.notFound key), s.next .get)

/-- `head`: the object's size and time are what its callers read. -/
def head (key : Key) (s : Store) : Except StoreError Object × Store :=
  match s.outcome .head, s.objects.lookup key with
  | some e, _ => (.error e, s.next .head)
  | none, some o => (.ok o, s.next .head)
  | none, none => (.error (.notFound key), s.next .head)

def delete (key : Key) (s : Store) : Except StoreError Unit × Store :=
  match s.outcome .delete with
  | some e => (.error e, s.next .delete)
  | none =>
    if s.strictDelete && (s.objects.lookup key).isNone then (.error (.notFound key), s.next .delete)
    else (.ok (), { s.next .delete with objects := s.objects.erase key })

def list (s : Store) : Except StoreError (List (Key × Object)) × Store :=
  match s.outcome .list with
  | some e => (.error e, s.next .list)
  | none => (.ok (s.objects.entries.map fun e => (e.1, e.2)), s.next .list)

end Store

/-! ## Shards -/

abbrev ShardId := Nat

inductive ShardHealth where
  | healthy
  | degraded
  | offline
  /-- Being re-synced after coming back. -/
  | syncing
  /-- Taken offline by hand. -/
  | detached
  deriving DecidableEq, Repr

def ShardHealth.isUnavailable (h : ShardHealth) : Bool := h == .offline || h == .detached

inductive DetachReason where
  | manual | probeFailure | deviceMissing | drain
  deriving DecidableEq, Repr

structure ShardInfo where
  /-- The shard's store is in place; otherwise it is the placeholder that fails every call. -/
  attached : Bool
  health : ShardHealth
  freeSpace : Nat
  offlineSince : Option DateTime
  crcErrorCount : Nat
  detachReason : Option DetachReason
  suppressReplication : Bool
  deriving DecidableEq, Repr

/-- How a shard keeps metadata: after the body, as attributes, or as an object of its own. -/
inductive ShardKind where
  | raw | s3Like | sidecar
  deriving DecidableEq, Repr

/-- The raw stores behind the shards that have one, and every shard's kind. -/
structure RawRefRegistry where
  refs : List (Option StoreId)
  kinds : List ShardKind
  sameLength : refs.length = kinds.length

def RawRefRegistry.get (r : RawRefRegistry) (shardId : ShardId) : Option StoreId := r.refs[shardId]?.join

def RawRefRegistry.kind (r : RawRefRegistry) (shardId : ShardId) : ShardKind := r.kinds[shardId]?.getD .sidecar

/-! ## The catalog -/

structure PlacementEntry where
  shards : List ShardId
  /-- Size of the body. -/
  size : Nat
  crc32c : Option UInt32
  updated : DateTime
  metaLen : UInt16
  deriving DecidableEq, Repr

structure Catalog where
  inner : FMap PlacementEntry
  /-- Changed since it was last saved. -/
  dirty : Bool

/-! ## The cluster -/

inductive ReadPreference where
  | roundRobin | ordered
  deriving DecidableEq, Repr

/-- What does not change while a cluster runs. Its shards have different stores. -/
structure Config where
  replicationFactor : Nat
  minWrites : Nat
  readOnly : Bool
  /-- Deletes need `minWrites` shards too. -/
  deleteRequiresMinWrites : Bool
  rawRefs : Option RawRefRegistry
  storeOf : ShardId ↪ StoreId
  one_le_minWrites : 1 ≤ minWrites
  minWrites_le : minWrites ≤ replicationFactor

/-- A read repair that has been scheduled, with the stores of its shards as they were then. -/
structure ReadRepair where
  key : Key
  goodShard : ShardId
  corruptShard : ShardId
  goodStore : Option StoreId
  badStore : Option StoreId
  deriving DecidableEq, Repr

structure Cluster where
  config : Config
  shards : List ShardInfo
  catalog : Catalog
  readCounter : Nat
  readPreference : ReadPreference
  repairs : List ReadRepair

/-- A cluster, the stores and the clock it runs on. -/
@[ext]
structure Sys where
  stores : StoreId → Store
  cluster : Cluster
  clock : List DateTime

end ObjStr.Sharded
