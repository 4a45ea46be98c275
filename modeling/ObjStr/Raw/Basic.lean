/-
  ObjStr.Raw.Basic — the raw store's constants, errors and records (`rawobjstr/src/lib.rs`,
  `index.rs`), and the crates it is built on.

  Addresses, sizes and counters of the source are `u64`; they are natural numbers here, with
  the overflow checks the source makes. What is written to disk with a width keeps it: the
  superblock's fields, the CRCs, `meta_len`. A `HashMap<String, V>` is an association list
  without repeated keys, in any order: what depends on the iteration order of a map is
  proved for every order. A key's length is the length of its UTF-8 bytes.

  `Crates` is what the store takes from outside: `crc32c`, `bincode` for an index shard, and
  the compressors. Its laws are the documented ones: a CRC can be continued over appended
  bytes, an index shard deserialises to the entries that were serialised and is never zero bytes
  long (an empty one has the two lengths of its maps), a decoder inverts its encoder, an
  encoder's output is never empty (every zstd, snappy and gzip stream has a header), and a streaming
  decoder gives out what the decoder does, from the front.
-/

import Mathlib.Data.List.AList
import ObjStr.Lib.Disk

namespace ObjStr.Raw

open ObjStr.Lib

/-! ## Constants -/

def superblockSize : Nat := 4096
def superblockRegion : Nat := superblockSize * 2
def dataStart : Nat := superblockRegion
def blockAlignment : Nat := 4096
/-- 16 MB: the default index slot, and what every index slot is a multiple of. -/
def indexRegionSize : Nat := 16 * 1024 * 1024
def numShards : Nat := 256
def defaultMaxKeyLength : Nat := 1024
def maxKeyLengthHardCeiling : Nat := 65536
def flagDirectIo : UInt32 := 1
def flagWriteProtect : UInt32 := 2
/-- 1 GB. -/
def compressedRangeReadMax : Nat := 1024 * 1024 * 1024
def u16Max : Nat := 65535
def u64Max : Nat := 18446744073709551615

def minDeviceSize (indexSlotSize : Nat) : Nat := superblockRegion + blockAlignment + indexSlotSize * 2

def alignUp (value alignment : Nat) : Nat := (value + alignment - 1) / alignment * alignment

/-- `u64::saturating_add`. -/
def satAdd (a b : Nat) : Nat := min (a + b) u64Max

/-- A zeroed buffer of `len` bytes with `data` copied to its start. -/
def padTo (len : Nat) (data : Bytes) : Bytes := data ++ List.replicate (len - data.length) 0

theorem length_padTo {len : Nat} {data : Bytes} (h : data.length ≤ len) : (padTo len data).length = len := by
  simp [padTo]; omega

/-! ## Keys and maps -/

abbrev Key := String

def keyBytes (key : Key) : Bytes := key.toByteArray.data.toList

theorem keyBytes_append (a b : Key) : keyBytes (a ++ b) = keyBytes a ++ keyBytes b := by
  unfold keyBytes
  rw [String.toByteArray_append]
  simp

theorem keyBytes_eq (s : Key) : keyBytes s = s.toList.flatMap String.utf8EncodeChar := by
  conv_lhs => rw [← String.ofList_toList (s := s)]
  unfold keyBytes
  rw [String.toByteArray_ofList, List.utf8Encode]
  simp

/-- The key whose bytes these are; bytes that are no UTF-8 are no key's. -/
def ofKeyBytes (b : Bytes) : Key := (String.fromUTF8? ⟨b.toArray⟩).getD ""

theorem ofKeyBytes_keyBytes (key : Key) : ofKeyBytes (keyBytes key) = key := by
  have h : (⟨(keyBytes key).toArray⟩ : ByteArray) = key.toByteArray := by simp [keyBytes]
  unfold ofKeyBytes
  rw [h]
  simp [String.fromUTF8?, key.isValidUTF8]
  rfl

/-- `key.len()`. -/
def keyLen (key : Key) : Nat := (keyBytes key).length

/-- Temporary multipart extents live under this prefix. -/
def multipartTmpPrefix : Key := "__raw_multipart_tmp/"

def isMultipartTmp (key : Key) : Bool := (keyBytes multipartTmpPrefix).isPrefixOf (keyBytes key)

abbrev FMap (V : Type) := AList fun _ : Key => V

namespace FMap

variable {V : Type}

def filterKeys (m : FMap V) (p : Key → Bool) : FMap V :=
  ⟨m.entries.filter fun e => p e.1, m.nodupKeys.sublist List.filter_sublist⟩

def values (m : FMap V) : List V := m.entries.map fun e => e.2

/-- `HashMap::extend`: the entries of `n` over those of `m`. -/
def extend (m n : FMap V) : FMap V := n.entries.foldl (fun acc e => acc.insert e.1 e.2) m

end FMap

/-! ## Errors -/

inductive RawStoreError where
  | notFormatted
  | superblockCorrupt
  | indexCorrupt
  | dataCorruption (path : String) (expected actual : UInt32)
  | extentInvalid (reason : String)
  | noSpace (needed available : Nat)
  | notFound (path : Key)
  | alreadyExists (path : Key)
  | deviceTooSmall (size minimum : Nat)
  | invalidIndexSlotSize (size : Nat)
  | keyTooLong (len max : Nat)
  | shardOverflow (shard size capacity : Nat)
  | maxKeyLengthTooLarge (len max : Nat)
  | metadataTooLarge (len max : Nat)
  | emptyPayload
  | readOnly
  | writeProtected
  | io (reason : String)
  | bincode
  /-- `object_store::Error::Precondition`: a conditional update is not supported. -/
  | precondition (path : Key)
  /-- A failed assertion: the call unwinds. -/
  | panic (reason : String)
  deriving DecidableEq, Repr

/-! ## Compression -/

inductive Compression where
  | none | zstd | snappy
  | gzip0 | gzip1 | gzip2 | gzip3 | gzip4 | gzip5 | gzip6 | gzip7 | gzip8 | gzip9
  deriving DecidableEq, Repr

def Compression.toU8 : Compression → UInt8
  | .none => 0 | .zstd => 1 | .snappy => 2
  | .gzip0 => 3 | .gzip1 => 4 | .gzip2 => 5 | .gzip3 => 6 | .gzip4 => 7
  | .gzip5 => 8 | .gzip6 => 9 | .gzip7 => 10 | .gzip8 => 11 | .gzip9 => 12

def Compression.fromU8 (v : UInt8) : Except RawStoreError Compression :=
  match v.toNat with
  | 0 => .ok .none | 1 => .ok .zstd | 2 => .ok .snappy
  | 3 => .ok .gzip0 | 4 => .ok .gzip1 | 5 => .ok .gzip2 | 6 => .ok .gzip3 | 7 => .ok .gzip4
  | 8 => .ok .gzip5 | 9 => .ok .gzip6 | 10 => .ok .gzip7 | 11 => .ok .gzip8 | 12 => .ok .gzip9
  | _ => .error (.io "unknown compression algorithm")

theorem Compression.fromU8_toU8 (c : Compression) : Compression.fromU8 c.toU8 = .ok c := by
  cases c <;> rfl

/-! ## The index -/

abbrev DateTime := Nat

structure ExtentInfo where
  /-- Byte offset on the device where the extent starts. -/
  offset : Nat
  /-- On-disk payload size (compressed, if the payload was compressed). -/
  size : Nat
  /-- Size of the extent: whole blocks. -/
  paddedSize : Nat
  /-- CRC32c of the on-disk payload. -/
  crc32c : UInt32
  createdTxn : UInt64
  lastModified : DateTime
  /-- Length of the metadata at the end of the (uncompressed) payload. -/
  metaLen : UInt16
  /-- Uncompressed payload size; 0: stored uncompressed. -/
  uncompressedSize : Nat
  deriving DecidableEq, Repr

structure TombstoneInfo where
  size : Nat
  crc32c : UInt32
  lastModified : DateTime
  reason : String
  tombstoneTxn : UInt64
  deriving DecidableEq, Repr

structure ShardData where
  files : FMap ExtentInfo
  tombstones : FMap TombstoneInfo
  deriving DecidableEq

def ShardData.empty : ShardData := ⟨∅, ∅⟩

/-- The same entries, in whatever order the maps hold them. -/
structure ShardData.Same (s t : ShardData) : Prop where
  files : s.files.entries.Perm t.files.entries
  tombstones : s.tombstones.entries.Perm t.tombstones.entries

/-! ## The crates -/

class Crates where
  /-- `crc32c::crc32c_append`. -/
  crc32cAppend : UInt32 → Bytes → UInt32
  crc32cAppend_nil : ∀ c, crc32cAppend c [] = c
  crc32cAppend_append : ∀ c a b, crc32cAppend c (a ++ b) = crc32cAppend (crc32cAppend c a) b
  /-- `bincode::serialize` and `bincode::deserialize` at `ShardData`. -/
  serializeShard : ShardData → Bytes
  deserializeShard : Bytes → Option ShardData
  deserialize_serialize : ∀ s, ∃ s', deserializeShard (serializeShard s) = some s' ∧ s'.Same s
  serialize_ne_nil : ∀ s, serializeShard s ≠ []
  /-- Two maps without entries: their two `u64` lengths. -/
  length_serialize_empty : (serializeShard .empty).length = 16
  /-- `zstd::bulk::compress`, `snap::raw`, `GzEncoder`, in one call; they may fail. -/
  encode : Compression → Bytes → Option Bytes
  /-- The same encoders fed the parts one after the other (`snap::raw` their concatenation). -/
  encodeStream : Compression → List Bytes → Option Bytes
  decode : Compression → Bytes → Option Bytes
  decode_encode : ∀ c x y, encode c x = some y → decode c y = some x
  decode_encodeStream : ∀ c xs y, encodeStream c xs = some y → decode c y = some xs.flatten
  encode_ne_nil : ∀ c x y, encode c x = some y → y ≠ []
  encodeStream_ne_nil : ∀ c xs y, encodeStream c xs = some y → y ≠ []
  /-- A streaming decoder (`zstd::stream::read`, `GzDecoder`) asked for `n` bytes: what it gives out on this
      input, after which there is more (`false`) or none (`true`); nothing if it needs more, or fails. -/
  pull : Compression → Bytes → Bool → Nat → Option Bytes
  pull_all : ∀ c x y n, decode c y = some x → n ≤ x.length → pull c y true n = some (x.take n)
  pull_some : ∀ c x y k n out, decode c y = some x → pull c (y.take k) false n = some out → out = x.take n
  pull_nil : ∀ c n, n ≠ 0 → pull c [] false n = none

variable [Crates]

def crc32cAppend (crc : UInt32) (data : Bytes) : UInt32 := Crates.crc32cAppend crc data

def crc32c (data : Bytes) : UInt32 := crc32cAppend 0 data

theorem crc32cAppend_append (c : UInt32) (a b : Bytes) :
    crc32cAppend c (a ++ b) = crc32cAppend (crc32cAppend c a) b := Crates.crc32cAppend_append c a b

/-- `Compression::compress`: no result for `None`; an encoder that fails gives the data back. -/
def Compression.compress (c : Compression) (data : Bytes) : Option Bytes :=
  match c with
  | .none => .none
  | c => some ((Crates.encode c data).getD data)

def Compression.decompress (c : Compression) (data : Bytes) : Except RawStoreError Bytes :=
  match c with
  | .none => .ok data
  | c => match Crates.decode c data with
    | some out => .ok out
    | .none => .error (.io "decompress failed")

/-- A compressed form that is shorter than the data decompresses to it. -/
theorem Compression.decompress_compress {c : Compression} {data out : Bytes} (h : c.compress data = some out)
    (hlt : out.length < data.length) : c.decompress out = .ok data ∧ out ≠ [] := by
  have key : ∀ y, (Crates.encode c data).getD data = y → y.length < data.length →
      Crates.decode c y = some data ∧ y ≠ [] := by
    intro y hy hl
    cases he : Crates.encode c data with
    | none => rw [he] at hy; subst hy; simp at hl
    | some z =>
      rw [he] at hy
      simp only [Option.getD_some] at hy
      subst hy
      exact ⟨Crates.decode_encode c data z he, Crates.encode_ne_nil c data z he⟩
  cases c <;> simp only [Compression.compress, Option.some.injEq, reduceCtorEq] at h <;>
    (obtain ⟨h1, h2⟩ := key out h hlt; exact ⟨by simp [Compression.decompress, h1], h2⟩)

/-! ## Index shards -/

def shardForKey (key : Key) : Fin numShards :=
  ⟨(crc32c (keyBytes key)).toNat % numShards, Nat.mod_lt _ (by decide)⟩

def ShardData.toBytes (s : ShardData) : Bytes × UInt32 := (Crates.serializeShard s, crc32c (Crates.serializeShard s))

def ShardData.fromBytes (data : Bytes) (expectedCrc : UInt32) : Except RawStoreError ShardData :=
  if crc32c data ≠ expectedCrc then .error .indexCorrupt
  else match Crates.deserializeShard data with
    | some shard => .ok shard
    | none => .error .bincode

theorem ShardData.fromBytes_toBytes (s : ShardData) :
    ∃ s' : ShardData, ShardData.fromBytes s.toBytes.1 s.toBytes.2 = .ok s' ∧ s'.Same s := by
  obtain ⟨s', h, hs⟩ := Crates.deserialize_serialize s
  exact ⟨s', by simp [ShardData.fromBytes, ShardData.toBytes, h], hs⟩

end ObjStr.Raw
