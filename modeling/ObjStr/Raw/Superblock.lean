/-
  ObjStr.Raw.Superblock — the superblock and its 4 KB encoding (`superblock.rs`).

  The encoding is `bincode`'s: fields in order, fixed-width little-endian, a vector as its
  `u64` length and its items, trailing bytes ignored. The checksum is the CRC of the padded
  4096-byte buffer with the checksum field zero; its place is found by comparing the encoding
  with a probe value in the field (`checksumOffset`), which is always byte 60
  (`checksumOffset_eq`). A written superblock reads back with its checksum filled in
  (`fromBytes_image`), whatever function the CRC is, and a buffer changed in a field or in its
  padding is refused where the CRC tells the two apart (`superblock_encoding_is_exact`).
-/

import Mathlib.Data.Fin.VecNotation
import Mathlib.Data.Fintype.Pi
import ObjStr.Lib.Wire
import ObjStr.Raw.Basic
import ObjStr.Raw.Sample

namespace ObjStr.Raw

open ObjStr.Lib

structure ShardSlotMeta where
  /-- Which region holds the active copy: 0 = region A, 1 = region B. -/
  activeSlot : UInt8
  size : UInt32
  crc : UInt32
  deriving DecidableEq, Repr

structure Superblock where
  magic : Fin 8 → UInt8
  version : UInt32
  flags : UInt32
  deviceSize : UInt64
  blockAlignment : UInt64
  indexRegionOffset : UInt64
  indexRegionSize : UInt64
  txnId : UInt64
  indexChecksum : UInt32
  superblockChecksum : UInt32
  prevIndexOffset : UInt64
  prevIndexSize : UInt64
  prevTxnId : UInt64
  prevIndexChecksum : UInt32
  indexSlotCapacity : UInt64
  shardSlots : Fin numShards → ShardSlotMeta
  maxKeyLength : UInt32
  compression : UInt8
  deriving DecidableEq

/-- `b"RAWOBJST"`. -/
def superblockMagic : Fin 8 → UInt8 := ![0x52, 0x41, 0x57, 0x4F, 0x42, 0x4A, 0x53, 0x54]

def Superblock.new (deviceSize blockAlignment indexAOffset indexSlotCapacity : UInt64) (maxKeyLength : UInt32)
    (compression : Compression) : Superblock where
  magic := superblockMagic
  version := 4
  flags := 0
  deviceSize := deviceSize
  blockAlignment := blockAlignment
  indexRegionOffset := indexAOffset
  indexRegionSize := 0
  txnId := 0
  indexChecksum := 0
  superblockChecksum := 0
  prevIndexOffset := indexAOffset
  prevIndexSize := 0
  prevTxnId := 0
  prevIndexChecksum := 0
  indexSlotCapacity := indexSlotCapacity
  shardSlots := fun _ => ⟨0, 0, 0⟩
  maxKeyLength := maxKeyLength
  compression := compression.toU8

/-! ## The encoding -/

structure Head where
  magic : Fin 8 → UInt8
  version : UInt32
  flags : UInt32
  deviceSize : UInt64
  blockAlignment : UInt64
  indexRegionOffset : UInt64
  indexRegionSize : UInt64
  txnId : UInt64
  indexChecksum : UInt32

structure Mid where
  prevIndexOffset : UInt64
  prevIndexSize : UInt64
  prevTxnId : UInt64
  prevIndexChecksum : UInt32
  indexSlotCapacity : UInt64

structure Tail where
  shardSlots : Fin numShards → ShardSlotMeta
  maxKeyLength : UInt32
  compression : UInt8

def slotWire : Wire ShardSlotMeta :=
  (Wire.u8.pair (Wire.u32.pair Wire.u32)).iso (fun x => ⟨x.1, x.2.1, x.2.2⟩) (fun m => (m.activeSlot, m.size, m.crc))
    (fun _ => rfl)

def headWire : Wire Head :=
  ((Wire.u8.table 8).pair (Wire.u32.pair (Wire.u32.pair (Wire.u64.pair (Wire.u64.pair (Wire.u64.pair
    (Wire.u64.pair (Wire.u64.pair Wire.u32)))))))).iso
    (fun x => ⟨x.1, x.2.1, x.2.2.1, x.2.2.2.1, x.2.2.2.2.1, x.2.2.2.2.2.1, x.2.2.2.2.2.2.1, x.2.2.2.2.2.2.2.1,
      x.2.2.2.2.2.2.2.2⟩)
    (fun h => (h.magic, h.version, h.flags, h.deviceSize, h.blockAlignment, h.indexRegionOffset, h.indexRegionSize,
      h.txnId, h.indexChecksum))
    (fun _ => rfl)

def midWire : Wire Mid :=
  (Wire.u64.pair (Wire.u64.pair (Wire.u64.pair (Wire.u32.pair Wire.u64)))).iso
    (fun x => ⟨x.1, x.2.1, x.2.2.1, x.2.2.2.1, x.2.2.2.2⟩)
    (fun m => (m.prevIndexOffset, m.prevIndexSize, m.prevTxnId, m.prevIndexChecksum, m.indexSlotCapacity))
    (fun _ => rfl)

def tailWire : Wire Tail :=
  ((slotWire.table numShards).pair (Wire.u32.pair Wire.u8)).iso (fun x => ⟨x.1, x.2.1, x.2.2⟩)
    (fun t => (t.shardSlots, t.maxKeyLength, t.compression)) (fun _ => rfl)

def Superblock.head (sb : Superblock) : Head :=
  ⟨sb.magic, sb.version, sb.flags, sb.deviceSize, sb.blockAlignment, sb.indexRegionOffset, sb.indexRegionSize, sb.txnId,
    sb.indexChecksum⟩

def Superblock.mid (sb : Superblock) : Mid :=
  ⟨sb.prevIndexOffset, sb.prevIndexSize, sb.prevTxnId, sb.prevIndexChecksum, sb.indexSlotCapacity⟩

def Superblock.tail (sb : Superblock) : Tail := ⟨sb.shardSlots, sb.maxKeyLength, sb.compression⟩

def Superblock.ofParts (h : Head) (checksum : UInt32) (m : Mid) (t : Tail) : Superblock :=
  ⟨h.magic, h.version, h.flags, h.deviceSize, h.blockAlignment, h.indexRegionOffset, h.indexRegionSize, h.txnId,
    h.indexChecksum, checksum, m.prevIndexOffset, m.prevIndexSize, m.prevTxnId, m.prevIndexChecksum,
    m.indexSlotCapacity, t.shardSlots, t.maxKeyLength, t.compression⟩

def Superblock.afterChecksum (sb : Superblock) : Bytes :=
  midWire.put sb.mid ++ (Wire.u64.put (UInt64.ofNat numShards) ++ tailWire.put sb.tail)

def Superblock.serialize (sb : Superblock) : Bytes :=
  headWire.put sb.head ++ (Wire.u32.put sb.superblockChecksum ++ sb.afterChecksum)

def Superblock.withChecksum (sb : Superblock) (c : UInt32) : Superblock := { sb with superblockChecksum := c }

/-- Where the encodings of two checksum values first differ. -/
def Superblock.checksumOffset (sb : Superblock) : Option Nat :=
  ((sb.withChecksum 0).serialize.zip (sb.withChecksum 0xDEADBEEF).serialize).findIdx?
    fun (x : UInt8 × UInt8) => x.1 != x.2

section Checked

variable [Crates]

/-- Serialise to 4096 bytes, with the checksum of the padded buffer in its field. -/
def Superblock.toBytes (sb : Superblock) : Except RawStoreError Bytes :=
  let sb := sb.withChecksum 0
  let data := sb.serialize
  if superblockSize < data.length then .error (.io "serialized superblock exceeds SUPERBLOCK_SIZE")
  else
    let buf := padTo superblockSize data
    match sb.checksumOffset with
    | none => .error (.io "cannot locate superblock_checksum field in serialized data")
    | some off => .ok (patch buf off (leBytes 4 (crc32c buf).toNat))

/-- `check_buf`: the buffer at its full length with the checksum field zeroed. -/
def zeroChecksum (buf : Bytes) (off : Nat) : Bytes :=
  patch (padTo superblockSize (buf.take superblockSize)) off (leBytes 4 0)

def Superblock.fromBytes (buf : Bytes) : Except RawStoreError Superblock :=
  match headWire.take buf with
  | none => .error .bincode
  | some (h, rest) =>
    match (Wire.u32.pair (midWire.pair Wire.u64)).take rest with
    | none => .error .bincode
    | some ((checksum, m, len), rest) =>
      if h.magic ≠ superblockMagic then .error .notFormatted
      else if h.version ≠ 4 then .error (.io "unsupported superblock version")
      else if len ≠ UInt64.ofNat numShards then .error (.io "shard_slots length != expected")
      else match tailWire.take rest with
        | none => .error .bincode
        | some (t, _) =>
          let sb := Superblock.ofParts h checksum m t
          if sb.blockAlignment = 0 then .error .superblockCorrupt
          else match sb.checksumOffset with
            | none => .error (.io "cannot locate superblock_checksum field in serialized data")
            | some off =>
              if crc32c (zeroChecksum buf off) ≠ sb.superblockChecksum then .error .superblockCorrupt
              else .ok sb

/-! ## Round trip -/

omit [Crates] in
theorem length_head (h : Head) : (headWire.put h).length = 60 := headWire.length_put h

omit [Crates] in
theorem length_afterChecksum (sb : Superblock) : sb.afterChecksum.length = 2353 := by
  simp only [Superblock.afterChecksum, List.length_append, Wire.length_put]
  rfl

omit [Crates] in
theorem length_serialize (sb : Superblock) : sb.serialize.length = 2417 := by
  simp only [Superblock.serialize, List.length_append, length_afterChecksum, Wire.length_put]
  rfl

omit [Crates] in
/-- Two lists with a common start first differ where their ends do. -/
theorem findIdx?_zip_append (pre a b : Bytes) :
    ((pre ++ a).zip (pre ++ b)).findIdx? (fun (x : UInt8 × UInt8) => x.1 != x.2) =
      ((a.zip b).findIdx? fun (x : UInt8 × UInt8) => x.1 != x.2).map (· + pre.length) := by
  induction pre with
  | nil => simp
  | cons x pre ih =>
    simp only [List.cons_append, List.zip_cons_cons, List.findIdx?_cons, bne_self_eq_false, Bool.false_eq_true,
      if_false, ih, Option.map_map, List.length_cons]
    congr 1

omit [Crates] in
theorem checksumOffset_eq (sb : Superblock) : sb.checksumOffset = some 60 := by
  unfold Superblock.checksumOffset Superblock.serialize
  rw [show (sb.withChecksum 0).head = sb.head from rfl, show (sb.withChecksum 0xDEADBEEF).head = sb.head from rfl,
    findIdx?_zip_append, length_head]
  have h0 : Wire.u32.put 0 = [0, 0, 0, 0] := by decide
  have h1 : Wire.u32.put 0xDEADBEEF = [0xEF, 0xBE, 0xAD, 0xDE] := by decide
  simp only [Superblock.withChecksum, h0, h1, List.cons_append, List.zip_cons_cons, List.findIdx?_cons]
  rfl

/-- The encoding with the checksum `c` in its field, padded. -/
def Superblock.image (sb : Superblock) (c : UInt32) : Bytes :=
  padTo superblockSize (sb.withChecksum c).serialize

omit [Crates] in
theorem image_eq (sb : Superblock) (c : UInt32) :
    sb.image c = headWire.put sb.head ++ Wire.u32.put c ++ (sb.afterChecksum ++ List.replicate 1679 0) := by
  unfold Superblock.image padTo
  rw [length_serialize]
  simp only [Superblock.serialize, List.append_assoc]
  rfl

omit [Crates] in
theorem length_image (sb : Superblock) (c : UInt32) : (sb.image c).length = superblockSize := by
  simp only [image_eq, List.length_append, length_afterChecksum, Wire.length_put, List.length_replicate]
  rfl

omit [Crates] in
theorem patch_image (sb : Superblock) (c c' : UInt32) : patch (sb.image c) 60 (Wire.u32.put c') = sb.image c' := by
  rw [image_eq, image_eq]
  have := patch_append (headWire.put sb.head) (Wire.u32.put c) (sb.afterChecksum ++ List.replicate 1679 0) (Wire.u32.put c')
    (by rw [Wire.length_put, Wire.length_put])
  rwa [length_head] at this

omit [Crates] in
theorem zeroChecksum_image (sb : Superblock) (c : UInt32) : zeroChecksum (sb.image c) 60 = sb.image 0 := by
  unfold zeroChecksum
  rw [List.take_of_length_le (by rw [length_image]), padTo, length_image, Nat.sub_self, List.replicate_zero,
    List.append_nil]
  exact patch_image sb c 0

def Superblock.checksum (sb : Superblock) : UInt32 := crc32c (sb.image 0)

theorem toBytes_eq (sb : Superblock) : sb.toBytes = .ok (sb.image sb.checksum) := by
  have h0 : (sb.withChecksum 0).serialize.length = 2417 := length_serialize _
  unfold Superblock.toBytes
  simp only [h0, checksumOffset_eq, show ¬ superblockSize < 2417 by decide, if_false]
  exact congrArg Except.ok (patch_image sb 0 sb.checksum)

/-- A written superblock reads back, with the checksum filled in. -/
theorem fromBytes_image (sb : Superblock) (hm : sb.magic = superblockMagic) (hv : sb.version = 4)
    (ha : sb.blockAlignment ≠ 0) :
    Superblock.fromBytes (sb.image sb.checksum) = .ok (sb.withChecksum sb.checksum) := by
  have himg : sb.image sb.checksum = headWire.put sb.head ++ (Wire.u32.put sb.checksum ++ (midWire.put sb.mid ++
      (Wire.u64.put (UInt64.ofNat numShards) ++ (tailWire.put sb.tail ++ List.replicate 1679 0)))) := by
    rw [image_eq]; simp only [Superblock.afterChecksum, List.append_assoc]
  have h1 : headWire.take (sb.image sb.checksum) = some (sb.head, Wire.u32.put sb.checksum ++ (midWire.put sb.mid ++
      (Wire.u64.put (UInt64.ofNat numShards) ++ (tailWire.put sb.tail ++ List.replicate 1679 0)))) := by
    rw [himg]; exact headWire.take_put _ _
  have h2 : (Wire.u32.pair (midWire.pair Wire.u64)).take (Wire.u32.put sb.checksum ++ (midWire.put sb.mid ++
      (Wire.u64.put (UInt64.ofNat numShards) ++ (tailWire.put sb.tail ++ List.replicate 1679 0)))) =
      some ((sb.checksum, sb.mid, UInt64.ofNat numShards), tailWire.put sb.tail ++ List.replicate 1679 0) := by
    have := (Wire.u32.pair (midWire.pair Wire.u64)).take_put (sb.checksum, sb.mid, UInt64.ofNat numShards)
      (tailWire.put sb.tail ++ List.replicate 1679 0)
    simpa only [Wire.pair, List.append_assoc] using this
  have h3 : tailWire.take (tailWire.put sb.tail ++ List.replicate 1679 0) = some (sb.tail, List.replicate 1679 0) :=
    tailWire.take_put _ _
  have hz := zeroChecksum_image sb sb.checksum
  unfold Superblock.fromBytes
  simp only [h1, h2, h3]
  have e1 : sb.head.magic = superblockMagic := hm
  have e2 : sb.head.version = 4 := hv
  have e3 : ¬ (Superblock.ofParts sb.head sb.checksum sb.mid sb.tail).blockAlignment = 0 := ha
  simp only [e1, e2, e3, ne_eq, not_true_eq_false, if_false, checksumOffset_eq, hz]
  have e4 : crc32c (sb.image 0) = (Superblock.ofParts sb.head sb.checksum sb.mid sb.tail).superblockChecksum := rfl
  simp only [e4, not_true_eq_false, if_false]
  rfl

/-! ## What a reader rejects

  A reader compares two things of the buffer: the four bytes of the checksum field, and the CRC of
  the buffer with these four zeroed. Where one differs from what was written and the other does
  not, the buffer is refused, whichever field or padding byte the change was in.
-/

def storedChecksum (b : Bytes) : UInt32 := UInt32.ofNat (leNat ((b.drop 60).take 4))

def Superblock.Rejected (b : Bytes) : Prop := ∃ e, Superblock.fromBytes b = .error e

omit [Crates] in
theorem exact_headWire : headWire.Exact :=
  have u32 := Wire.exact_uint 4 UInt32.toNat UInt32.ofNat (fun a => a.toNat_lt) (fun a => by simp)
  have u64 := Wire.exact_uint 8 UInt64.toNat UInt64.ofNat (fun a => a.toNat_lt) (fun a => by simp)
  have u8 := Wire.exact_uint 1 UInt8.toNat UInt8.ofNat (fun a => a.toNat_lt) (fun a => by simp)
  ((u8.table 8).pair (u32.pair (u32.pair (u64.pair (u64.pair (u64.pair (u64.pair (u64.pair u32)))))))).iso _ _ _

omit [Crates] in
/-- The checksum is read from bytes 60 to 63. -/
theorem stored_of_take {b rest rest' : Bytes} {h : Head} {c : UInt32} {x : Mid × UInt64} (hh : headWire.take b = some (h, rest))
    (hc : (Wire.u32.pair (midWire.pair Wire.u64)).take rest = some ((c, x), rest')) : c = storedChecksum b := by
  have hr : rest = b.drop 60 := exact_headWire b h rest hh
  simp only [Wire.pair, Option.bind_eq_some_iff, Option.map_eq_some_iff] at hc
  obtain ⟨y, hy, z, -, he⟩ := hc
  simp only [Prod.mk.injEq] at he
  rw [← he.1.1]
  simp only [Wire.u32, Wire.uint] at hy
  by_cases h4 : 4 ≤ rest.length
  · rw [if_pos h4, Option.some.injEq] at hy
    rw [← hy, storedChecksum, hr]
  · rw [if_neg h4] at hy
    simp at hy

/-- A buffer that is read carries in its checksum field the CRC of the rest of it. -/
theorem stored_of_fromBytes {b : Bytes} {sb : Superblock} (h : Superblock.fromBytes b = .ok sb) :
    crc32c (zeroChecksum b 60) = storedChecksum b := by
  unfold Superblock.fromBytes at h
  split at h
  · cases h
  rename_i hd rest hh
  split at h
  · cases h
  rename_i c m len rest' hc
  have hs := stored_of_take hh hc
  split at h
  · cases h
  split at h
  · cases h
  split at h
  · cases h
  split at h
  · cases h
  rename_i t rest'' ht
  by_cases ha : (Superblock.ofParts hd c m t).blockAlignment = 0
  · simp only [ha, if_true] at h
    cases h
  simp only [ha, if_false, checksumOffset_eq] at h
  by_cases hq : crc32c (zeroChecksum b 60) = c
  · rw [hq, hs]
  · simp only [show (Superblock.ofParts hd c m t).superblockChecksum = c from rfl, ne_eq, hq, not_false_eq_true,
      if_true] at h
    cases h

theorem rejected_of_ne {b : Bytes} (h : crc32c (zeroChecksum b 60) ≠ storedChecksum b) : Superblock.Rejected b := by
  cases hb : Superblock.fromBytes b with
  | error e => exact ⟨e, hb⟩
  | ok sb => exact absurd (stored_of_fromBytes hb) h

omit [Crates] in
theorem stored_image (sb : Superblock) (c : UInt32) : storedChecksum (sb.image c) = c := by
  have hd : (sb.image c).drop 60 = Wire.u32.put c ++ (sb.afterChecksum ++ List.replicate 1679 0) := by
    rw [image_eq, List.append_assoc, List.drop_left' (length_head sb.head)]
  have ht : (Wire.u32.put c ++ (sb.afterChecksum ++ List.replicate 1679 0)).take 4 = leBytes 4 c.toNat :=
    List.take_left' (length_leBytes 4 c.toNat)
  rw [storedChecksum, hd, ht, leNat_leBytes 4 c.toNat c.toNat_lt]
  simp

omit [Crates] in
theorem stored_set {b : Bytes} {i : Nat} (hi : 64 ≤ i) (v : UInt8) : storedChecksum (b.set i v) = storedChecksum b := by
  unfold storedChecksum
  rw [List.drop_set, if_neg (by omega), List.take_set_of_le (by omega)]

/-- Another buffer under the same checksum is refused where the CRC tells the two apart. -/
theorem rejected_of_crc (sb : Superblock) {b : Bytes} (hs : storedChecksum b = sb.checksum)
    (hc : crc32c (zeroChecksum b 60) ≠ crc32c (sb.image 0)) : Superblock.Rejected b := by
  apply rejected_of_ne
  rw [hs]
  exact hc

/-- Every superblock of this version is written in 4096 bytes and read back with its checksum filled
    in. Other field values, other padding and any other buffer under the same checksum are refused
    where the CRC over the zeroed checksum field differs; another checksum value always is. -/
theorem superblock_encoding_is_exact (sb : Superblock) (hm : sb.magic = superblockMagic) (hv : sb.version = 4)
    (ha : sb.blockAlignment ≠ 0) :
    ∃ buf, sb.toBytes = .ok buf ∧ buf.length = superblockSize ∧
      Superblock.fromBytes buf = .ok (sb.withChecksum (crc32c (zeroChecksum buf 60))) ∧
      (∀ sb' : Superblock, crc32c (zeroChecksum (sb'.image (storedChecksum buf)) 60) ≠ crc32c (zeroChecksum buf 60) →
        Superblock.Rejected (sb'.image (storedChecksum buf))) ∧
      (∀ i v, sb.serialize.length ≤ i → i < superblockSize →
        crc32c (zeroChecksum (buf.set i v) 60) ≠ crc32c (zeroChecksum buf 60) → Superblock.Rejected (buf.set i v)) ∧
      (∀ b, storedChecksum b = storedChecksum buf → crc32c (zeroChecksum b 60) ≠ crc32c (zeroChecksum buf 60) →
        Superblock.Rejected b) ∧
      ∀ c, c ≠ storedChecksum buf → Superblock.Rejected (sb.image c) := by
  have hz : zeroChecksum (sb.image sb.checksum) 60 = sb.image 0 := zeroChecksum_image sb sb.checksum
  have hs : storedChecksum (sb.image sb.checksum) = sb.checksum := stored_image sb sb.checksum
  refine ⟨sb.image sb.checksum, toBytes_eq sb, length_image sb _, ?_, ?_, ?_, ?_, ?_⟩
  · rw [hz]
    exact fromBytes_image sb hm hv ha
  · intro sb' hc
    rw [hz, hs] at hc
    rw [hs]
    exact rejected_of_crc sb (stored_image sb' sb.checksum) hc
  · intro i v hi _ hc
    rw [hz] at hc
    rw [length_serialize] at hi
    exact rejected_of_crc sb ((stored_set (by omega) v).trans hs) hc
  · intro b hb hc
    rw [hz] at hc
    exact rejected_of_crc sb (hb.trans hs) hc
  · intro c hc
    apply rejected_of_ne
    rw [zeroChecksum_image, stored_image]
    intro h
    exact hc (h.symm.trans hs.symm)

-- Callers use the lemmas above; unfolding these on an open term walks the whole 4 KB buffer.
attribute [irreducible] Superblock.toBytes Superblock.fromBytes

end Checked

open Sample in
theorem sample_encoding_is_exact : ∃ buf,
    (Superblock.new 1073741824 4096 943718400 16777216 1024 .none).toBytes = .ok buf ∧ buf.length = superblockSize ∧
      ∀ c, c ≠ storedChecksum buf →
        Superblock.Rejected ((Superblock.new 1073741824 4096 943718400 16777216 1024 .none).image c) := by
  obtain ⟨buf, hb, hl, -, -, -, -, hc⟩ := superblock_encoding_is_exact
    (Superblock.new 1073741824 4096 943718400 16777216 1024 .none) rfl rfl (show (4096 : UInt64) ≠ 0 by decide)
  exact ⟨buf, hb, hl, hc⟩

end ObjStr.Raw
