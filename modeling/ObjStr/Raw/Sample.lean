/-
  ObjStr.Raw.Sample — crates to run the model with: `crc32c` bit by bit, `bincode` for an index
  shard, and compressors that always decline, which leaves the data as it is.

  A `u64` takes eight bytes; the model's numbers have no bound, and one that does not fit is
  written in base 255 after eight bytes of 0xFF.
-/

import Mathlib.Data.Nat.Digits.Lemmas
import ObjStr.Lib.Wire
import ObjStr.Raw.Basic

namespace ObjStr.Raw.Sample

open ObjStr.Lib

/-! ## CRC-32C -/

def crcBit (c : UInt32) : UInt32 := if c &&& 1 = 1 then (c >>> 1) ^^^ 0x82F63B78 else c >>> 1

def crcByte (c : UInt32) (b : UInt8) : UInt32 := Nat.repeat crcBit 8 (c ^^^ b.toUInt32)

def crcAppend (crc : UInt32) (data : Bytes) : UInt32 := ~~~(data.foldl crcByte (~~~crc))

/-! ## Codes -/

/-- A code whose words can be read off the front of any input. -/
structure Code (α : Type) where
  put : α → Bytes
  take : Bytes → Option (α × Bytes)
  take_put : ∀ a rest, take (put a ++ rest) = some (a, rest)

namespace Code

def ofWire {α : Type} (w : Wire α) : Code α := ⟨w.put, w.take, w.take_put⟩

def pair {α β : Type} (p : Code α) (q : Code β) : Code (α × β) where
  put x := p.put x.1 ++ q.put x.2
  take b := (p.take b).bind fun x => (q.take x.2).map fun y => ((x.1, y.1), y.2)
  take_put x rest := by simp [p.take_put, q.take_put]

def iso {α β : Type} (p : Code α) (f : α → β) (g : β → α) (hfg : ∀ b, f (g b) = b) : Code β where
  put b := p.put (g b)
  take b := (p.take b).map fun x => (f x.1, x.2)
  take_put b rest := by simp [p.take_put, hfg]

/-- Base 255, lowest digit first. -/
def digits (n : Nat) : Bytes := (Nat.digits 255 n).map UInt8.ofNat

theorem ofDigits_digits (n : Nat) : Nat.ofDigits 255 ((digits n).map UInt8.toNat) = n := by
  have h : (digits n).map UInt8.toNat = Nat.digits 255 n := by
    unfold digits
    rw [List.map_map]
    refine (List.map_congr_left fun d hd => ?_).trans (List.map_id _)
    have h1 : d < 255 := Nat.digits_lt_base (by decide) hd
    exact UInt8.toNat_ofNat_of_lt' (by show d < 256; omega)
  rw [h, Nat.ofDigits_digits]

theorem digits_ne (n : Nat) : ∀ d ∈ digits n, (d != 255) = true := by
  intro d hd
  obtain ⟨m, hm, rfl⟩ := List.mem_map.mp hd
  have h1 : m < 255 := Nat.digits_lt_base (by decide) hm
  simp only [bne_iff_ne, ne_eq]
  intro h
  have h2 := congrArg UInt8.toNat h
  rw [UInt8.toNat_ofNat_of_lt' (by show m < 256; omega)] at h2
  exact absurd h2 (Nat.ne_of_lt h1)

def nat : Code Nat where
  put n := if n < u64Max then leBytes 8 n else leBytes 8 u64Max ++ (digits n ++ [255])
  take b :=
    if b.length < 8 then none
    else if leNat (b.take 8) < u64Max then some (leNat (b.take 8), b.drop 8)
    else some (Nat.ofDigits 255 (((b.drop 8).takeWhile (· != 255)).map UInt8.toNat), ((b.drop 8).dropWhile (· != 255)).tail)
  take_put n rest := by
    have hmax : leNat (leBytes 8 u64Max) = u64Max := leNat_leBytes 8 u64Max (by decide)
    by_cases h : n < u64Max
    · have hn : leNat (leBytes 8 n) = n := leNat_leBytes 8 n (lt_trans h (by decide))
      simp only [h, if_true]
      rw [if_neg (by simp), List.take_left' (length_leBytes 8 n), List.drop_left' (length_leBytes 8 n), hn, if_pos h]
    · simp only [h, if_false, List.append_assoc]
      rw [if_neg (by simp), List.take_left' (length_leBytes 8 _), List.drop_left' (length_leBytes 8 _), hmax,
        if_neg (Nat.lt_irrefl _), List.takeWhile_append_of_pos (digits_ne n), List.dropWhile_append_of_pos (digits_ne n)]
      simp [ofDigits_digits]

def takeMany {α : Type} (p : Code α) : (n : Nat) → Bytes → Option (List α × Bytes)
  | 0, b => some ([], b)
  | n + 1, b => (p.take b).bind fun x => (takeMany p n x.2).map fun y => (x.1 :: y.1, y.2)

theorem takeMany_put {α : Type} (p : Code α) (l : List α) (rest : Bytes) :
    takeMany p l.length (l.flatMap p.put ++ rest) = some (l, rest) := by
  induction l with
  | nil => rfl
  | cons a l ih => simp [takeMany, p.take_put, ih]

def list {α : Type} (p : Code α) : Code (List α) where
  put l := nat.put l.length ++ l.flatMap p.put
  take b := (nat.take b).bind fun x => takeMany p x.1 x.2
  take_put l rest := by simp [nat.take_put, takeMany_put]

def text : Code String :=
  iso (list (ofWire Wire.u8)) (fun b => (String.fromUTF8? ⟨b.toArray⟩).getD "") keyBytes ofKeyBytes_keyBytes

def u16 : Code UInt16 := ofWire (Wire.uint 2 UInt16.toNat UInt16.ofNat (fun a => a.toNat_lt) (fun a => by simp))

def extent : Code ExtentInfo :=
  iso (pair nat (pair nat (pair nat (pair (ofWire Wire.u32) (pair (ofWire Wire.u64) (pair nat (pair u16 nat)))))))
    (fun x => ⟨x.1, x.2.1, x.2.2.1, x.2.2.2.1, x.2.2.2.2.1, x.2.2.2.2.2.1, x.2.2.2.2.2.2.1, x.2.2.2.2.2.2.2⟩)
    (fun e => (e.offset, e.size, e.paddedSize, e.crc32c, e.createdTxn, e.lastModified, e.metaLen, e.uncompressedSize))
    fun _ => rfl

def tombstone : Code TombstoneInfo :=
  iso (pair nat (pair (ofWire Wire.u32) (pair nat (pair text (ofWire Wire.u64)))))
    (fun x => ⟨x.1, x.2.1, x.2.2.1, x.2.2.2.1, x.2.2.2.2⟩)
    (fun t => (t.size, t.crc32c, t.lastModified, t.reason, t.tombstoneTxn)) fun _ => rfl

def entry {V : Type} (p : Code V) : Code (Sigma fun _ : Key => V) :=
  iso (pair text p) (fun x => ⟨x.1, x.2⟩) (fun e => (e.1, e.2)) fun _ => rfl

/-- A map as its length and its entries; entries with a repeated key are no map. -/
def map {V : Type} (p : Code V) : Code (FMap V) where
  put m := (list (entry p)).put m.entries
  take b := ((list (entry p)).take b).bind fun x =>
    if h : x.1.keys.Nodup then some (⟨x.1, h⟩, x.2) else none
  take_put m rest := by
    rw [(list (entry p)).take_put, Option.bind_some]
    exact dif_pos m.nodupKeys

def shard : Code ShardData :=
  iso (pair (map extent) (map tombstone)) (fun x => ⟨x.1, x.2⟩) (fun s => (s.files, s.tombstones)) fun _ => rfl

theorem length_nat_put (n : Nat) : 8 ≤ (nat.put n).length := by
  simp only [nat]
  split <;> simp

end Code

/-! ## The crates -/

scoped instance crates : Crates where
  crc32cAppend := crcAppend
  crc32cAppend_nil c := by simp [crcAppend]
  crc32cAppend_append c a b := by simp [crcAppend]
  serializeShard := Code.shard.put
  deserializeShard b := (Code.shard.take b).map (·.1)
  deserialize_serialize s := by
    refine ⟨s, ?_, ⟨.refl _, .refl _⟩⟩
    have h := Code.shard.take_put s []
    rw [List.append_nil] at h
    rw [h]
    rfl
  serialize_ne_nil s h := by
    have h1 := Code.length_nat_put s.files.entries.length
    have h2 := congrArg List.length h
    simp only [Code.shard, Code.iso, Code.pair, Code.map, Code.list, List.length_append, List.length_nil] at h2
    omega
  length_serialize_empty := rfl
  encode _ _ := none
  encodeStream _ _ := none
  decode _ _ := none
  decode_encode := by simp
  decode_encodeStream := by simp
  encode_ne_nil := by simp
  encodeStream_ne_nil := by simp
  pull _ _ _ _ := none
  pull_all := by simp
  pull_some := by simp
  pull_nil := by simp

/-! ## Sizes -/

theorem size_fits : 1048576 ≤ u64Max := by decide

theorem slots_fit : 16777216 / numShards < 2 ^ 32 := by decide

theorem keys_fit : 0 < 1024 := by decide

theorem size_whole : false = true → 1048576 % blockAlignment = 0 := by decide

-- the check value of CRC-32C
example : crc32c (keyBytes "123456789") = 0xE3069283 := by decide +kernel

end ObjStr.Raw.Sample
