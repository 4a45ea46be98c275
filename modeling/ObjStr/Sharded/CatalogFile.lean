/-
  ObjStr.Sharded.CatalogFile — the catalog on disk (`CatalogPersistence`, `shardedobjstr/src/catalog.rs`).

  The Json file is an envelope of the entries and a checksum of their text, the Bincode file four
  bytes of checksum and the payload; a Json file without the envelope is read too. The
  serializers are parameters (`Serde`) that read back what they have written.
  - `load_encode`: what `save` writes is loaded with the entries it was made from.
-/

import ObjStr.Lib.Wire
import ObjStr.Sharded.Catalog

namespace ObjStr.Sharded

open ObjStr.Lib ObjStr.Raw

/-! ## The serializers -/

def SameEntries (m m' : FMap PlacementEntry) : Prop := ∀ k, m.lookup k = m'.lookup k

theorem SameEntries.refl (m : FMap PlacementEntry) : SameEntries m m := fun _ => rfl

theorem SameEntries.symm {m m' : FMap PlacementEntry} (h : SameEntries m m') : SameEntries m' m := fun k => (h k).symm

theorem SameEntries.trans {m m' m'' : FMap PlacementEntry} (h : SameEntries m m') (h' : SameEntries m' m'') : SameEntries m m'' :=
  fun k => (h k).trans (h' k)

/-- `serde_json` and `bincode` at the catalog's entries. -/
class Serde where
  /-- `to_vec` of the map's `Value`, whose keys are in order. -/
  toJson : FMap PlacementEntry → Bytes
  toJson_congr : ∀ m m', SameEntries m m' → toJson m = toJson m'
  /-- The text of a `JsonEnvelope`, and what is parsed as one. -/
  envelope : UInt32 → FMap PlacementEntry → Bytes
  parseEnvelope : Bytes → Option (UInt32 × FMap PlacementEntry)
  parse_envelope : ∀ checksum m, ∃ m', parseEnvelope (envelope checksum m) = some (checksum, m') ∧ SameEntries m' m
  /-- The entries alone, as older files have them. -/
  fromJson : Bytes → Option (FMap PlacementEntry)
  toBincode : FMap PlacementEntry → Bytes
  fromBincode : Bytes → Option (FMap PlacementEntry)
  from_toBincode : ∀ m, ∃ m', fromBincode (toBincode m) = some m' ∧ SameEntries m' m

/-! ## Saving and loading -/

inductive CatalogPersistence where
  | none
  | json
  | bincode
  deriving DecidableEq, Repr

inductive LoadError where
  /-- "catalog checksum mismatch: expected .., got ..". -/
  | checksumMismatch (expected actual : UInt32)
  /-- "catalog file too short for checksum header". -/
  | tooShort
  /-- What the parser says. -/
  | invalidData
  deriving DecidableEq, Repr

def bincodeCrcLen : Nat := 4

namespace CatalogPersistence

variable [Crates] [Serde]

/-- The contents of the file that `save` writes; `None` writes no file. -/
def encode (p : CatalogPersistence) (inner : FMap PlacementEntry) : Option Bytes :=
  match p with
  | .none => Option.none
  | .json => some (Serde.envelope (crc32c (Serde.toJson inner)) inner)
  | .bincode =>
    let payload := Serde.toBincode inner
    some (Wire.u32.put (crc32c payload) ++ payload)

def load (p : CatalogPersistence) (file : Option Bytes) : Except LoadError (FMap PlacementEntry) :=
  match p, file with
  | .none, _ => .ok ∅
  | _, Option.none => .ok ∅
  | .json, some raw =>
    match Serde.parseEnvelope raw with
    | some (checksum, data) =>
      let actual := crc32c (Serde.toJson data)
      if actual ≠ checksum then .error (.checksumMismatch checksum actual) else .ok data
    | Option.none =>
      match Serde.fromJson raw with
      | some data => .ok data
      | Option.none => .error .invalidData
  | .bincode, some raw =>
    if raw.length < bincodeCrcLen then .error .tooShort
    else
      let storedCrc := UInt32.ofNat (leNat (raw.take bincodeCrcLen))
      let payload := raw.drop bincodeCrcLen
      let actualCrc := crc32c payload
      if storedCrc ≠ actualCrc then .error (.checksumMismatch storedCrc actualCrc)
      else
        match Serde.fromBincode payload with
        | some data => .ok data
        | Option.none => .error .invalidData

/-- A file that was saved is loaded. -/
theorem load_encode {p : CatalogPersistence} {inner : FMap PlacementEntry} {data : Bytes} (h : p.encode inner = some data) :
    ∃ m, p.load (some data) = .ok m ∧ SameEntries m inner := by
  cases p with
  | none => cases h
  | json =>
    cases h
    obtain ⟨m, hm, hsame⟩ := Serde.parse_envelope (crc32c (Serde.toJson inner)) inner
    refine ⟨m, ?_, hsame⟩
    have hcrc : crc32c (Serde.toJson m) = crc32c (Serde.toJson inner) := by rw [Serde.toJson_congr m inner hsame]
    simp only [load, hm, hcrc, ne_eq, not_true_eq_false, if_false]
  | bincode =>
    cases h
    obtain ⟨m, hm, hsame⟩ := Serde.from_toBincode inner
    refine ⟨m, ?_, hsame⟩
    have hlen : (Wire.u32.put (crc32c (Serde.toBincode inner))).length = bincodeCrcLen := Wire.u32.length_put _
    have hstored : UInt32.ofNat (leNat (Wire.u32.put (crc32c (Serde.toBincode inner)))) = crc32c (Serde.toBincode inner) := by
      have hlt : (crc32c (Serde.toBincode inner)).toNat < 256 ^ 4 := (crc32c (Serde.toBincode inner)).toNat_lt
      show UInt32.ofNat (leNat (leBytes 4 (crc32c (Serde.toBincode inner)).toNat)) = _
      rw [leNat_leBytes 4 _ hlt]
      simp
    have hge : ¬ (Wire.u32.put (crc32c (Serde.toBincode inner)) ++ Serde.toBincode inner).length < bincodeCrcLen := by
      rw [List.length_append, hlen]
      omega
    simp only [load, if_neg hge, List.take_left' hlen, List.drop_left' hlen, hstored, ne_eq, not_true_eq_false, if_false, hm]

end CatalogPersistence

end ObjStr.Sharded
