/-
  ObjStr.Sharded.TlvRoundtrip — what is decoded from an encoding (see `ObjStr.Sharded.Tlv`).

  - `decode_encode`: when every field has a place in the encoding, the map that comes back has the fields
    that were given.
  - `decode_attributes`: through a store that keeps attributes, the fields that are attributes come back.
-/

import ObjStr.Raw.Load
import ObjStr.Sharded.Tlv

namespace ObjStr.Sharded.Tlv

open ObjStr.Lib ObjStr.Raw

variable {name : Key} {value : String} {m : FMap String} {b rest : Bytes}

/-! ## Pieces of an encoding -/

theorem textOf_keyBytes (s : Key) : textOf (keyBytes s) = s := by
  have h1 : (⟨(keyBytes s).toArray⟩ : ByteArray) = s.toByteArray := by
    unfold keyBytes
    rw [Array.toArray_toList]
  rw [textOf, h1, String.fromUTF8?, dif_pos s.isValidUTF8]
  rfl

theorem takeField_u16Bytes (b rest : Bytes) (h : b.length ≤ maxFieldLen) :
    takeField (u16Bytes b.length ++ b ++ rest) = some (b, rest) := by
  have hlen : (UInt8.ofNat b.length).toNat + 256 * (UInt8.ofNat (b.length / 256)).toNat = b.length := by
    unfold maxFieldLen at h
    simp only [UInt8.toNat_ofNat']
    omega
  simp only [u16Bytes, List.cons_append, List.nil_append, takeField, hlen]
  rw [if_pos (by simp), List.take_left, List.drop_left]

theorem mem_fields_of_tag {tag : UInt8} (h : fieldNameToTag name = some tag) : (name, tag) ∈ fields := by
  obtain ⟨e, h1, rfl⟩ := Option.map_eq_some_iff.mp h
  have h2 := List.find?_some h1
  obtain rfl : e.1 = name := by simpa using h2
  exact List.mem_of_find?_eq_some h1

/-- The tag of a known field is no other mark, with the lookup bit and without it. -/
theorem tag_marks : ∀ e ∈ fields, e.2 ≠ tagCustom ∧ e.2 &&& lookupBit = 0 ∧ e.2 ||| lookupBit ≠ tagCustom ∧
    (e.2 ||| lookupBit) &&& lookupBit ≠ 0 ∧ (e.2 ||| lookupBit) &&& 0x7F = e.2 ∧ tagToFieldName e.2 = some e.1 := by
  decide

theorem length_table_lt (tag : UInt8) : (table tag).length < 256 := by
  unfold table
  split <;> decide

theorem valueFromLookup_of_valueLookup {tag idx : UInt8} (h : valueLookup tag value = some idx) :
    valueFromLookup tag idx = some value := by
  obtain ⟨i, h1, rfl⟩ := Option.map_eq_some_iff.mp h
  obtain ⟨hi, h2, -⟩ := List.findIdx?_eq_some_iff_getElem.mp h1
  have h3 := length_table_lt tag
  have h4 : (UInt8.ofNat i).toNat = i := UInt8.toNat_ofNat_of_lt' (Nat.lt_trans hi h3)
  rw [valueFromLookup, h4, List.getElem?_eq_getElem hi]
  exact congrArg some (by simpa using h2)

theorem append_customSuffix {suffix : List Char} (h : customSuffix name = some suffix) :
    customPrefix ++ String.ofList suffix = name := by
  unfold customSuffix at h
  split at h
  · next hp =>
    obtain rfl := Option.some.inj h
    obtain ⟨t, ht⟩ := List.isPrefixOf_iff_prefix.mp hp
    refine String.toList_injective ?_
    rw [String.toList_append, String.toList_ofList, ← ht, List.drop_left]
  · cases h

/-! ## One field -/

/-- A name that has a place in the encoding: a known one, or a custom one. -/
def isField (name : Key) : Bool := (fieldNameToTag name).isSome || (customSuffix name).isSome

/-- A field is decoded to what was encoded, and nothing behind it is taken. -/
theorem decodeField_encodeField (hn : isField name = true) (h : encodeField name value = .ok b) (rest : Bytes) :
    ∃ tag data, b = tag :: data ∧ decodeField tag (data ++ rest) = some (some (name, value), rest) := by
  unfold encodeField at h
  cases ht : fieldNameToTag name with
  | some tag =>
    obtain ⟨hc, hl, hc', hl', hback, hname⟩ := tag_marks _ (mem_fields_of_tag ht)
    dsimp only at hc hl hc' hl' hback hname
    rw [ht] at h
    dsimp only at h
    cases hv : valueLookup tag value with
    | some idx =>
      rw [hv] at h
      obtain rfl := Except.ok.inj h
      refine ⟨tag ||| lookupBit, [idx], rfl, ?_⟩
      unfold decodeField
      rw [if_neg hc', if_pos hl']
      simp only [List.cons_append, List.nil_append, hback, hname, valueFromLookup_of_valueLookup hv]
      rfl
    | none =>
      rw [hv] at h
      dsimp only at h
      split at h
      · cases h
      · next hlen =>
        obtain rfl := Except.ok.inj h
        refine ⟨tag, u16Bytes (keyLen value) ++ keyBytes value, rfl, ?_⟩
        unfold decodeField
        rw [if_neg hc, if_neg (by simp [hl]), keyLen, takeField_u16Bytes _ _ (Nat.le_of_not_lt hlen)]
        simp only [Option.bind_eq_bind, Option.bind_some, hname, Option.map_some, textOf_keyBytes]
        rfl
  | none =>
    rw [ht] at h
    dsimp only at h
    cases hs : customSuffix name with
    | none => simp [isField, ht, hs] at hn
    | some suffix =>
      rw [hs] at h
      dsimp only at h
      split at h
      · cases h
      next hsb =>
      split at h
      · cases h
      next hvb =>
      obtain rfl := Except.ok.inj h
      refine ⟨tagCustom, _, rfl, ?_⟩
      unfold decodeField
      rw [if_pos rfl]
      simp only [List.append_eq, List.append_assoc]
      rw [← List.append_assoc (u16Bytes _), takeField_u16Bytes _ _ (Nat.le_of_not_lt hsb)]
      simp only [Option.bind_eq_bind, Option.bind_some]
      rw [keyLen, ← List.append_assoc (u16Bytes _), takeField_u16Bytes _ _ (Nat.le_of_not_lt hvb)]
      simp only [Option.bind_some, textOf_keyBytes, append_customSuffix hs]
      rfl

/-! ## All of them -/

/-- The entries of an encoding, as they are decoded one after the other. -/
theorem decodeLoop_flatten {l : List (Sigma fun _ : Key => String)} {parts : List Bytes}
    (hn : ∀ e ∈ l, isField e.1 = true) (h : l.mapM (fun e => encodeField e.1 e.2) = .ok parts) :
    ∀ rounds, parts.flatten.length ≤ rounds → ∀ m : FMap String,
      decodeLoop rounds parts.flatten m = l.foldl (fun m e => m.insert e.1 e.2) m := by
  induction l generalizing parts with
  | nil =>
    obtain rfl := Except.ok.inj h
    intro rounds _ m
    cases rounds <;> rfl
  | cons e l ih =>
    rw [List.mapM_cons] at h
    cases hb : encodeField e.1 e.2 with
    | error err => rw [hb] at h; cases h
    | ok b =>
      rw [hb] at h
      cases hl : l.mapM (fun e => encodeField e.1 e.2) with
      | error err => rw [hl] at h; cases h
      | ok parts' =>
        rw [hl] at h
        obtain rfl := Except.ok.inj h
        intro rounds hr m
        obtain ⟨tag, data, rfl, hd⟩ := decodeField_encodeField (hn e (by simp)) hb parts'.flatten
        rw [List.flatten_cons, List.cons_append] at hr ⊢
        rw [List.length_cons, List.length_append] at hr
        obtain ⟨rounds, rfl⟩ : ∃ n, rounds = n + 1 := ⟨rounds - 1, by omega⟩
        rw [decodeLoop, hd, List.foldl_cons]
        exact ih (fun e he => hn e (by simp [he])) hl rounds (by omega) _

/-- The map that comes back has the fields that were given. -/
theorem decode_encode (hn : ∀ k ∈ m, isField k = true) (h : encodeMetadata m = .ok b) (k : Key) :
    (decodeMetadata b).lookup k = m.lookup k := by
  have hperm := List.mergeSort_perm m.entries fun a b => decide (keyBytes a.1 ≤ keyBytes b.1)
  unfold encodeMetadata at h
  dsimp only at h
  generalize m.entries.mergeSort (fun a b => decide (keyBytes a.1 ≤ keyBytes b.1)) = sorted at h hperm
  cases hp : sorted.mapM (fun e => encodeField e.1 e.2) with
  | error err => rw [hp] at h; cases h
  | ok parts =>
    rw [hp] at h
    obtain rfl := Except.ok.inj h
    have hnd : sorted.NodupKeys := (List.perm_nodupKeys hperm).mpr m.nodupKeys
    have hall : ∀ e ∈ sorted, isField e.1 = true := fun e he =>
      hn e.1 (AList.mem_keys.mpr (List.mem_map.mpr ⟨e, hperm.subset he, rfl⟩))
    rw [decodeMetadata, decodeLoop_flatten hall hp _ (Nat.le_refl _)]
    have hnone : (∅ : FMap String).lookup k = none := AList.lookup_empty k
    calc (FMap.extend ∅ ⟨sorted, hnd⟩).lookup k
      _ = (sorted.dlookup k).or ((∅ : FMap String).lookup k) := FMap.lookup_extend ∅ ⟨sorted, hnd⟩ k
      _ = sorted.dlookup k := by rw [hnone, Option.or_none]
      _ = m.lookup k := List.perm_dlookup k hnd hperm

/-! ## Attributes -/

theorem mapM_encodeField_ok (l : List (Sigma fun _ : Key => String)) :
    (∃ parts, l.mapM (fun e => encodeField e.1 e.2) = .ok parts) ↔ ∀ e ∈ l, ∃ b, encodeField e.1 e.2 = .ok b := by
  induction l with
  | nil => exact iff_of_true ⟨[], rfl⟩ (by simp)
  | cons e l ih =>
    rw [List.forall_mem_cons, ← ih, List.mapM_cons]
    cases encodeField e.1 e.2 with
    | error err => exact iff_of_false (by rintro ⟨_, h⟩; cases h) (by rintro ⟨⟨_, h⟩, -⟩; cases h)
    | ok b =>
      cases l.mapM (fun e => encodeField e.1 e.2) with
      | error err => exact iff_of_false (by rintro ⟨_, h⟩; cases h) (by rintro ⟨-, _, h⟩; cases h)
      | ok parts => exact iff_of_true ⟨b :: parts, rfl⟩ ⟨⟨b, rfl⟩, parts, rfl⟩

/-- A map has an encoding if each of its fields has one. -/
theorem encodes_iff (m : FMap String) :
    (∃ b, encodeMetadata m = .ok b) ↔ ∀ k v, m.lookup k = some v → ∃ b, encodeField k v = .ok b := by
  have hmem : ∀ e, e ∈ m.entries.mergeSort (fun a b => decide (keyBytes a.1 ≤ keyBytes b.1)) ↔ m.lookup e.1 = some e.2 :=
    fun e => (List.mergeSort_perm ..).mem_iff.trans AList.mem_lookup_iff.symm
  unfold encodeMetadata
  dsimp only
  generalize m.entries.mergeSort (fun a b => decide (keyBytes a.1 ≤ keyBytes b.1)) = sorted at hmem
  have hparts : (∃ parts, sorted.mapM (fun e => encodeField e.1 e.2) = .ok parts) ↔ ∀ e ∈ sorted, ∃ b, encodeField e.1 e.2 = .ok b :=
    mapM_encodeField_ok sorted
  constructor
  · rintro ⟨b, hb⟩ k v hv
    cases hp : sorted.mapM (fun e => encodeField e.1 e.2) with
    | error err => rw [hp] at hb; cases hb
    | ok parts => exact hparts.mp ⟨parts, hp⟩ ⟨k, v⟩ ((hmem _).mpr hv)
  · intro h
    obtain ⟨parts, hp⟩ := hparts.mpr fun e he => h e.1 e.2 ((hmem e).mp he)
    exact ⟨parts.flatten, by rw [hp]; rfl⟩

/-- What a store that keeps attributes was given comes back without the fields that are none. -/
theorem decode_attributes (hn : ∀ k ∈ m, isField k = true) (h : encodeMetadata m = .ok b) :
    ∃ b', encodeMetadata (attributesToMeta (metaToAttributes (decodeMetadata b))) = .ok b' ∧
      ∀ k, (decodeMetadata b').lookup k = if isAttribute k = true then m.lookup k else none := by
  have hback : ∀ k, (attributesToMeta (metaToAttributes (decodeMetadata b))).lookup k =
      if isAttribute k = true then m.lookup k else none := by
    intro k
    rw [attributesToMeta, metaToAttributes, FMap.lookup_filterKeys, FMap.lookup_filterKeys, decode_encode hn h]
    split <;> rfl
  obtain ⟨b', hb'⟩ := (encodes_iff _).mpr fun k v hv => by
    rw [hback] at hv
    split at hv
    · exact (encodes_iff m).mp ⟨b, h⟩ k v hv
    · cases hv
  refine ⟨b', hb', fun k => ?_⟩
  rw [decode_encode (fun k hk => ?_) hb', hback]
  obtain ⟨v, hv⟩ := Option.isSome_iff_exists.mp (AList.lookup_isSome.mpr hk)
  rw [hback] at hv
  split at hv
  · exact hn k (AList.lookup_isSome.mp (by rw [hv]; rfl))
  · cases hv

end ObjStr.Sharded.Tlv
