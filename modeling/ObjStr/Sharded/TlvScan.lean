/-
  ObjStr.Sharded.TlvScan — the decoder at its positions in the buffer, and what it makes of a buffer
  that is cut short (see `ObjStr.Sharded.Tlv`).

  `decodeAt` is the loop as it is written: a position, and reads at positions that panic past the end.

  - `decodeAt_eq`: no read is past the end of any buffer, and the map is `decodeMetadata`'s.
  - `lookup_of_prefix`: a prefix of an encoding decodes to some of the fields that were encoded.
  - `encodeField_ok_iff`: a field has an encoding unless one of its parts is longer than 65535 bytes.
-/

import ObjStr.Sharded.TlvRoundtrip

namespace ObjStr.Sharded.Tlv

open ObjStr.Lib ObjStr.Raw

variable {name : Key} {value : String} {b rest : Bytes}

/-! ## The loop at its positions -/

/-- A read past the end of the buffer, where the decoder panics. -/
structure OutOfBounds where
  pos : Nat
  deriving DecidableEq, Repr

/-- `data[pos]`. -/
def byteAt (data : Bytes) (pos : Nat) : Except OutOfBounds UInt8 :=
  match data[pos]? with
  | some b => .ok b
  | none => .error ⟨pos⟩

/-- `&data[start..stop]`. -/
def sliceAt (data : Bytes) (start stop : Nat) : Except OutOfBounds Bytes :=
  if start ≤ stop ∧ stop ≤ data.length then .ok ((data.drop start).take (stop - start)) else .error ⟨stop⟩

/-- `u16::from_le_bytes([data[pos], data[pos + 1]])`. -/
def u16At (data : Bytes) (pos : Nat) : Except OutOfBounds Nat := do
  let lo ← byteAt data pos
  let hi ← byteAt data (pos + 1)
  pure (lo.toNat + 256 * hi.toNat)

/-- A length and its bytes, with the position behind them; `none` is the loop's `break`. -/
def fieldAt (data : Bytes) (pos : Nat) : Except OutOfBounds (Option (Bytes × Nat)) :=
  if data.length < pos + 2 then pure none
  else do
    let len ← u16At data pos
    let pos := pos + 2
    if data.length < pos + len then pure none
    else do
      let s ← sliceAt data pos (pos + len)
      pure (some (s, pos + len))

/-- The loop's body; `none` is its `break`. -/
def decodeFieldAt (data : Bytes) (pos : Nat) (map : FMap String) : Except OutOfBounds (Option (Nat × FMap String)) := do
  let tagByte ← byteAt data pos
  let pos := pos + 1
  if tagByte = tagCustom then
    match ← fieldAt data pos with
    | none => pure none
    | some (suffix, pos) =>
      match ← fieldAt data pos with
      | none => pure none
      | some (value, pos) => pure (some (pos, map.insert (customPrefix ++ textOf suffix) (textOf value)))
  else if tagByte &&& lookupBit ≠ 0 then
    let tag := tagByte &&& 0x7F
    if data.length ≤ pos then pure none
    else do
      let idx ← byteAt data pos
      let pos := pos + 1
      match valueFromLookup tag idx with
      | none => pure (some (pos, map))
      | some value =>
        match tagToFieldName tag with
        | none => pure (some (pos, map))
        | some name => pure (some (pos, map.insert name value))
  else
    match ← fieldAt data pos with
    | none => pure none
    | some (value, pos) =>
      match tagToFieldName tagByte with
      | none => pure (some (pos, map))
      | some name => pure (some (pos, map.insert name (textOf value)))

/-! ## Every read is inside -/

theorem byteAt_of_lt {data : Bytes} {pos : Nat} (h : pos < data.length) : byteAt data pos = .ok data[pos] := by
  rw [byteAt, List.getElem?_eq_getElem h]

/-- A field is cut short, or it is there and the position behind it is in the buffer. -/
theorem fieldAt_cases (data : Bytes) (pos : Nat) :
    (fieldAt data pos = .ok none ∧ takeField (data.drop pos) = none) ∨
    ∃ s pos', pos < pos' ∧ pos' ≤ data.length ∧ fieldAt data pos = .ok (some (s, pos')) ∧
      takeField (data.drop pos) = some (s, data.drop pos') := by
  unfold fieldAt
  by_cases h2 : data.length < pos + 2
  · left
    refine ⟨by rw [if_pos h2]; rfl, ?_⟩
    have hl : (data.drop pos).length < 2 := by rw [List.length_drop]; omega
    unfold takeField
    split
    · next heq =>
      rw [heq] at hl
      simp at hl
    · rfl
  · rw [if_neg h2]
    have h0 : pos < data.length := by omega
    have h1 : pos + 1 < data.length := by omega
    have hdrop : data.drop pos = data[pos] :: data[pos + 1] :: data.drop (pos + 2) := by
      rw [List.drop_eq_getElem_cons h0, List.drop_eq_getElem_cons h1]
    rw [hdrop]
    unfold u16At
    rw [byteAt_of_lt h0, byteAt_of_lt h1]
    simp only [takeField, List.length_drop, bind, Except.bind, pure, Except.pure]
    generalize data[pos].toNat + 256 * data[pos + 1].toNat = len
    by_cases hlen : data.length < pos + 2 + len
    · left
      rw [if_pos hlen, if_neg (by omega)]
      exact ⟨rfl, rfl⟩
    · right
      refine ⟨(data.drop (pos + 2)).take len, pos + 2 + len, by omega, by omega, ?_, ?_⟩
      · rw [if_neg hlen, sliceAt, if_pos ⟨by omega, by omega⟩, Nat.add_sub_cancel_left]
      · rw [if_pos (by omega), List.drop_drop]

/-- What the loop's body does is what one field is, and it stays in the buffer. -/
theorem decodeFieldAt_cases {data : Bytes} {pos : Nat} (h : pos < data.length) (map : FMap String) :
    (decodeFieldAt data pos map = .ok none ∧ decodeField data[pos] (data.drop (pos + 1)) = none) ∨
    ∃ field pos', pos < pos' ∧ pos' ≤ data.length ∧
      decodeField data[pos] (data.drop (pos + 1)) = some (field, data.drop pos') ∧
      decodeFieldAt data pos map = .ok (some (pos', (field.map fun f => map.insert f.1 f.2).getD map)) := by
  unfold decodeFieldAt decodeField
  rw [byteAt_of_lt h]
  simp only [bind, Except.bind, pure, Except.pure]
  by_cases hc : data[pos] = tagCustom
  · simp only [if_pos hc]
    rcases fieldAt_cases data (pos + 1) with ⟨h1, h2⟩ | ⟨suffix, p1, hp1, hp1', h1, h2⟩
    · left
      simp only [h1, h2, Option.bind_none, and_self]
    · rcases fieldAt_cases data p1 with ⟨h3, h4⟩ | ⟨value, p2, hp2, hp2', h3, h4⟩
      · left
        simp only [h1, h2, h3, h4, Option.bind_some, Option.bind_none, and_self]
      · right
        refine ⟨some (customPrefix ++ textOf suffix, textOf value), p2, by omega, hp2', ?_, ?_⟩
        · simp only [h2, h4, Option.bind_some]
        · simp only [h1, h3, Option.map_some, Option.getD_some]
  · simp only [if_neg hc]
    by_cases hl : data[pos] &&& lookupBit ≠ 0
    · simp only [if_pos hl]
      by_cases hp : data.length ≤ pos + 1
      · left
        rw [List.drop_eq_nil_of_le hp]
        simp only [if_pos hp, and_self]
      · right
        have hp' : pos + 1 < data.length := by omega
        rw [if_neg hp, byteAt_of_lt hp', List.drop_eq_getElem_cons hp']
        refine ⟨_, pos + 2, by omega, by omega, rfl, ?_⟩
        dsimp only
        cases tagToFieldName (data[pos] &&& 0x7F) with
        | none => cases valueFromLookup (data[pos] &&& 0x7F) data[pos + 1] <;> rfl
        | some name => cases valueFromLookup (data[pos] &&& 0x7F) data[pos + 1] <;> rfl
    · simp only [if_neg hl]
      rcases fieldAt_cases data (pos + 1) with ⟨h1, h2⟩ | ⟨value, p1, hp1, hp1', h1, h2⟩
      · left
        simp only [h1, h2, Option.bind_none, and_self]
      · right
        refine ⟨(tagToFieldName data[pos]).map fun name => (name, textOf value), p1, by omega, hp1', ?_, ?_⟩
        · simp only [h2, Option.bind_some]
        · cases tagToFieldName data[pos] <;> simp only [h1, Option.map_some, Option.map_none, Option.getD_some, Option.getD_none]

/-- The body moves the position on. -/
theorem lt_of_decodeFieldAt {data : Bytes} {pos pos' : Nat} {map map' : FMap String} (h : pos < data.length)
    (hd : decodeFieldAt data pos map = .ok (some (pos', map'))) : pos < pos' := by
  rcases decodeFieldAt_cases h map with ⟨h1, -⟩ | ⟨field, p, hp, -, -, h1⟩
  · rw [h1] at hd
    cases hd
  · rw [h1] at hd
    cases hd
    exact hp

/-- `decode_metadata`'s loop from a position on. -/
def decodeAt (data : Bytes) (pos : Nat) (map : FMap String) : Except OutOfBounds (FMap String) :=
  if h : pos < data.length then
    match hd : decodeFieldAt data pos map with
    | .error e => .error e
    | .ok none => .ok map
    | .ok (some (pos', map')) =>
      have := lt_of_decodeFieldAt h hd
      decodeAt data pos' map'
  else .ok map
termination_by data.length - pos

theorem decodeAt_eq_loop (data : Bytes) (rounds pos : Nat) (map : FMap String) (hr : data.length - pos ≤ rounds) :
    decodeAt data pos map = .ok (decodeLoop rounds (data.drop pos) map) := by
  induction rounds generalizing pos map with
  | zero =>
    rw [decodeAt, dif_neg (by omega)]
    rfl
  | succ rounds ih =>
    rw [decodeAt]
    by_cases h : pos < data.length
    · rw [dif_pos h, List.drop_eq_getElem_cons h, decodeLoop]
      rcases decodeFieldAt_cases h map with ⟨h1, h2⟩ | ⟨field, p, hp, hp', h2, h1⟩
      · split <;> simp_all
      · rw [h2]
        split
        · next heq => rw [h1] at heq; cases heq
        · next heq => rw [h1] at heq; cases heq
        · next heq =>
          rw [h1] at heq
          cases heq
          exact ih p _ (by omega)
    · rw [dif_neg h, List.drop_eq_nil_of_le (by omega)]
      rfl

/-- No buffer makes the decoder read past its end. -/
theorem decodeAt_eq (data : Bytes) : decodeAt data 0 ∅ = .ok (decodeMetadata data) :=
  decodeAt_eq_loop data data.length 0 ∅ (by omega)

/-! ## A buffer that is cut short -/

theorem takeField_append {data v r : Bytes} (h : takeField data = some (v, r)) (s : Bytes) :
    takeField (data ++ s) = some (v, r ++ s) := by
  unfold takeField at h
  split at h
  · next lo hi t =>
    dsimp only at h
    simp only [List.cons_append, takeField]
    split at h
    · next hlen =>
      simp only [Option.some.injEq, Prod.mk.injEq] at h
      rw [if_pos (by rw [List.length_append]; omega), List.take_append_of_le_length hlen,
        List.drop_append_of_le_length hlen, h.1, h.2]
    · cases h
  · cases h

/-- A field that is decoded is decoded in front of anything. -/
theorem decodeField_append {tag : UInt8} {data r : Bytes} {field : Option (Key × String)}
    (h : decodeField tag data = some (field, r)) (s : Bytes) : decodeField tag (data ++ s) = some (field, r ++ s) := by
  unfold decodeField at h ⊢
  by_cases hc : tag = tagCustom
  · simp only [if_pos hc, Option.bind_eq_bind, Option.bind_eq_some_iff] at h ⊢
    obtain ⟨x, hx, y, hy, he⟩ := h
    refine ⟨_, takeField_append hx s, _, takeField_append hy s, ?_⟩
    cases he
    rfl
  · simp only [if_neg hc] at h ⊢
    by_cases hl : tag &&& lookupBit ≠ 0
    · simp only [if_pos hl] at h ⊢
      cases data with
      | nil => cases h
      | cons idx data =>
        cases h
        rfl
    · simp only [if_neg hl, Option.bind_eq_bind, Option.bind_eq_some_iff] at h ⊢
      obtain ⟨x, hx, he⟩ := h
      refine ⟨_, takeField_append hx s, ?_⟩
      cases he
      rfl

/-- A part of a field's encoding is no field. -/
theorem decodeField_of_cut {tag : UInt8} {data p s : Bytes} (hn : isField name = true)
    (h : encodeField name value = .ok (tag :: data)) (hp : p ++ s = data) (hs : s ≠ []) : decodeField tag p = none := by
  obtain ⟨tag', data', he, hd⟩ := decodeField_encodeField hn h []
  cases he
  cases hx : decodeField tag p with
  | none => rfl
  | some x =>
    have hwhole := @decodeField_append tag p x.2 x.1 hx s
    rw [hp, ← List.append_nil data, hd] at hwhole
    cases x with
    | mk field r =>
      simp only [Option.some.injEq, Prod.mk.injEq] at hwhole
      have hnil : s = [] := (List.append_eq_nil_iff.mp hwhole.2.symm).2
      exact absurd hnil hs

theorem decodeLoop_nil (rounds : Nat) (m : FMap String) : decodeLoop rounds [] m = m := by
  cases rounds <;> rfl

/-- The start of an encoding decodes to its first entries. -/
theorem decodeLoop_take {l : List (Sigma fun _ : Key => String)} {parts : List Bytes}
    (hn : ∀ e ∈ l, isField e.1 = true) (h : l.mapM (fun e => encodeField e.1 e.2) = .ok parts) :
    ∀ n rounds, (parts.flatten.take n).length ≤ rounds → ∀ m : FMap String,
      ∃ j, decodeLoop rounds (parts.flatten.take n) m = (l.take j).foldl (fun m e => m.insert e.1 e.2) m := by
  induction l generalizing parts with
  | nil =>
    obtain rfl := Except.ok.inj h
    intro n rounds _ m
    refine ⟨0, ?_⟩
    simp only [List.reverse_nil, List.flatten_nil, List.take_nil, List.foldl_nil, decodeLoop_nil]
  | cons e l ih =>
    rw [List.mapM_cons] at h
    cases hb : encodeField e.1 e.2 with
    | error err => rw [hb] at h; cases h
    | ok b =>
      rw [hb] at h
      cases hl : l.mapM (fun e => encodeField e.1 e.2) with
      | error err => rw [hl] at h; cases h
      | ok parts' =>
        rw [hl] at h
        obtain rfl := Except.ok.inj h
        intro n rounds hr m
        obtain ⟨tag, data, rfl, -⟩ := decodeField_encodeField (hn e (by simp)) hb []
        cases n with
        | zero => exact ⟨0, by simp only [List.take_zero, List.foldl_nil, decodeLoop_nil]⟩
        | succ n =>
          rw [List.flatten_cons, List.cons_append, List.take_succ_cons] at hr ⊢
          obtain ⟨rounds, rfl⟩ : ∃ k, rounds = k + 1 := ⟨rounds - 1, by simp only [List.length_cons] at hr; omega⟩
          simp only [List.length_cons, List.take_append, List.length_append] at hr
          rw [List.take_append, decodeLoop]
          by_cases hcut : data.length ≤ n
          · -- the whole entry is there
            obtain ⟨j, hj⟩ := ih (fun e he => hn e (by simp [he])) hl (n - data.length) rounds (by omega) (m.insert e.1 e.2)
            obtain ⟨tag', data', he, hd⟩ := decodeField_encodeField (hn e (by simp)) hb (parts'.flatten.take (n - data.length))
            cases he
            refine ⟨j + 1, ?_⟩
            rw [List.take_of_length_le hcut, hd, List.take_succ_cons, List.foldl_cons, ← hj]
            rfl
          · -- the cut is inside it
            have hnil : n - data.length = 0 := by omega
            have hd : decodeField tag (data.take n) = none :=
              decodeField_of_cut (hn e (by simp)) hb (List.take_append_drop n data)
                (by intro h0; exact hcut (List.drop_eq_nil_iff.mp h0))
            refine ⟨0, ?_⟩
            rw [hnil, List.take_zero, List.append_nil, hd, List.take_zero, List.foldl_nil]

/-- A prefix of an encoding decodes to some of the fields that were encoded, with their values. -/
theorem lookup_of_prefix {m : FMap String} (hn : ∀ k ∈ m, isField k = true) (h : encodeMetadata m = .ok b) (n : Nat)
    {k : Key} {v : String} (hk : (decodeMetadata (b.take n)).lookup k = some v) : m.lookup k = some v := by
  have hperm := List.mergeSort_perm m.entries fun a b => decide (keyBytes a.1 ≤ keyBytes b.1)
  unfold encodeMetadata at h
  dsimp only at h
  generalize m.entries.mergeSort (fun a b => decide (keyBytes a.1 ≤ keyBytes b.1)) = sorted at h hperm
  cases hp : sorted.mapM (fun e => encodeField e.1 e.2) with
  | error err => rw [hp] at h; cases h
  | ok parts =>
    rw [hp] at h
    obtain rfl := Except.ok.inj h
    have hnd : sorted.NodupKeys := (List.perm_nodupKeys hperm).mpr m.nodupKeys
    have hall : ∀ e ∈ sorted, isField e.1 = true := fun e he =>
      hn e.1 (AList.mem_keys.mpr (List.mem_map.mpr ⟨e, hperm.subset he, rfl⟩))
    obtain ⟨j, hj⟩ := decodeLoop_take hall hp n _ (Nat.le_refl _) ∅
    have hsub : (sorted.take j).NodupKeys := hnd.sublist (List.take_sublist j sorted)
    have hfold : (FMap.extend ∅ ⟨sorted.take j, hsub⟩).lookup k = some v := by
      rw [← hk, decodeMetadata, hj]
      rfl
    rw [FMap.lookup_extend, AList.lookup_empty, Option.or_none] at hfold
    have hmem : (⟨k, v⟩ : Sigma fun _ : Key => String) ∈ sorted.take j := (List.mem_dlookup_iff hsub).mp hfold
    exact AList.mem_lookup_iff.mpr (hperm.subset (List.mem_of_mem_take hmem))

/-! ## What has no encoding -/

/-- A raw value, or a suffix or value of a custom field, that is longer than its length field can say. -/
def TooLong (name : Key) (value : String) : Prop :=
  (∃ tag, fieldNameToTag name = some tag ∧ valueLookup tag value = none ∧ maxFieldLen < keyLen value) ∨
  fieldNameToTag name = none ∧ ∃ suffix, customSuffix name = some suffix ∧
    (maxFieldLen < keyLen (String.ofList suffix) ∨ maxFieldLen < keyLen value)

theorem encodeField_ok_iff (name : Key) (value : String) : (∃ b, encodeField name value = .ok b) ↔ ¬ TooLong name value := by
  unfold encodeField TooLong
  cases fieldNameToTag name with
  | some tag =>
    cases hv : valueLookup tag value with
    | some idx => simp [hv]
    | none =>
      by_cases hlen : maxFieldLen < keyLen value
      · simp [hv, hlen]
      · simp [hv, hlen]
  | none =>
    cases customSuffix name with
    | none => simp
    | some suffix =>
      have hs : (keyBytes (String.ofList suffix)).length = keyLen (String.ofList suffix) := rfl
      by_cases h1 : maxFieldLen < keyLen (String.ofList suffix)
      · simp [hs, h1]
      · by_cases h2 : maxFieldLen < keyLen value
        · simp [hs, h1, h2]
        · simp [hs, h1, h2]

/-- A map is refused if one of its fields is too long. -/
theorem refuses_iff (m : FMap String) :
    (∃ e, encodeMetadata m = .error e) ↔ ∃ k v, m.lookup k = some v ∧ TooLong k v := by
  have hok := encodes_iff m
  simp only [encodeField_ok_iff] at hok
  cases he : encodeMetadata m with
  | error e =>
    rw [he] at hok
    refine iff_of_true ⟨e, rfl⟩ ?_
    by_contra hno
    obtain ⟨b, hb⟩ := hok.mpr fun k v hv ht => hno ⟨k, v, hv, ht⟩
    cases hb
  | ok b =>
    rw [he] at hok
    refine iff_of_false ?_ ?_
    · intro ⟨e, h⟩
      cases h
    · intro ⟨k, v, hv, ht⟩
      exact hok.mp ⟨b, rfl⟩ k v hv ht

/-! ## The round trip -/

/-- A map of known and custom fields comes back from its encoding, and part of it from a prefix; a map is
    refused exactly when one of its fields is too long; and no buffer is read past its end. -/
theorem metadata_round_trips (m : FMap String) (hn : ∀ k ∈ m, isField k = true) :
    (∀ b, encodeMetadata m = .ok b → (∀ k, (decodeMetadata b).lookup k = m.lookup k) ∧
      ∀ n k v, (decodeMetadata (b.take n)).lookup k = some v → m.lookup k = some v) ∧
    ((∃ e, encodeMetadata m = .error e) ↔ ∃ k v, m.lookup k = some v ∧ TooLong k v) ∧
    ∀ data : Bytes, decodeAt data 0 ∅ = .ok (decodeMetadata data) := by
  refine ⟨?_, refuses_iff m, decodeAt_eq⟩
  intro b hb
  exact ⟨decode_encode hn hb, fun n k v hk => lookup_of_prefix hn hb n hk⟩

/-- `content-type` through its table, `etag` raw, and a custom field. -/
def Sample.fields : FMap String :=
  ((AList.singleton "content-type" "text/plain").insert "etag" "0af3").insert "x-amz-meta-a" "b"

theorem sample_round_trips : ∃ b, encodeMetadata Sample.fields = .ok b ∧
    (∀ k, (decodeMetadata b).lookup k = Sample.fields.lookup k) ∧
    ∀ data : Bytes, decodeAt data 0 ∅ = .ok (decodeMetadata data) := by
  have h := metadata_round_trips Sample.fields (by decide)
  have hfit : ∀ e ∈ Sample.fields.entries, (encodeField e.1 e.2).isOk = true := by decide +kernel
  obtain ⟨b, hb⟩ := (encodes_iff Sample.fields).mpr fun k v hv => by
    have hk := hfit ⟨k, v⟩ (AList.mem_lookup_iff.mp hv)
    cases he : encodeField k v with
    | error e => simp [he, Except.isOk, Except.toBool] at hk
    | ok b => exact ⟨b, rfl⟩
  exact ⟨b, hb, (h.1 b hb).1, h.2.2⟩

end ObjStr.Sharded.Tlv
