/-
  ObjStr.Sharded.Paths — the segments of a path: encoding keeps their number, and a delete marker
  has one more than its key, so that neither it nor its sidecar is the key itself. A path is kept by
  `Path::from` only if each of its characters is (`fromStr_eq_iff`).
-/

import ObjStr.Sharded.Basic

namespace ObjStr.Sharded

open ObjStr.Raw

namespace Path

/-! ## Encoding a segment -/

theorem hexDigit_ne_slash : ∀ n < 16, hexDigit n ≠ '/' := by decide

theorem slash_notMem_encodeByte (b : UInt8) : '/' ∉ encodeByte b := by
  have h1 : b.toNat < 256 := b.toNat_lt
  simp only [encodeByte, List.mem_cons, List.not_mem_nil, or_false, not_or]
  exact ⟨by decide, (hexDigit_ne_slash _ (by omega)).symm, (hexDigit_ne_slash _ (by omega)).symm⟩

theorem slash_notMem_encodeChar (c : Char) : '/' ∉ encodeChar c := by
  unfold encodeChar
  split
  · intro h
    obtain ⟨b, -, hb⟩ := List.mem_flatMap.mp h
    exact slash_notMem_encodeByte b hb
  · next h =>
    intro hm
    rw [List.mem_singleton] at hm
    subst hm
    exact h (by decide)

theorem slash_notMem_encodePart (part : List Char) : '/' ∉ encodePart part := by
  unfold encodePart
  split
  · decide
  · split
    · decide
    · intro h
      obtain ⟨c, -, hc⟩ := List.mem_flatMap.mp h
      exact slash_notMem_encodeChar c hc

theorem encodeChar_ne_nil (c : Char) : encodeChar c ≠ [] := by
  unfold encodeChar
  split
  · intro h
    obtain ⟨b, l, hl⟩ := List.exists_cons_of_ne_nil (@String.utf8EncodeChar_ne_nil c)
    rw [hl] at h
    simp [encodeByte] at h
  · simp

theorem encodePart_ne_nil {part : List Char} (h : part ≠ []) : encodePart part ≠ [] := by
  unfold encodePart
  split
  · simp
  · split
    · simp
    · obtain ⟨c, l, rfl⟩ := List.exists_cons_of_ne_nil h
      simp [encodeChar_ne_nil]

/-! ## Counting segments -/

theorem segments_fromStr (s : Key) : segments (fromStr s) = (segments s).map encodePart := by
  by_cases h : segments s = []
  · rw [fromStr, h]
    rfl
  · unfold segments at h ⊢
    rw [fromStr, String.toList_ofList]
    have hs : ∀ l ∈ (segments s).map encodePart, '/' ∉ l := by
      intro l hl
      obtain ⟨p, -, rfl⟩ := List.mem_map.mp hl
      exact slash_notMem_encodePart p
    rw [List.splitOn_intercalate '/' hs (by simpa [segments] using h)]
    refine List.filter_eq_self.mpr fun l hl => ?_
    obtain ⟨p, hp, rfl⟩ := List.mem_map.mp hl
    have hne : p ≠ [] := by simpa using (List.mem_filter.mp hp).2
    simpa using encodePart_ne_nil hne

/-- What is not empty among the pieces of a split. -/
theorem length_split_append (l b : List Char) :
    ((l.splitOn '/').tail.filter fun p => !p.isEmpty).length ≤
        (((l ++ b).splitOn '/').tail.filter fun p => !p.isEmpty).length ∧
      ((l.splitOn '/').filter fun p => !p.isEmpty).length ≤ (((l ++ b).splitOn '/').filter fun p => !p.isEmpty).length := by
  induction l with
  | nil => simp
  | cons c l ih =>
    obtain ⟨h1, t1, e1⟩ := List.exists_cons_of_ne_nil (List.splitOn_ne_nil '/' l)
    obtain ⟨h2, t2, e2⟩ := List.exists_cons_of_ne_nil (List.splitOn_ne_nil '/' (l ++ b))
    rw [List.cons_append, List.splitOn_cons_eq_if_modifyHead, List.splitOn_cons_eq_if_modifyHead]
    split
    · simpa using ih.2
    · rw [e1, e2] at ih ⊢
      simpa using ih.1

theorem segments_append_le (s t : Key) : (segments s).length ≤ (segments (s ++ t)).length := by
  unfold segments
  rw [String.toList_append]
  exact (length_split_append s.toList t.toList).2

theorem segments_deleteMarkerKey_eq (key : Key) : segments (deleteMarkerKey key) = "__deleted__".toList :: segments key := by
  have h1 : (deleteMarkerKey key).toList = "__deleted__".toList ++ '/' :: key.toList := by
    rw [deleteMarkerKey, String.toList_append]
    rfl
  unfold segments
  rw [h1, List.splitOn_append_cons_self_of_not_mem (by decide)]
  rfl

theorem segments_deleteMarkerKey (key : Key) : (segments (deleteMarkerKey key)).length = (segments key).length + 1 := by
  rw [segments_deleteMarkerKey_eq, List.length_cons]

/-! ## Counting characters -/

/-- The pieces of a split hold every character but the separators. -/
theorem flatten_splitOn (l : List Char) : (l.splitOn '/').flatten = l.filter (· != '/') := by
  induction l with
  | nil => rfl
  | cons c l ih =>
    obtain ⟨h, t, e⟩ := List.exists_cons_of_ne_nil (List.splitOn_ne_nil '/' l)
    rw [List.splitOn_cons_eq_if_modifyHead, List.filter_cons]
    by_cases hc : c = '/'
    · simp [hc, ih]
    · rw [e] at ih
      simp only [beq_iff_eq, hc, if_false, e, List.modifyHead_cons, List.flatten_cons, List.cons_append, bne_iff_ne,
        ne_eq, not_false_eq_true, if_true]
      rw [← ih, List.flatten_cons]

theorem flatten_segments (s : Key) : (segments s).flatten = s.toList.filter (· != '/') := by
  rw [← flatten_splitOn, segments]
  induction s.toList.splitOn '/' with
  | nil => rfl
  | cons p ps ih =>
    rw [List.filter_cons]
    cases p with
    | nil => simpa using ih
    | cons c p => simpa using ih

theorem length_encodeChar (c : Char) : 1 ≤ (encodeChar c).length :=
  List.length_pos_iff.mpr (encodeChar_ne_nil c)

theorem length_le_flatMap_encodeChar (l : List Char) : l.length ≤ (l.flatMap encodeChar).length := by
  induction l with
  | nil => simp
  | cons c l ih =>
    have := length_encodeChar c
    simp only [List.length_cons, List.flatMap_cons, List.length_append]
    omega

theorem length_le_encodePart (part : List Char) : part.length ≤ (encodePart part).length := by
  unfold encodePart
  split
  · next h => simp [h]
  · split
    · next h => simp [h]
    · exact length_le_flatMap_encodeChar part

theorem length_flatten_map_encodePart (ps : List (List Char)) :
    ps.flatten.length ≤ (ps.map encodePart).flatten.length := by
  induction ps with
  | nil => simp
  | cons p ps ih =>
    have := length_le_encodePart p
    simp only [List.flatten_cons, List.length_append, List.map_cons]
    omega

/-! ## Sidecar names -/

/-- What is put behind a path without a separator goes to its last piece. -/
theorem splitOn_append (l : List Char) {b : List Char} (hb : '/' ∉ b) :
    ∃ init last, l.splitOn '/' = init ++ [last] ∧ (l ++ b).splitOn '/' = init ++ [last ++ b] := by
  induction l with
  | nil => exact ⟨[], [], rfl, by rw [List.nil_append, List.splitOn_eq_singleton hb]; rfl⟩
  | cons c l ih =>
    obtain ⟨init, last, h1, h2⟩ := ih
    rw [List.cons_append, List.splitOn_cons_eq_if_modifyHead, List.splitOn_cons_eq_if_modifyHead, h1, h2]
    split
    · exact ⟨[] :: init, last, rfl, rfl⟩
    · cases init with
      | nil => exact ⟨[], c :: last, rfl, rfl⟩
      | cons p init => exact ⟨(c :: p) :: init, last, rfl, rfl⟩

/-- The segments of a sidecar's name before it is encoded. -/
theorem segments_append_metaSuffix (key : Key) :
    ∃ init last, segments key = init ++ (if last = [] then [] else [last]) ∧
      segments (key ++ metaSuffix) = init ++ [last ++ metaSuffix.toList] := by
  obtain ⟨init, last, h1, h2⟩ := splitOn_append key.toList (b := metaSuffix.toList) (by decide)
  refine ⟨init.filter fun p => !p.isEmpty, last, ?_, ?_⟩
  · rw [segments, h1, List.filter_append]
    cases last <;> rfl
  · have hne : (last ++ metaSuffix.toList).isEmpty = false := by
      cases last with
      | nil => rfl
      | cons c l => rfl
    rw [segments, String.toList_append, h2, List.filter_append]
    simp [hne]

theorem suffix_intercalate (sep : List Char) (ps : List (List Char)) (p : List Char) :
    p <:+ sep.intercalate (ps ++ [p]) := by
  induction ps with
  | nil => simp
  | cons q ps ih =>
    rw [List.cons_append, List.intercalate_cons_of_ne_nil (by simp)]
    exact ih.trans (List.suffix_append _ _)

theorem encodePart_append_metaSuffix (p : List Char) :
    metaSuffix.toList <:+ encodePart (p ++ metaSuffix.toList) := by
  have hlen : 9 ≤ (p ++ metaSuffix.toList).length := by
    have h9 : metaSuffix.toList.length = 9 := by decide
    rw [List.length_append]
    omega
  unfold encodePart
  split
  · next h => simp [h] at hlen
  · split
    · next h => simp [h] at hlen
    · rw [List.flatMap_append]
      have h1 : metaSuffix.toList.flatMap encodeChar = metaSuffix.toList := by decide
      rw [h1]
      exact List.suffix_append _ _

theorem length_encodePart_append_metaSuffix (p : List Char) :
    (encodePart (p ++ metaSuffix.toList)).length ≤ (encodePart p).length + 9 := by
  have hlen : 9 ≤ (p ++ metaSuffix.toList).length := by
    have h9 : metaSuffix.toList.length = 9 := by decide
    rw [List.length_append]
    omega
  have henc : (metaSuffix.toList.flatMap encodeChar).length = 9 := by decide
  rw [encodePart, if_neg (fun h => by simp [h] at hlen), if_neg (fun h => by simp [h] at hlen), List.flatMap_append,
    List.length_append, henc]
  have hp : (p.flatMap encodeChar).length ≤ (encodePart p).length := by
    unfold encodePart
    split
    · next h => rw [h]; decide
    · split
      · next h => rw [h]; decide
      · exact Nat.le_refl _
  omega

/-! ## Paths that encoding keeps -/

/-- A character that `PathPart::from` keeps. -/
def keeps (c : Char) : Bool := !(c.toNat < 0x20 || 0x7F ≤ c.toNat || invalid.contains c.toNat)

/-- What `Path::parse` takes, without slashes around it: no empty segment, none that is `.` or `..`, no
    control character. -/
def IsPath (s : Key) : Prop :=
  s = "" ∨ ∀ part ∈ s.toList.splitOn '/', part ≠ [] ∧ part ≠ ['.'] ∧ part ≠ ['.', '.'] ∧
    ∀ c ∈ part, 0x20 ≤ c.toNat ∧ c.toNat ≠ 0x7F

/-- The same, computed. -/
def isPath (s : Key) : Bool :=
  s == "" || (s.toList.splitOn '/').all fun part => part != [] && part != ['.'] && part != ['.', '.'] &&
    part.all fun c => 0x20 ≤ c.toNat && c.toNat != 0x7F

theorem isPath_iff (s : Key) : isPath s = true ↔ IsPath s := by
  simp [isPath, IsPath, and_assoc]

/-- `Path::parse`: the text without a slash in front and one behind, if it is a path then. -/
def parse (s : Key) : Option Key :=
  let stripped := if s.toList.head? = some '/' then s.toList.tail else s.toList
  if stripped = [] then some ""
  else
    let stripped := if stripped.getLast? = some '/' then stripped.dropLast else stripped
    if stripped ≠ [] ∧ isPath (String.ofList stripped) = true then some (String.ofList stripped) else none

def prefixMatches (path pre : Key) : Bool :=
  pre.toList.isPrefixOf path.toList &&
    (let rest := path.toList.drop pre.toList.length
     rest.isEmpty || pre.toList.isEmpty || rest.head? == some '/')

theorem encodeChar_of_keeps {c : Char} (h : keeps c = true) : encodeChar c = [c] := by
  unfold encodeChar
  rw [if_neg]
  simpa [keeps] using h

theorem two_le_length_encodeChar {c : Char} (h : keeps c = false) : 2 ≤ (encodeChar c).length := by
  unfold encodeChar
  rw [keeps, Bool.not_eq_false'] at h
  rw [if_pos h]
  obtain ⟨b, l, hl⟩ := List.exists_cons_of_ne_nil (@String.utf8EncodeChar_ne_nil c)
  rw [hl]
  simp [encodeByte]

theorem flatMap_encodeChar_eq_iff (l : List Char) : l.flatMap encodeChar = l ↔ ∀ c ∈ l, keeps c = true := by
  induction l with
  | nil => simp
  | cons c l ih =>
    rw [List.flatMap_cons]
    cases hc : keeps c with
    | true => simp [encodeChar_of_keeps hc, ih, hc]
    | false =>
      have h2 := two_le_length_encodeChar hc
      have h3 := length_le_flatMap_encodeChar l
      refine iff_of_false (fun h => ?_) (by simp [hc])
      have h4 := congrArg List.length h
      rw [List.length_append, List.length_cons] at h4
      omega

theorem encodePart_eq_iff {part : List Char} (h1 : part ≠ ['.']) (h2 : part ≠ ['.', '.']) :
    encodePart part = part ↔ ∀ c ∈ part, keeps c = true := by
  rw [encodePart, if_neg h1, if_neg h2]
  exact flatMap_encodeChar_eq_iff part

/-- The segments of a path are its pieces, and put together again they are the path. -/
theorem IsPath.segments {s : Key} (h : IsPath s) :
    (∀ part ∈ segments s, part ≠ ['.'] ∧ part ≠ ['.', '.']) ∧ ['/'].intercalate (Path.segments s) = s.toList := by
  rcases h with rfl | h
  · exact ⟨by decide, by decide⟩
  · have hall : Path.segments s = s.toList.splitOn '/' := by
      refine List.filter_eq_self.mpr fun part hpart => ?_
      simpa using (h part hpart).1
    rw [hall]
    exact ⟨fun part hpart => ⟨(h part hpart).2.1, (h part hpart).2.2.1⟩, List.intercalate_splitOn '/'⟩

/-- Encoding a path keeps it only if it keeps each of its characters. -/
theorem fromStr_eq_iff {s : Key} (h : IsPath s) : fromStr s = s ↔ ∀ c ∈ s.toList, c = '/' ∨ keeps c = true := by
  obtain ⟨hparts, hjoin⟩ := h.segments
  have hchars : (∀ c ∈ s.toList, c = '/' ∨ keeps c = true) ↔ ∀ part ∈ Path.segments s, ∀ c ∈ part, keeps c = true := by
    have hflat := flatten_segments s
    constructor
    · intro hk part hpart c hc
      have hmem : c ∈ s.toList.filter (· != '/') := hflat ▸ List.mem_flatten.mpr ⟨part, hpart, hc⟩
      obtain ⟨h1, h2⟩ := List.mem_filter.mp hmem
      exact (hk c h1).resolve_left (by simpa using h2)
    · intro hk c hc
      by_cases hs : c = '/'
      · exact .inl hs
      · have hmem : c ∈ (Path.segments s).flatten := hflat ▸ List.mem_filter.mpr ⟨hc, by simpa using hs⟩
        obtain ⟨part, hpart, hc'⟩ := List.mem_flatten.mp hmem
        exact .inr (hk part hpart c hc')
  rw [hchars]
  have hpart : ∀ part ∈ Path.segments s, encodePart part = part ↔ ∀ c ∈ part, keeps c = true := fun part hp =>
    encodePart_eq_iff (hparts part hp).1 (hparts part hp).2
  constructor
  · intro hs part hp
    have h1 := segments_fromStr s
    rw [hs] at h1
    have h2 : ∀ q ∈ Path.segments s, encodePart q = q := by
      have h3 : (Path.segments s).map encodePart = (Path.segments s).map id := by rw [List.map_id]; exact h1.symm
      exact List.map_inj_left.mp h3
    exact (hpart part hp).mp (h2 part hp)
  · intro hk
    have h1 : (Path.segments s).map encodePart = Path.segments s := by
      conv_rhs => rw [← List.map_id (Path.segments s)]
      exact List.map_congr_left fun part hp => (hpart part hp).mpr (hk part hp)
    rw [fromStr, h1, hjoin, String.ofList_toList]

/-- The path of a marker is its key only for a path that is kept, and has a segment. -/
theorem fromStr_deleteMarkerKey_eq_iff (p : Key) : fromStr (deleteMarkerKey p) = deleteMarkerKey p ↔ p ≠ "" ∧ fromStr p = p := by
  have hseg := segments_deleteMarkerKey_eq p
  have henc : encodePart "__deleted__".toList = "__deleted__".toList := by decide
  by_cases hp : segments p = []
  · have h1 : fromStr (deleteMarkerKey p) = "__deleted__" := by
      rw [fromStr, hseg, hp]
      decide
    have h2 : fromStr p = "" := by
      rw [fromStr, hp]
      rfl
    rw [h1, h2]
    refine iff_of_false (fun h => ?_) (by simp [eq_comm])
    have h3 := congrArg (fun k => k.toList.length) h
    simp only [deleteMarkerKey, String.toList_append, List.length_append] at h3
    have h4 : "__deleted__".toList.length = 11 := by decide
    have h5 : deleteMarkerPrefix.toList.length = 12 := by decide
    omega
  · have h1 : fromStr (deleteMarkerKey p) = deleteMarkerKey (fromStr p) := by
      refine String.toList_injective ?_
      rw [fromStr, hseg, List.map_cons, henc, List.intercalate_cons_of_ne_nil (by simpa using hp), String.toList_ofList,
        deleteMarkerKey, String.toList_append, fromStr, String.toList_ofList]
      have hpre : deleteMarkerPrefix.toList = "__deleted__".toList ++ ['/'] := by decide
      simp only [hpre, String.toList_ofList]
      rfl
    have hne : p ≠ "" := by
      rintro rfl
      exact hp rfl
    rw [h1]
    constructor
    · intro h
      refine ⟨hne, String.toList_injective ?_⟩
      have h2 := congrArg String.toList h
      rw [deleteMarkerKey, deleteMarkerKey, String.toList_append, String.toList_append] at h2
      exact List.append_cancel_left h2
    · rintro ⟨-, h⟩
      rw [h]

end Path

/-! ## Markers and sidecars are other keys -/

theorem marker_ne (key : Key) : Path.fromStr (deleteMarkerKey key) ≠ key := by
  intro h
  have h1 := congrArg (fun k => (Path.segments k).length) h
  simp only [Path.segments_fromStr, List.length_map, Path.segments_deleteMarkerKey] at h1
  omega

theorem marker_sidecar_ne (key : Key) : metaSidecarPath (Path.fromStr (deleteMarkerKey key)) ≠ key := by
  intro h
  have h1 := congrArg (fun k => (Path.segments k).length) h
  simp only [metaSidecarPath, Path.segments_fromStr, List.length_map] at h1
  have h2 := Path.segments_append_le (Path.fromStr (deleteMarkerKey key)) metaSuffix
  simp only [Path.segments_fromStr, List.length_map, Path.segments_deleteMarkerKey] at h2
  omega

/-- The sidecar of an object is another object: its name has more characters besides the slashes. -/
theorem sidecar_ne (key : Key) : metaSidecarPath key ≠ key := by
  intro h
  have h1 := congrArg (fun k => (Path.segments k).flatten.length) h
  simp only [metaSidecarPath, Path.segments_fromStr] at h1
  have h2 := Path.length_flatten_map_encodePart (Path.segments (key ++ metaSuffix))
  rw [Path.flatten_segments (key ++ metaSuffix), String.toList_append, List.filter_append, List.length_append] at h2
  rw [Path.flatten_segments key] at h1
  have h3 : (metaSuffix.toList.filter (· != '/')).length = 9 := by decide
  omega

/-- Nor is it the key that the path was made of. -/
theorem sidecar_fromStr_ne (key : Key) : metaSidecarPath (Path.fromStr key) ≠ key := by
  intro h
  have h1 := congrArg (fun k => (Path.segments k).flatten.length) h
  simp only [metaSidecarPath, Path.segments_fromStr] at h1
  have h2 := Path.length_flatten_map_encodePart (Path.segments (Path.fromStr key ++ metaSuffix))
  have h3 := Path.length_flatten_map_encodePart (Path.segments key)
  rw [Path.flatten_segments (Path.fromStr key ++ metaSuffix), String.toList_append, List.filter_append, List.length_append,
    ← Path.flatten_segments, Path.segments_fromStr] at h2
  have h4 : (metaSuffix.toList.filter (· != '/')).length = 9 := by decide
  omega

/-- The sidecar of an object has at most nine characters more than its key, encoded once. -/
theorem length_sidecar_le (key : Key) :
    (Path.segments (metaSidecarPath key)).flatten.length ≤ ((Path.segments key).map Path.encodePart).flatten.length + 9 := by
  obtain ⟨init, last, h1, h2⟩ := Path.segments_append_metaSuffix key
  have h3 := Path.length_encodePart_append_metaSuffix last
  rw [metaSidecarPath, Path.segments_fromStr, h1, h2, List.map_append, List.map_append, List.flatten_append,
    List.flatten_append, List.length_append, List.length_append]
  by_cases hl : last = []
  · subst hl
    have h4 : ((Path.encodePart []).length = 0) := rfl
    simp only [List.map_cons, List.map_nil, List.flatten_cons, List.flatten_nil, List.append_nil, if_true, List.length_nil]
    omega
  · simp only [List.map_cons, List.map_nil, List.flatten_cons, List.flatten_nil, List.append_nil, if_neg hl]
    omega

theorem length_marker (key : Key) :
    (Path.segments (Path.fromStr (deleteMarkerKey key))).flatten.length =
      11 + ((Path.segments key).map Path.encodePart).flatten.length := by
  rw [Path.segments_fromStr, Path.segments_deleteMarkerKey_eq, List.map_cons, List.flatten_cons, List.length_append]
  rfl

/-- A marker is no sidecar of its key, and has another sidecar. -/
theorem marker_ne_sidecar (key : Key) : Path.fromStr (deleteMarkerKey key) ≠ metaSidecarPath key := by
  intro h
  have h1 := congrArg (fun k => (Path.segments k).flatten.length) h
  have h2 := length_sidecar_le key
  have h3 := length_marker key
  omega

theorem marker_sidecar_ne_sidecar (key : Key) : metaSidecarPath (Path.fromStr (deleteMarkerKey key)) ≠ metaSidecarPath key := by
  intro h
  have h1 := congrArg (fun k => (Path.segments k).flatten.length) h
  have h2 := length_sidecar_le key
  have h3 := length_marker key
  have h4 := Path.length_flatten_map_encodePart (Path.segments (Path.fromStr (deleteMarkerKey key) ++ metaSuffix))
  rw [Path.flatten_segments (_ ++ metaSuffix), String.toList_append, List.filter_append, List.length_append,
    ← Path.flatten_segments, ← Path.segments_fromStr, ← metaSidecarPath] at h4
  omega

theorem isSidecar_metaSidecarPath (key : Key) : isSidecar (metaSidecarPath key) = true := by
  obtain ⟨init, last, -, hseg⟩ := Path.segments_append_metaSuffix key
  rw [isSidecar, List.isSuffixOf_iff_suffix, metaSidecarPath, Path.fromStr, String.toList_ofList, hseg, List.map_append]
  exact (Path.encodePart_append_metaSuffix last).trans (Path.suffix_intercalate _ _ _)

end ObjStr.Sharded
