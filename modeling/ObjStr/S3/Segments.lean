/-
  ObjStr.S3.Segments — paths as lists of segments, and what a prefix of a path's text is.

  The text of a path is its segments with slashes between them (`joinParts`), so paths are the same if their
  segments are. A path is under another one if it has its segments first (`Under`). A path whose text has the text
  of another one first need not be: the last segment may go on (`prefix_text`).
-/

import ObjStr.S3.Keys

namespace ObjStr.S3

open ObjStr.Raw ObjStr.Sharded
open ObjStr.Sharded.Path (segments)

/-! ## Texts -/

/-- What may stand between two slashes. -/
def IsName (c : List Char) : Prop := c ≠ [] ∧ '/' ∉ c

def joinParts (parts : List (List Char)) : Key := String.ofList (['/'].intercalate parts)

def tailText (parts : List (List Char)) : List Char := parts.flatMap fun c => '/' :: c

theorem tailText_cons (c : List Char) (parts : List (List Char)) : tailText (c :: parts) = '/' :: (c ++ tailText parts) :=
  List.flatMap_cons

theorem intercalate_cons (c : List Char) (parts : List (List Char)) : ['/'].intercalate (c :: parts) = c ++ tailText parts := by
  induction parts generalizing c with
  | nil => simp [tailText]
  | cons d parts ih => rw [List.intercalate_cons_of_ne_nil (List.cons_ne_nil _ _), ih, tailText_cons, List.append_assoc]; rfl

theorem intercalate_append {l : List (List Char)} (h : l ≠ []) (parts : List (List Char)) :
    ['/'].intercalate (l ++ parts) = ['/'].intercalate l ++ tailText parts := by
  obtain ⟨c, l, rfl⟩ := List.exists_cons_of_ne_nil h
  rw [List.cons_append, intercalate_cons, intercalate_cons, tailText, List.flatMap_append, List.append_assoc]
  rfl

theorem isName_of_mem_segments {k : Key} {c : List Char} (h : c ∈ segments k) : IsName c := by
  obtain ⟨h1, h2⟩ := List.mem_filter.mp h
  refine ⟨by simpa using h2, fun hslash => ?_⟩
  have h3 : '/' ∈ (segments k).flatten := List.mem_flatten.mpr ⟨c, h, hslash⟩
  rw [Path.flatten_segments] at h3
  simpa using (List.mem_filter.mp h3).2

theorem segments_joinParts {parts : List (List Char)} (h : ∀ c ∈ parts, IsName c) : segments (joinParts parts) = parts := by
  by_cases hnil : parts = []
  · rw [hnil]
    rfl
  · rw [segments, joinParts, String.toList_ofList, List.splitOn_intercalate '/' (fun c hc => (h c hc).2) hnil]
    exact List.filter_eq_self.mpr fun c hc => by simpa using (h c hc).1

theorem joinParts_segments {k : Key} (h : Path.IsPath k) : joinParts (segments k) = k := by
  rw [joinParts, h.segments.2, String.ofList_toList]

/-- Paths with the same segments are the same. -/
theorem segments_injective {k k' : Key} (h : Path.IsPath k) (h' : Path.IsPath k') (heq : segments k = segments k') : k = k' := by
  rw [← joinParts_segments h, heq, joinParts_segments h']

theorem segments_eq_nil {k : Key} (h : Path.IsPath k) : segments k = [] ↔ k = "" := by
  constructor
  · intro hs
    exact segments_injective h (.inl rfl) hs
  · rintro rfl
    rfl

theorem toList_of_segments {k : Key} (h : Path.IsPath k) {l r : List (List Char)} (hs : segments k = l ++ r) (hl : l ≠ []) :
    k.toList = ['/'].intercalate l ++ tailText r := by
  rw [← h.segments.2, hs, intercalate_append hl]

theorem isPart_of_mem_segments {k : Key} (h : Path.IsPath k) {c : List Char} (hc : c ∈ segments k) : IsPart c := by
  rcases h with rfl | h
  · cases hc
  · exact h c (List.mem_filter.mp hc).1

theorem isPath_joinParts {parts : List (List Char)} (h : ∀ c ∈ parts, IsPart c ∧ '/' ∉ c) : Path.IsPath (joinParts parts) := by
  by_cases hnil : parts = []
  · rw [hnil]
    exact .inl rfl
  · right
    rw [joinParts, String.toList_ofList, List.splitOn_intercalate '/' (fun c hc => (h c hc).2) hnil]
    exact fun c hc => (h c hc).1

theorem fromStr_eq_joinParts (s : Key) : Path.fromStr s = joinParts ((segments s).map Path.encodePart) := rfl

/-- A path is kept when it is encoded if each of its segments is. -/
theorem fromStr_eq_iff_parts {k : Key} (h : Path.IsPath k) : Path.fromStr k = k ↔ ∀ c ∈ segments k, Path.encodePart c = c := by
  have hmap : (∀ c ∈ segments k, Path.encodePart c = c) ↔ (segments k).map Path.encodePart = segments k :=
    ⟨fun hall => (List.map_congr_left hall).trans (List.map_id _), fun heq c hc =>
      List.map_inj_left.mp (heq.trans (List.map_id _).symm) c hc⟩
  rw [hmap]
  constructor
  · intro heq
    rw [← Path.segments_fromStr, heq]
  · intro heq
    rw [fromStr_eq_joinParts, heq, joinParts_segments h]

/-! ## Encoded segments -/

/-- A segment that encoding changes has a percent sign then, and is longer. -/
theorem encodePart_cases (c : List Char) :
    Path.encodePart c = c ∧ '%' ∉ c ∨ '%' ∈ Path.encodePart c ∧ c.length < (Path.encodePart c).length := by
  by_cases h1 : c = ['.']
  · rw [h1]
    exact .inr (by decide)
  by_cases h2 : c = ['.', '.']
  · rw [h2]
    exact .inr (by decide)
  by_cases hall : ∀ ch ∈ c, Path.keeps ch = true
  · exact .inl ⟨(Path.encodePart_eq_iff h1 h2).mpr hall, fun hp => absurd (hall '%' hp) (by decide)⟩
  · right
    push Not at hall
    obtain ⟨ch, hch, hk⟩ := hall
    obtain ⟨l, l', rfl⟩ := List.append_of_mem hch
    have hk : Path.keeps ch = false := Bool.eq_false_iff.mpr hk
    have hpercent : '%' ∈ Path.encodeChar ch := by
      unfold Path.encodeChar
      rw [Path.keeps, Bool.not_eq_false'] at hk
      rw [if_pos hk]
      obtain ⟨b, t, hb⟩ := List.exists_cons_of_ne_nil (@String.utf8EncodeChar_ne_nil ch)
      rw [hb]
      simp [Path.encodeByte]
    have htwo := Path.two_le_length_encodeChar hk
    have hl := Path.length_le_flatMap_encodeChar l
    have hl' := Path.length_le_flatMap_encodeChar l'
    rw [Path.encodePart, if_neg h1, if_neg h2]
    refine ⟨by simp [hpercent], ?_⟩
    simp only [List.flatMap_append, List.flatMap_cons, List.length_append, List.length_cons]
    omega

theorem encodePart_encodePart {c : List Char} (h : Path.encodePart (Path.encodePart c) = Path.encodePart c) : Path.encodePart c = c := by
  rcases encodePart_cases c with ⟨h1, -⟩ | ⟨hp, -⟩
  · exact h1
  · rcases encodePart_cases (Path.encodePart c) with ⟨-, hn⟩ | ⟨-, hlt⟩
    · exact absurd hp hn
    · rw [h] at hlt
      exact absurd hlt (Nat.lt_irrefl _)

/-- A path that encoding changes has more characters then, and is changed again. -/
theorem fromStr_ne {k : Key} (hk : Path.IsPath k) (h : Path.fromStr k ≠ k) :
    (segments k).flatten.length < (segments (Path.fromStr k)).flatten.length ∧ Path.fromStr (Path.fromStr k) ≠ Path.fromStr k := by
  have hne : ¬ ∀ c ∈ segments k, Path.encodePart c = c := fun hall => h ((fromStr_eq_iff_parts hk).mpr hall)
  push Not at hne
  obtain ⟨c, hc, hchange⟩ := hne
  obtain ⟨l, l', hl⟩ := List.append_of_mem hc
  have hlt : c.length < (Path.encodePart c).length := ((encodePart_cases c).resolve_left fun h1 => hchange h1.1).2
  constructor
  · have h1 := Path.length_flatten_map_encodePart l
    have h2 := Path.length_flatten_map_encodePart l'
    rw [Path.segments_fromStr, hl]
    simp only [List.map_append, List.map_cons, List.flatten_append, List.flatten_cons, List.length_append]
    omega
  · intro heq
    have hall := (fromStr_eq_iff_parts (isPath_fromStr k)).mp heq
    rw [Path.segments_fromStr] at hall
    exact hchange (encodePart_encodePart (hall _ (List.mem_map_of_mem hc)))

/-- The first segment of a delete marker, which is not the only one. -/
theorem isDeleteMarker_iff {k : Key} (hk : Path.IsPath k) :
    isDeleteMarker k = true ↔ ∃ x r, segments k = "__deleted__".toList :: x :: r := by
  have hpre : deleteMarkerPrefix.toList = "__deleted__".toList ++ ['/'] := by decide
  unfold isDeleteMarker
  rw [List.isPrefixOf_iff_prefix]
  constructor
  · rintro ⟨t, ht⟩
    have hmark : k = deleteMarkerKey (String.ofList t) :=
      String.toList_injective (by rw [deleteMarkerKey, String.toList_append, String.toList_ofList, ht])
    rw [hmark, Path.segments_deleteMarkerKey_eq]
    cases hsegs : segments (String.ofList t) with
    | cons x r => exact ⟨x, r, rfl⟩
    | nil =>
      -- the path would end with the slash
      have h1 := hk.segments.2
      rw [hmark, Path.segments_deleteMarkerKey_eq, hsegs, ← hmark, ← ht, hpre] at h1
      have h2 := congrArg List.length h1
      simp at h2
  · rintro ⟨x, r, hs⟩
    refine ⟨x ++ tailText r, ?_⟩
    rw [← hk.segments.2, hs, intercalate_cons, tailText_cons, hpre, List.append_assoc]
    rfl

theorem isDeleteMarker_fromStr {k : Key} (hk : Path.IsPath k) : isDeleteMarker (Path.fromStr k) = isDeleteMarker k := by
  rw [Bool.eq_iff_iff, isDeleteMarker_iff (isPath_fromStr k), isDeleteMarker_iff hk, Path.segments_fromStr]
  constructor
  · rintro ⟨x, r, h⟩
    obtain ⟨c, l, hs, hc, hl⟩ := List.map_eq_cons_iff.mp h
    obtain ⟨y, l, rfl, -, -⟩ := List.map_eq_cons_iff.mp hl
    have hsame : c = "__deleted__".toList := by
      rcases encodePart_cases c with ⟨h1, -⟩ | ⟨hp, -⟩
      · rw [← hc, h1]
      · rw [hc] at hp
        exact absurd hp (by decide)
    exact ⟨y, l, by rw [hs, hsame]⟩
  · rintro ⟨x, r, h⟩
    exact ⟨Path.encodePart x, r.map Path.encodePart, by rw [h]; rfl⟩

/-! ## Under a path -/

def Under (p k : Key) : Prop := segments p <+: segments k

instance : DecidableRel Under := fun p k => inferInstanceAs (Decidable (segments p <+: segments k))

theorem Under.refl (k : Key) : Under k k := List.prefix_rfl

theorem Under.trans {p q k : Key} (h : Under p q) (h' : Under q k) : Under p k := List.IsPrefix.trans h h'

/-- The text of a path under another one. -/
theorem toList_under {p k : Key} (hp : Path.IsPath p) (hk : Path.IsPath k) {r : List (List Char)} (h : segments k = segments p ++ r) :
    k.toList = p.toList ++ if p = "" then ['/'].intercalate r else tailText r := by
  by_cases hne : p = ""
  · subst hne
    rw [if_pos rfl, ← hk.segments.2, h]
    rfl
  · rw [if_neg hne, toList_of_segments hk h fun hn => hne ((segments_eq_nil hp).mp hn), hp.segments.2]

theorem prefix_of_under {p k : Key} (hp : Path.IsPath p) (hk : Path.IsPath k) (h : Under p k) : p.toList <+: k.toList := by
  obtain ⟨r, hr⟩ := h
  exact ⟨_, (toList_under hp hk hr.symm).symm⟩

theorem head_tailText (parts : List (List Char)) : tailText parts = [] ∨ (tailText parts).head? = some '/' := by
  cases parts with
  | nil => exact .inl rfl
  | cons c parts => exact .inr (by rw [tailText_cons]; rfl)

/-- A name that comes first lies within the first segment. -/
theorem name_prefix {c d : List Char} {parts : List (List Char)} (hc : '/' ∉ c) (h : c <+: d ++ tailText parts) : c <+: d := by
  rcases List.prefix_or_prefix_of_prefix h (List.prefix_append _ _) with h1 | ⟨u, rfl⟩
  · exact h1
  · have hu : u <+: tailText parts := (List.prefix_append_right_inj d).mp h
    cases u with
    | nil => exact ⟨[], by simp⟩
    | cons x u =>
      rcases head_tailText parts with ht | ht
      · rw [ht] at hu
        simp at hu
      · obtain ⟨t, ht⟩ := List.head?_eq_some_iff.mp ht
        rw [ht] at hu
        obtain rfl := (List.cons_prefix_cons.mp hu).1
        exact absurd (by simp) hc

/-- A text that comes first in another one has the same segments, only the last one may go on. -/
theorem prefix_text {init parts : List (List Char)} {c : List Char} (hl : ∀ d ∈ init ++ [c], IsName d) (hr : ∀ d ∈ parts, IsName d)
    (h : ['/'].intercalate (init ++ [c]) <+: ['/'].intercalate parts) :
    ∃ y rest, parts = init ++ (c ++ y) :: rest := by
  induction init generalizing parts with
  | nil =>
    have hc := hl c (by simp)
    rw [List.nil_append, intercalate_cons, tailText, List.flatMap_nil, List.append_nil] at h
    cases parts with
    | nil => exact absurd (List.prefix_nil.mp h) hc.1
    | cons d parts =>
      rw [intercalate_cons] at h
      obtain ⟨y, rfl⟩ := name_prefix hc.2 h
      exact ⟨y, parts, rfl⟩
  | cons d init ih =>
    have hd := hl d (by simp)
    rw [List.cons_append, intercalate_cons] at h
    have hne : init ++ [c] ≠ [] := by simp
    obtain ⟨e, l, he⟩ := List.exists_cons_of_ne_nil hne
    have htail : tailText (init ++ [c]) = '/' :: ['/'].intercalate (init ++ [c]) := by
      rw [he, tailText_cons, intercalate_cons]
    rw [htail] at h
    cases parts with
    | nil => exact absurd (List.prefix_nil.mp h) (by simp)
    | cons e parts =>
      rw [intercalate_cons] at h
      -- both first segments end at the first slash
      obtain ⟨y, rfl⟩ := name_prefix hd.2 ((List.prefix_append _ _).trans h)
      rw [List.append_assoc, List.prefix_append_right_inj] at h
      cases y with
      | cons x y =>
        obtain rfl := (List.cons_prefix_cons.mp h).1
        exact absurd (by simp) (hr _ List.mem_cons_self).2
      | nil =>
        rw [List.nil_append] at h
        cases parts with
        | nil => exact absurd (List.prefix_nil.mp h) (by simp)
        | cons f parts =>
          rw [tailText_cons, ← intercalate_cons] at h
          obtain ⟨y, rest, hparts⟩ := ih (fun d hd => hl d (List.mem_cons_of_mem _ hd))
            (fun d hd => hr d (List.mem_cons_of_mem _ hd)) (List.cons_prefix_cons.mp h).2
          exact ⟨y, rest, by rw [hparts]; simp⟩

/-- How the text of a path comes first in that of another one: the first segments are the same, and the last one goes on
    with `y`; there is nothing to go on with if and only if the one path is under the other. -/
structure Splits (q k : Key) (init : List (List Char)) (c y : List Char) (rest : List (List Char)) : Prop where
  short : segments q = init ++ [c]
  long : segments k = init ++ (c ++ y) :: rest
  text : k.toList = q.toList ++ (y ++ tailText rest)
  under : Under q k ↔ y = []

theorem splits_of_prefix {q k : Key} (hq : Path.IsPath q) (hk : Path.IsPath k) (hne : q ≠ "") (h : q.toList <+: k.toList) :
    ∃ init c y rest, Splits q k init c y rest := by
  have hsegs : segments q ≠ [] := fun hn => hne ((segments_eq_nil hq).mp hn)
  obtain ⟨init, c, hqs⟩ : ∃ init c, segments q = init ++ [c] :=
    ⟨_, _, (List.dropLast_append_getLast hsegs).symm⟩
  have hname : ∀ d ∈ init ++ [c], IsName d := fun d hd => isName_of_mem_segments (hqs ▸ hd)
  rw [← hq.segments.2, ← hk.segments.2, hqs] at h
  obtain ⟨y, rest, hks⟩ := prefix_text hname (fun d hd => isName_of_mem_segments hd) h
  have htext : k.toList = q.toList ++ (y ++ tailText rest) := by
    rw [← hk.segments.2, ← hq.segments.2, hks, hqs]
    cases init with
    | nil => simp [intercalate_cons, tailText]
    | cons d init => simp [intercalate_cons, tailText, List.flatMap_append]
  refine ⟨init, c, y, rest, hqs, hks, htext, ?_⟩
  unfold Under
  rw [hqs, hks]
  constructor
  · intro hu
    have h1 := (List.prefix_append_right_inj init).mp hu
    have h2 := (List.cons_prefix_cons.mp h1).1
    simpa using h2
  · rintro rfl
    exact ⟨rest, by simp⟩

/-- What a segment goes on with has no slash. -/
theorem Splits.slash {q k : Key} {init rest : List (List Char)} {c y : List Char} (h : Splits q k init c y rest) : '/' ∉ y :=
  fun hy => (isName_of_mem_segments (k := k) (c := c ++ y) (by rw [h.long]; simp)).2 (by simp [hy])

end ObjStr.S3
