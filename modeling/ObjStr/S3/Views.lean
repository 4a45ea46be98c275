/-
  ObjStr.S3.Views — the listings of the raw store and of the cluster, seen as answers to the same question
  (`RawObjectStore` in `rawobjstr/src/store.rs`, `ShardedObjectStore` in `shardedobjstr/src/lib.rs`).

  `list` should give the keys under a path, and `list_with_delimiter`, expanded through the common prefixes it
  reports, the same keys once (`Views.Agree`).
-/

import ObjStr.Lib.Walk
import ObjStr.S3.Listing
import ObjStr.S3.Segments
import ObjStr.Sharded.Listing

namespace ObjStr.S3

open ObjStr.Lib ObjStr.Raw ObjStr.Sharded
open ObjStr.Sharded.Path (segments)

/-! ## Views -/

/-- What a store lists for a prefix: the keys of `list`, and those and the common prefixes of `list_with_delimiter`. -/
structure Views where
  list : Key → List Key
  objects : Key → List Key
  commonPrefixes : Key → List Key

/-- The objects that `list_with_delimiter` gives in the first `n` levels of common prefixes. -/
def Views.expand (v : Views) (n : Nat) (p : Key) : List Key := (visits v.commonPrefixes n p).flatMap v.objects

/-- The views of a store that holds the keys `K` agree under a prefix. -/
structure Views.Agree (v : Views) (K : List Key) (p : Key) : Prop where
  listed : (v.list p).Nodup ∧ ∀ k, k ∈ v.list p ↔ k ∈ K ∧ Under p k
  expanded : ∃ n, ∀ m ≥ n, (v.expand m p).Nodup ∧ ∀ k, k ∈ v.expand m p ↔ k ∈ K ∧ Under p k
  reported : ∀ n, ∀ q ∈ visits v.commonPrefixes n p, ∀ d ∈ v.commonPrefixes q, Under q d ∧ d ≠ q ∧ ∃ k ∈ K, Under d k

/-- A path that is above a key. -/
def Directory (K : List Key) (d : Key) : Prop := Path.IsPath d ∧ ∃ k ∈ K, Under d k ∧ d ≠ k

/-- The prefix, or a directory below it. -/
def Node (K : List Key) (p d : Key) : Prop := d = p ∨ Directory K d ∧ Under p d ∧ d ≠ p

/-- The views list a tree: each node the keys and the directories right below it, and the prefix itself if `own`. -/
structure Views.ListsTree (v : Views) (K : List Key) (p : Key) (own : Prop) : Prop where
  nodupObjects : ∀ q, Node K p q → (v.objects q).Nodup
  nodupPrefixes : ∀ q, Node K p q → (v.commonPrefixes q).Nodup
  mem_objects : ∀ q, Node K p q → ∀ k, k ∈ v.objects q ↔ k ∈ K ∧ ((∃ x, segments k = segments q ++ [x]) ∨ q = p ∧ k = p ∧ own)
  mem_prefixes : ∀ q, Node K p q → ∀ d, d ∈ v.commonPrefixes q ↔ Directory K d ∧ ∃ x, segments d = segments q ++ [x]

section Trees

variable {v : Views} {K : List Key} {p q d k : Key} {own : Prop}

def above (d : Key) : Key := joinParts (segments d).dropLast

theorem above_of_segments {x : List Char} (hq : Path.IsPath q) (h : segments d = segments q ++ [x]) : above d = q := by
  rw [above, h, List.dropLast_concat, joinParts_segments hq]

theorem under_of_segments {r : List (List Char)} (h : segments k = segments q ++ r) : Under q k := ⟨r, h.symm⟩

theorem ne_of_segments {r : List (List Char)} (h : segments k = segments q ++ r) (hr : r ≠ []) : k ≠ q := by
  rintro rfl
  have h1 := congrArg List.length h
  rw [List.length_append] at h1
  exact hr (List.length_eq_zero_iff.mp (by omega))

theorem Node.isPath (hp : Path.IsPath p) (h : Node K p q) : Path.IsPath q := by
  rcases h with rfl | ⟨h, -, -⟩
  · exact hp
  · exact h.1

theorem Node.under (h : Node K p q) : Under p q := by
  rcases h with rfl | ⟨-, h, -⟩
  · exact .refl _
  · exact h

/-- A directory right below a node is one. -/
theorem Node.kid {x : List Char} (h : Node K p q) (hd : Directory K d) (hs : segments d = segments q ++ [x]) : Node K p d := by
  refine .inr ⟨hd, h.under.trans (under_of_segments hs), ?_⟩
  rintro rfl
  have h1 := h.under.length_le
  rw [hs, List.length_append, List.length_singleton] at h1
  omega

theorem Views.ListsTree.isTree (h : v.ListsTree K p own) (hp : Path.IsPath p) :
    IsTree v.commonPrefixes (Node K p) above fun d => (segments d).length where
  nodup := h.nodupPrefixes
  kid := fun q hq d hd => by
    obtain ⟨hdir, x, hx⟩ := (h.mem_prefixes q hq d).mp hd
    exact ⟨hq.kid hdir hx, above_of_segments (hq.isPath hp) hx, by rw [hx, List.length_append]; rfl⟩

/-- The path of a key's first segments. -/
theorem segments_first {l r : List (List Char)} (hk : Path.IsPath k) (h : segments k = l ++ r) :
    segments (joinParts l) = l ∧ Path.IsPath (joinParts l) := by
  have hmem : ∀ c ∈ l, c ∈ segments k := fun c hc => by simp [h, hc]
  exact ⟨segments_joinParts fun c hc => isName_of_mem_segments (hmem c hc),
    isPath_joinParts fun c hc => ⟨isPart_of_mem_segments hk (hmem c hc), (isName_of_mem_segments (hmem c hc)).2⟩⟩

/-- The path above something below the prefix is a node. -/
theorem node_above (hp : Path.IsPath p) (hd : Path.IsPath d) (hbelow : ∃ k ∈ K, Under d k) (hu : Under p d) (hne : d ≠ p) :
    Node K p (above d) ∧ ∃ x, segments d = segments (above d) ++ [x] := by
  obtain ⟨r, hr⟩ := hu
  obtain ⟨l, x, rfl⟩ : ∃ l x, r = l ++ [x] := by
    rcases List.eq_nil_or_concat r with rfl | ⟨l, x, rfl⟩
    · exact absurd (segments_injective hd hp (by rw [← hr, List.append_nil])) hne
    · exact ⟨l, x, by simp⟩
  rw [← List.append_assoc] at hr
  obtain ⟨h1, h2⟩ := segments_first hd hr.symm
  have habove : above d = joinParts (segments p ++ l) := by rw [above, ← hr, List.dropLast_concat]
  rw [habove]
  refine ⟨?_, x, by rw [h1, hr]⟩
  by_cases hl : l = []
  · left
    rw [hl, List.append_nil, joinParts_segments hp]
  · right
    obtain ⟨k, hk, huk⟩ := hbelow
    have hud : Under (joinParts (segments p ++ l)) d := ⟨[x], by rw [h1, hr]⟩
    refine ⟨⟨h2, k, hk, hud.trans huk, ?_⟩, ⟨l, h1.symm⟩, ne_of_segments h1 hl⟩
    rintro rfl
    have h3 := huk.length_le
    rw [← hr, h1, List.length_append, List.length_singleton] at h3
    omega

/-- Each node is visited if every directory is reported by the node above it. -/
theorem Node.visited (hp : Path.IsPath p)
    (hrep : ∀ q, Node K p q → ∀ d x, Directory K d → segments d = segments q ++ [x] → d ∈ v.commonPrefixes q)
    (h : Node K p d) : d ∈ visits v.commonPrefixes ((segments d).length + 1) p := by
  induction hn : (segments d).length generalizing d with
  | zero =>
    have hsame : d = p := by
      rcases h with rfl | ⟨h1, h2, -⟩
      · rfl
      · have := h2.length_le
        have hp0 : segments p = [] := List.length_eq_zero_iff.mp (by omega)
        exact segments_injective h1.1 hp (by rw [hp0, List.length_eq_zero_iff.mp hn])
    rw [hsame]
    exact self_mem_visits _ _
  | succ n ih =>
    by_cases hsame : d = p
    · rw [hsame]
      exact self_mem_visits _ _
    · obtain ⟨hdir, hu, -⟩ := h.resolve_left hsame
      obtain ⟨k, hk, huk, -⟩ := hdir.2
      obtain ⟨hnode, x, hx⟩ := node_above hp hdir.1 ⟨k, hk, huk⟩ hu hsame
      have hlen : (segments (above d)).length = n := by
        rw [hx, List.length_append, List.length_singleton] at hn
        omega
      exact mem_visits_of_kid (ih hnode hlen) (hrep _ hnode d x hdir hx)

theorem exists_bound (f : Key → Nat) (K : List Key) : ∃ n, ∀ k ∈ K, f k ≤ n := by
  induction K with
  | nil => exact ⟨0, by simp⟩
  | cons k K ih =>
    obtain ⟨n, hn⟩ := ih
    refine ⟨max n (f k), fun k' hk' => ?_⟩
    rcases List.mem_cons.mp hk' with rfl | hk'
    · exact le_max_right _ _
    · exact (hn k' hk').trans (le_max_left _ _)

namespace Views.ListsTree

theorem nodup_expand (h : v.ListsTree K p own) (hp : Path.IsPath p) (n : Nat) : (v.expand n p).Nodup := by
  refine (h.isTree hp).nodup_collected n (.inl rfl) h.nodupObjects fun d e x hd he hx hx' => ?_
  have hnot : ∀ q y, Node K p q → segments p = segments q ++ [y] → False := fun q y hq hy => by
    have h1 := hq.under.length_le
    rw [hy, List.length_append, List.length_singleton] at h1
    omega
  rcases ((h.mem_objects d hd x).mp hx).2 with ⟨y, hy⟩ | ⟨rfl, rfl, -⟩
  · rcases ((h.mem_objects e he x).mp hx').2 with ⟨z, hz⟩ | ⟨rfl, rfl, -⟩
    · rw [← above_of_segments (hd.isPath hp) hy, above_of_segments (he.isPath hp) hz]
    · exact (hnot d y hd hy).elim
  · rcases ((h.mem_objects e he x).mp hx').2 with ⟨z, hz⟩ | ⟨rfl, -, -⟩
    · exact (hnot e z he hz).elim
    · rfl

/-- Some levels down the expansion is all that lies under the prefix. -/
theorem mem_expand (h : v.ListsTree K p own) (hp : Path.IsPath p) (hK : ∀ k ∈ K, Path.IsPath k) :
    ∃ n, ∀ m ≥ n, ∀ k, k ∈ v.expand m p ↔ k ∈ K ∧ Under p k ∧ (k = p → own) := by
  have hrep : ∀ q, Node K p q → ∀ d x, Directory K d → segments d = segments q ++ [x] → d ∈ v.commonPrefixes q :=
    fun q hq d x hd hx => (h.mem_prefixes q hq d).mpr ⟨hd, x, hx⟩
  obtain ⟨n, hn⟩ := exists_bound (fun k => (segments k).length) K
  refine ⟨n + 1, fun m hm k => ?_⟩
  unfold expand
  rw [List.mem_flatMap]
  constructor
  · rintro ⟨q, hq, hk⟩
    have hnode : Node K p q := visits_induction (.inl rfl) (fun d hd e he => ((h.isTree hp).kid d hd e he).1) q hq
    obtain ⟨hkK, ⟨x, hx⟩ | ⟨rfl, rfl, hown⟩⟩ := (h.mem_objects q hnode k).mp hk
    · refine ⟨hkK, hnode.under.trans (under_of_segments hx), ?_⟩
      rintro rfl
      have h1 := hnode.under.length_le
      rw [hx, List.length_append, List.length_singleton] at h1
      omega
    · exact ⟨hkK, .refl _, fun _ => hown⟩
  · rintro ⟨hkK, hu, hown⟩
    by_cases hkp : k = p
    · have hvisit : p ∈ visits v.commonPrefixes m p := visits_mono (by omega) (self_mem_visits 0 p)
      exact ⟨p, hvisit, (h.mem_objects p (.inl rfl) k).mpr ⟨hkK, .inr ⟨rfl, hkp, hown hkp⟩⟩⟩
    · obtain ⟨hnode, x, hx⟩ := node_above hp (hK k hkK) ⟨k, hkK, .refl k⟩ hu hkp
      have hle := hn k hkK
      rw [hx, List.length_append, List.length_singleton] at hle
      exact ⟨above k, visits_mono (by omega) (hnode.visited hp hrep), (h.mem_objects _ hnode k).mpr ⟨hkK, .inl ⟨x, hx⟩⟩⟩

/-- A tree is reported as one. -/
theorem reported (h : v.ListsTree K p own) (hp : Path.IsPath p) (n : Nat) :
    ∀ q ∈ visits v.commonPrefixes n p, ∀ d ∈ v.commonPrefixes q, Under q d ∧ d ≠ q ∧ ∃ k ∈ K, Under d k := by
  intro q hq d hd
  have hnode : Node K p q := visits_induction (.inl rfl) (fun d hd e he => ((h.isTree hp).kid d hd e he).1) q hq
  obtain ⟨hdir, x, hx⟩ := (h.mem_prefixes q hnode d).mp hd
  obtain ⟨k, hk, hu, -⟩ := hdir.2
  exact ⟨under_of_segments hx, ne_of_segments hx (by simp), k, hk, hu⟩

/-- Views that list a tree agree, if the prefix is listed as well when it is a key. -/
theorem agree (h : v.ListsTree K p own) (hp : Path.IsPath p) (hK : ∀ k ∈ K, Path.IsPath k)
    (hlist : (v.list p).Nodup ∧ ∀ k, k ∈ v.list p ↔ k ∈ K ∧ Under p k) (hown : p ∈ K → own) : v.Agree K p := by
  obtain ⟨n, hn⟩ := h.mem_expand hp hK
  refine ⟨hlist, ⟨n, fun m hm => ⟨h.nodup_expand hp m, fun k => (hn m hm k).trans ?_⟩⟩, h.reported hp⟩
  exact ⟨fun h1 => ⟨h1.1, h1.2.1⟩, fun h1 => ⟨h1.1, h1.2, fun hk => hown (hk ▸ h1.1)⟩⟩

end Views.ListsTree

end Trees

/-! ## The raw store -/

section RawStore

variable {p q d k : Key}

theorem takeWhile_name {x : List Char} (h : '/' ∉ x) (r : List (List Char)) : (x ++ tailText r).takeWhile (· != '/') = x := by
  have hall : ∀ c ∈ x, (c != '/') = true := fun c hc => by simpa using fun he : c = '/' => h (he ▸ hc)
  rw [List.takeWhile_append_of_pos hall]
  rcases head_tailText r with ht | ht
  · simp [ht]
  · obtain ⟨t, ht⟩ := List.head?_eq_some_iff.mp ht
    simp [ht]

theorem slash_mem_iff {x : List Char} (h : '/' ∉ x) (r : List (List Char)) : '/' ∈ x ++ tailText r ↔ r ≠ [] := by
  rw [List.mem_append, or_iff_right h]
  cases r with
  | nil => simp [tailText]
  | cons c r => simp [tailText_cons]

/-- What is left of a key below a path. -/
theorem relativeTo_below (hq : Path.IsPath q) (hk : Path.IsPath k) {x : List Char} {r : List (List Char)}
    (h : segments k = segments q ++ x :: r) : relativeTo q.toList k.toList = some (x ++ tailText r) := by
  have htext := toList_under hq hk h
  by_cases hne : q = ""
  · rw [if_pos hne, intercalate_cons] at htext
    subst hne
    have hnil : ("" : Key).toList = [] := rfl
    rw [relativeTo, restOf, if_pos hnil, Option.bind_some, if_pos hnil, htext, hnil, List.nil_append]
  · rw [if_neg hne, tailText_cons] at htext
    have hnil : q.toList ≠ [] := toList_ne_nil hne
    have hrest : restOf q.toList k.toList = some ('/' :: (x ++ tailText r)) := by
      rw [restOf, if_neg hnil, htext, if_pos ⟨by simp, .inr (by simp)⟩, List.drop_left]
    rw [relativeTo, hrest, Option.bind_some, if_neg hnil, if_neg (List.cons_ne_nil _ _)]
    rfl

theorem relativeTo_self (q : Key) : relativeTo q.toList q.toList = if q = "" then some [] else none := by
  by_cases hne : q = ""
  · subst hne
    rfl
  · rw [if_neg hne, relativeTo, restOf, if_neg (toList_ne_nil hne), if_pos ⟨by simp, .inl rfl⟩]
    simp [toList_ne_nil hne]

/-- Only what is under a path has something left. -/
theorem under_of_relativeTo (hq : Path.IsPath q) (hk : Path.IsPath k) {t : List Char} (h : relativeTo q.toList k.toList = some t) :
    Under q k := by
  by_cases hne : q = ""
  · subst hne
    exact List.nil_prefix
  · have hnil := toList_ne_nil hne
    obtain ⟨rest, hrest, -⟩ := Option.bind_eq_some_iff.mp h
    rw [restOf, if_neg hnil] at hrest
    split at hrest
    · next hpre =>
      obtain ⟨hpre, hnext⟩ := hpre
      obtain ⟨init, c, y, rest, hsplit⟩ := splits_of_prefix hq hk hne (List.isPrefixOf_iff_prefix.mp hpre)
      rw [hsplit.under]
      rw [hsplit.text] at hnext
      cases y with
      | nil => rfl
      | cons a y =>
        rcases hnext with hnext | hnext
        · simp at hnext
        · simp only [List.cons_append, List.getElem?_append_right (Nat.le_refl _), Nat.sub_self, List.getElem?_cons_zero,
            Option.some.injEq] at hnext
          exact absurd (by simp [hnext]) hsplit.slash
    · cases hrest

theorem isChild_iff (hq : Path.IsPath q) (hk : Path.IsPath k) :
    isChild q.toList k.toList = true ↔ (∃ x, segments k = segments q ++ [x]) ∨ q = "" ∧ k = "" := by
  unfold isChild
  by_cases hu : Under q k
  · obtain ⟨r, hr⟩ := hu
    cases r with
    | nil =>
      rw [List.append_nil] at hr
      obtain rfl := segments_injective hq hk hr
      rw [relativeTo_self]
      by_cases hne : q = ""
      · subst hne
        simp
      · simp [hne]
    | cons x r =>
      have hx : '/' ∉ x := (isName_of_mem_segments (k := k) (by rw [← hr]; simp)).2
      rw [relativeTo_below hq hk hr.symm]
      have hslash := slash_mem_iff hx r
      have hne : ¬ (q = "" ∧ k = "") := fun ⟨h1, h2⟩ => ne_of_segments hr.symm (by simp) (h2.trans h1.symm)
      rw [or_iff_left hne, ← hr]
      simp [hslash]
  · have hnone : relativeTo q.toList k.toList = none := by
      cases hrel : relativeTo q.toList k.toList with
      | none => rfl
      | some t => exact absurd (under_of_relativeTo hq hk hrel) hu
    rw [hnone]
    refine iff_of_false (by simp) ?_
    rintro (⟨x, hx⟩ | ⟨rfl, rfl⟩)
    · exact hu (under_of_segments hx)
    · exact hu (.refl _)

/-- The text of a path with one more segment. -/
theorem toList_joinParts_snoc (hq : Path.IsPath q) (x : List Char) :
    (joinParts (segments q ++ [x])).toList = if q.toList = [] then x else q.toList ++ '/' :: x := by
  rw [joinParts, String.toList_ofList]
  by_cases hne : q = ""
  · subst hne
    exact intercalate_cons x [] |>.trans (List.append_nil x)
  · rw [if_neg (toList_ne_nil hne), intercalate_append fun hn => hne ((segments_eq_nil hq).mp hn), hq.segments.2,
      tailText_cons]
    simp [tailText]

theorem commonPrefix_iff (hq : Path.IsPath q) (hk : Path.IsPath k) :
    commonPrefix q.toList k.toList = some d ↔
      ∃ x y r, segments k = segments q ++ x :: y :: r ∧ d = joinParts (segments q ++ [x]) := by
  constructor
  · intro h
    obtain ⟨t, ht, hd⟩ := Option.bind_eq_some_iff.mp h
    obtain ⟨r, hr⟩ := under_of_relativeTo hq hk ht
    split at hd
    · next hslash =>
      cases r with
      | nil =>
        rw [List.append_nil] at hr
        obtain rfl := segments_injective hq hk hr
        rw [relativeTo_self] at ht
        split at ht
        · obtain rfl := Option.some.inj ht
          cases hslash
        · cases ht
      | cons x r =>
        have hx : '/' ∉ x := (isName_of_mem_segments (k := k) (by rw [← hr]; simp)).2
        obtain rfl := Option.some.inj ((relativeTo_below hq hk hr.symm).symm.trans ht)
        obtain ⟨y, r, rfl⟩ := List.exists_cons_of_ne_nil ((slash_mem_iff hx r).mp hslash)
        refine ⟨x, y, r, hr.symm, ?_⟩
        rw [takeWhile_name hx, ← toList_joinParts_snoc hq, String.ofList_toList] at hd
        have hpath := (segments_first (l := segments q ++ [x]) (r := y :: r) hk (by rw [← hr]; simp)).2
        exact ((Option.some.inj hd).symm.trans (rawPath_of_isPath hpath))
    · cases hd
  · rintro ⟨x, y, r, hs, rfl⟩
    have hx : '/' ∉ x := (isName_of_mem_segments (k := k) (by rw [hs]; simp)).2
    have hpath := (segments_first (l := segments q ++ [x]) (r := y :: r) hk (by rw [hs]; simp)).2
    rw [commonPrefix, relativeTo_below hq hk hs, Option.bind_some, if_pos ((slash_mem_iff hx _).mpr (by simp)),
      takeWhile_name hx, ← toList_joinParts_snoc hq, String.ofList_toList]
    exact congrArg some (rawPath_of_isPath hpath)

theorem prefixMatches_iff (hp : Path.IsPath p) (hk : Path.IsPath k) : Path.prefixMatches k p = true ↔ Under p k := by
  unfold Path.prefixMatches
  constructor
  · intro h
    obtain ⟨hpre, hrest⟩ := (Bool.and_eq_true_iff).mp h
    by_cases hne : p = ""
    · subst hne
      exact List.nil_prefix
    · obtain ⟨init, c, y, rest, hsplit⟩ := splits_of_prefix hp hk hne (List.isPrefixOf_iff_prefix.mp hpre)
      rw [hsplit.under]
      rw [hsplit.text, List.drop_left] at hrest
      have hnil : p.toList.isEmpty = false := by simpa using toList_ne_nil hne
      cases y with
      | nil => rfl
      | cons a y =>
        simp only [List.cons_append, List.isEmpty_cons, hnil, Bool.false_or, List.head?_cons, beq_iff_eq, Option.some.injEq] at hrest
        exact absurd (by simp [hrest]) hsplit.slash
  · intro hu
    obtain ⟨r, hr⟩ := hu
    rw [toList_under hp hk hr.symm, List.drop_left]
    refine Bool.and_eq_true_iff.mpr ⟨List.isPrefixOf_iff_prefix.mpr (List.prefix_append _ _), ?_⟩
    by_cases hne : p = ""
    · subst hne
      simp
    · rw [if_neg hne]
      rcases head_tailText r with ht | ht
      · simp [ht]
      · simp [ht]

end RawStore

namespace PathStore

variable (s : PathStore)

def keys : List Key := s.store.snapshot.map (·.1)

def views : Views where
  list p := (s.store.list (some p)).map (·.location)
  objects p := (s.store.listWithDelimiter (some p)).objects.map (·.location)
  commonPrefixes p := (s.store.listWithDelimiter (some p)).commonPrefixes

theorem isPath_of_mem {k : Key} (h : k ∈ s.keys) : Path.IsPath k := by
  obtain ⟨e, he, rfl⟩ := List.mem_map.mp h
  exact s.isPath e he

theorem nodup_keys : s.keys.Nodup := by
  have hkeys : s.keys = (s.store.files.entries.filter fun e => !isMultipartTmp e.1).keys := by
    unfold keys Store.snapshot List.keys
    rw [List.map_map]
    rfl
  rw [hkeys]
  exact s.store.files.nodupKeys.sublist List.filter_sublist

/-- Each key that is shown is its own path. -/
theorem map_location (P : Key → Bool) :
    ((s.store.snapshot.filter fun e => P e.1).map fun e => metaFor (keyPath e.1) e.2).map (·.location) = s.keys.filter P := by
  unfold keys
  rw [List.map_map, List.filter_map]
  refine List.map_congr_left fun e he => ?_
  exact keyPath_of_isPath (s.isPath e (List.mem_filter.mp he).1)

variable {s} {p : Key}

theorem listed (hp : Path.IsPath p) : (s.views.list p).Nodup ∧ ∀ k, k ∈ s.views.list p ↔ k ∈ s.keys ∧ Under p k := by
  have hlist : s.views.list p = s.keys.filter fun k => Store.under (some p) k := s.map_location fun k => Store.under (some p) k
  rw [hlist]
  refine ⟨s.nodup_keys.filter _, fun k => ?_⟩
  rw [List.mem_filter]
  refine and_congr_right fun hk => ?_
  show Path.prefixMatches (keyPath k) p = true ↔ Under p k
  rw [keyPath_of_isPath (s.isPath_of_mem hk)]
  exact prefixMatches_iff hp (s.isPath_of_mem hk)

/-- The raw store lists a tree, and a prefix that is a key only if it is the root. -/
theorem listsTree (hp : Path.IsPath p) : s.views.ListsTree s.keys p (p = "") := by
  have hobjects : ∀ q, (s.views.objects q).Perm (s.keys.filter fun k => isChild q.toList k.toList) := fun q =>
    ((List.perm_insertionSort _ _).map _).trans (.of_eq (s.map_location fun k => isChild q.toList k.toList))
  have hprefixes : ∀ q, (s.views.commonPrefixes q).Perm (s.store.snapshot.filterMap fun e => commonPrefix q.toList e.1.toList).dedup :=
    fun q => List.perm_insertionSort _ _
  refine ⟨fun q _ => ?_, fun q _ => ?_, fun q hq k => ?_, fun q hq d => ?_⟩
  · exact (hobjects q).nodup_iff.mpr (s.nodup_keys.filter _)
  · exact (hprefixes q).nodup_iff.mpr (List.nodup_dedup _)
  · rw [(hobjects q).mem_iff, List.mem_filter]
    refine and_congr_right fun hk => (isChild_iff (hq.isPath hp) (s.isPath_of_mem hk)).trans (or_congr_right ?_)
    constructor
    · rintro ⟨rfl, rfl⟩
      have hroot : p = "" := by
        exact (segments_eq_nil hp).mp (List.prefix_nil.mp hq.under)
      exact ⟨hroot.symm, hroot.symm, hroot⟩
    · rintro ⟨rfl, rfl, hroot⟩
      exact ⟨hroot, hroot⟩
  · rw [(hprefixes q).mem_iff, List.mem_dedup, List.mem_filterMap]
    constructor
    · rintro ⟨e, he, hd⟩
      have hk := s.isPath e he
      obtain ⟨x, y, r, hs, rfl⟩ := (commonPrefix_iff (hq.isPath hp) hk).mp hd
      obtain ⟨h1, h2⟩ := segments_first (l := segments q ++ [x]) (r := y :: r) hk (by rw [hs]; simp)
      have hsegs : segments e.1 = segments (joinParts (segments q ++ [x])) ++ y :: r := by rw [h1, hs]; simp
      exact ⟨⟨h2, e.1, List.mem_map.mpr ⟨e, he, rfl⟩, under_of_segments hsegs, (ne_of_segments hsegs (by simp)).symm⟩, x, h1⟩
    · rintro ⟨⟨hdp, k, hk, ⟨r, hr⟩, hne⟩, x, hx⟩
      obtain ⟨e, he, rfl⟩ := List.mem_map.mp hk
      refine ⟨e, he, (commonPrefix_iff (hq.isPath hp) (s.isPath e he)).mpr ?_⟩
      cases r with
      | nil => exact absurd (segments_injective hdp (s.isPath e he) (by rw [← hr, List.append_nil])) hne
      | cons y r =>
        refine ⟨x, y, r, ?_, ?_⟩
        · rw [← hr, hx]
          simp
        · rw [← hx, joinParts_segments hdp]

/-- The views of the raw store agree under a prefix that is no key. -/
theorem agree_iff (hp : Path.IsPath p) : s.views.Agree s.keys p ↔ p = "" ∨ p ∉ s.keys := by
  have htree := s.listsTree hp
  constructor
  · intro h
    by_contra hn
    obtain ⟨hne, hmem⟩ := not_or.mp hn
    obtain ⟨n, hn⟩ := htree.mem_expand hp fun k => s.isPath_of_mem
    obtain ⟨m, hm⟩ := h.expanded
    have h1 := ((hm (max n m) (le_max_right _ _)).2 p).mpr ⟨not_not.mp hmem, .refl p⟩
    exact hne (((hn (max n m) (le_max_left _ _) p).mp h1).2.2 rfl)
  · intro h
    exact htree.agree hp (fun k => s.isPath_of_mem) (listed hp) fun hmem => h.resolve_right (not_not.mpr hmem)

end PathStore

end ObjStr.S3
