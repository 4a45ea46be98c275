/-
  ObjStr.S3.ShardedViews — the listings of the cluster, next to those of the raw store (see `ObjStr.S3.Views`).

  `Catalog::list` compares texts: a key whose text goes on after that of the prefix is listed too. Keys and common
  prefixes become paths with `Path::from`, which encodes what may already be encoded. And `list_with_delimiter` lists
  the prefix itself when it is a key.
-/

import ObjStr.Raw.Ranges
import ObjStr.S3.Views
import ObjStr.Sharded.Sample

namespace ObjStr.S3

open ObjStr.Lib ObjStr.Raw ObjStr.Sharded Proc
open ObjStr.Sharded.Path (segments)

variable {p q d k : Key}

/-! ## Relative paths -/

theorem dropWhile_name {x : List Char} (h : IsName x) (r : List (List Char)) :
    (x ++ tailText r).dropWhile (· == '/') = x ++ tailText r := by
  obtain ⟨c, x, rfl⟩ := List.exists_cons_of_ne_nil h.1
  have hc : (c == '/') = false := by simpa using fun he : c = '/' => h.2 (by simp [he])
  rw [List.cons_append, List.dropWhile_cons_of_neg (by simp [hc])]

theorem relativePath_self (q : Key) : relativePath q.toList q.toList = [] := by
  simp [relativePath]

/-- What is left of a path below another one. -/
theorem relativePath_below (hq : Path.IsPath q) (hk : Path.IsPath k) {x : List Char} {r : List (List Char)}
    (h : segments k = segments q ++ x :: r) : relativePath q.toList k.toList = x ++ tailText r := by
  have hx : IsName x := isName_of_mem_segments (k := k) (by simp [h])
  have htext := toList_under hq hk h
  rw [relativePath, if_pos (List.isPrefixOf_iff_prefix.mpr (prefix_of_under hq hk ⟨_, h.symm⟩)), htext, List.drop_left]
  by_cases hne : q = ""
  · rw [if_pos hne, intercalate_cons, dropWhile_name hx]
  · rw [if_neg hne, tailText_cons, List.dropWhile_cons_of_pos (by rfl), dropWhile_name hx]

/-- What is left of a path that goes on with `y`. -/
theorem relativePath_beside {init rest : List (List Char)} {c y : List Char} (h : Splits q k init c y rest) (hy : y ≠ []) :
    relativePath q.toList k.toList = y ++ tailText rest := by
  rw [relativePath, if_pos (List.isPrefixOf_iff_prefix.mpr ⟨_, h.text.symm⟩), h.text, List.drop_left,
    dropWhile_name ⟨hy, h.slash⟩]

/-- How a key that has the text of a path first goes on. -/
theorem cases_of_prefix (hq : Path.IsPath q) (hk : Path.IsPath k) (h : q.toList <+: k.toList) :
    k = q ∨ ∃ x r, IsName x ∧ relativePath q.toList k.toList = x ++ tailText r ∧
      (segments k = segments q ++ x :: r ∨ ¬ Under q k ∧ ∃ init c, Splits q k init c x r) := by
  by_cases hu : Under q k
  · obtain ⟨r, hr⟩ := hu
    cases r with
    | nil => exact .inl (segments_injective hk hq (by rw [← hr, List.append_nil]))
    | cons x r =>
      exact .inr ⟨x, r, isName_of_mem_segments (k := k) (by simp [← hr]), relativePath_below hq hk hr.symm, .inl hr.symm⟩
  · have hne : q ≠ "" := fun he => hu (by rw [he]; exact List.nil_prefix)
    obtain ⟨init, c, y, rest, hsplit⟩ := splits_of_prefix hq hk hne h
    have hy : y ≠ [] := fun hy => hu (hsplit.under.mpr hy)
    exact .inr ⟨y, rest, ⟨hy, hsplit.slash⟩, relativePath_beside hsplit hy, .inr ⟨hu, init, c, hsplit⟩⟩

def dirText (q : Key) (x : List Char) : Key :=
  String.ofList (if q.toList = [] then x ++ ['/'] else q.toList ++ '/' :: (x ++ ['/']))

theorem trimEnd_of_isPath (hq : Path.IsPath q) : Sharded.trimEnd q.toList = q.toList := by
  unfold Sharded.trimEnd
  rw [List.rdropWhile_eq_self_iff]
  intro hne hlast
  have hq' : q.toList = q.toList.dropLast ++ '/' :: [] := by
    have h1 : q.toList.getLast hne = '/' := by simpa using hlast
    conv_lhs => rw [← List.dropLast_append_getLast hne, h1]
  exact (ne_slash_of_isPath hq hq').2 rfl

theorem directoryOf_eq (hq : Path.IsPath q) {x : List Char} (hx : '/' ∉ x) (r : List (List Char)) :
    directoryOf q.toList (x ++ tailText r) = if r = [] then none else some (dirText q x) := by
  unfold directoryOf dirText
  by_cases hr : r = []
  · rw [if_neg fun h => (slash_mem_iff hx r).mp h hr, if_pos hr]
  · rw [if_pos ((slash_mem_iff hx r).mpr hr), if_neg hr, takeWhile_name hx, trimEnd_of_isPath hq]

theorem segments_dirText {x : List Char} (hx : IsName x) (q : Key) : segments (dirText q x) = segments q ++ [x] := by
  have hend : ((x ++ ['/']).splitOn '/').filter (fun c => !c.isEmpty) = [x] := by
    rw [List.splitOn_append_cons_self_of_not_mem hx.2]
    have hne : x.isEmpty = false := by simpa using hx.1
    simp [hne]
  unfold dirText segments
  rw [String.toList_ofList]
  split
  · next hnil =>
    rw [hend, hnil]
    rfl
  · rw [List.splitOn_append_cons_self, List.filter_append, hend]

theorem fromStr_dirText {x : List Char} (hx : IsName x) (q : Key) :
    Path.fromStr (dirText q x) = joinParts ((segments q ++ [x]).map Path.encodePart) := by
  rw [fromStr_eq_joinParts, segments_dirText hx]

/-! ## The cluster -/

structure PathCluster where
  sys : Sys
  isPath : ∀ e ∈ sys.cluster.catalog.inner.entries, Path.IsPath e.1

/-- The keys of the views are kept apart: what has the text of the prefix first lies under it and is its own path, no
    directory is a key, and where a key has the text of a directory first and does not lie under it, it goes through the
    text of another directory right below. -/
structure Separate (K : List Key) (p : Key) : Prop where
  kept : ∀ k ∈ K, p.toList <+: k.toList → Under p k ∧ Path.fromStr k = k
  noKey : ∀ d ∈ K, Directory K d → Under p d → d = p
  apart : ∀ d, Directory K d → Under p d → d ≠ p → ∀ k ∈ K, d.toList <+: k.toList → ¬ Under d k →
    ∃ name rest d', k.toList = d.toList ++ (name ++ '/' :: rest) ∧ '/' ∉ name ∧ d'.toList = d.toList ++ '/' :: name ∧ Directory K d'

namespace PathCluster

variable (c : PathCluster)

def keys : List Key := (c.sys.cluster.catalog.inner.entries.filter fun e => !isDeleteMarker e.1).map (·.1)

def views : Views where
  list p := ((Sharded.list (some p)).exec c.sys).1.map (·.1)
  objects p := ((Sharded.listWithDelimiter (some p)).exec c.sys).1.objects.map (·.1)
  commonPrefixes p := ((Sharded.listWithDelimiter (some p)).exec c.sys).1.commonPrefixes

theorem isPath_of_mem {k : Key} (h : k ∈ c.keys) : Path.IsPath k := by
  obtain ⟨e, he, rfl⟩ := List.mem_map.mp h
  exact c.isPath e (List.mem_filter.mp he).1

theorem nodup_keys : c.keys.Nodup := c.sys.cluster.catalog.inner.nodupKeys.sublist List.filter_sublist

/-- `list` compares texts, and makes paths of the keys. -/
theorem list_eq (q : Key) : c.views.list q = (c.keys.filter fun k => q.toList.isPrefixOf k.toList).map Path.fromStr := by
  have hmark : ∀ e ∈ c.sys.cluster.catalog.inner.entries, isDeleteMarker (Path.fromStr e.1) = isDeleteMarker e.1 :=
    fun e he => isDeleteMarker_fromStr (c.isPath e he)
  show ((((c.sys.cluster.catalog.inner.entries.filter fun e => (some q).all fun p => p.toList.isPrefixOf e.1.toList).map
    fun e => (Path.fromStr e.1, e.2)).filter fun m => !isDeleteMarker m.1).map (·.1)) = _
  unfold keys
  generalize c.sys.cluster.catalog.inner.entries = entries at hmark
  rw [List.filter_map, List.filter_map, List.map_map, List.map_map, List.filter_filter, List.filter_filter]
  have hsame : ∀ e ∈ entries, (((fun m : Key × PlacementEntry => !isDeleteMarker m.1) ∘ fun e => (Path.fromStr e.1, e.2)) e &&
      (some q).all fun p => p.toList.isPrefixOf e.1.toList) =
      (((fun k : Key => q.toList.isPrefixOf k.toList) ∘ fun e => e.1) e && !isDeleteMarker e.1) := by
    intro e he
    simp only [Function.comp_apply, hmark e he, Option.all_some]
    exact Bool.and_comm _ _
  rw [List.filter_congr hsame]
  rfl

theorem objects_eq (q : Key) : c.views.objects q =
    (c.views.list q).filter fun l => (directoryOf q.toList (relativePath q.toList l.toList)).isNone := by
  show ((((Sharded.list (some q)).exec c.sys).1.filter fun m =>
    (directoryOf q.toList (relativePath q.toList m.1.toList)).isNone).map (·.1)) = _
  unfold views
  rw [List.filter_map]
  rfl

theorem commonPrefixes_eq (q : Key) : c.views.commonPrefixes q =
    ((((c.views.list q).filterMap fun l => directoryOf q.toList (relativePath q.toList l.toList)).dedup).insertionSort
      fun a b => a ≤ b).map Path.fromStr := by
  unfold views
  rw [List.filterMap_map]
  rfl

variable {c}

/-- Where what has the text of a path first is its own path. -/
theorem list_of_kept (h : ∀ k ∈ c.keys, q.toList <+: k.toList → Path.fromStr k = k) :
    c.views.list q = c.keys.filter fun k => q.toList.isPrefixOf k.toList := by
  rw [c.list_eq]
  refine (List.map_congr_left fun k hk => ?_).trans (List.map_id _)
  obtain ⟨hk, hpre⟩ := List.mem_filter.mp hk
  exact h k hk (List.isPrefixOf_iff_prefix.mp hpre)

theorem mem_list_of_kept (h : ∀ k ∈ c.keys, q.toList <+: k.toList → Path.fromStr k = k) :
    k ∈ c.views.list q ↔ k ∈ c.keys ∧ q.toList <+: k.toList := by
  rw [list_of_kept h, List.mem_filter, List.isPrefixOf_iff_prefix]

theorem mem_objects_of_kept (h : ∀ k ∈ c.keys, q.toList <+: k.toList → Path.fromStr k = k) :
    k ∈ c.views.objects q ↔ (k ∈ c.keys ∧ q.toList <+: k.toList) ∧ directoryOf q.toList (relativePath q.toList k.toList) = none := by
  rw [c.objects_eq, List.mem_filter, mem_list_of_kept h, Option.isNone_iff_eq_none]

theorem mem_commonPrefixes_of_kept (h : ∀ k ∈ c.keys, q.toList <+: k.toList → Path.fromStr k = k) :
    d ∈ c.views.commonPrefixes q ↔ ∃ D, (∃ k, (k ∈ c.keys ∧ q.toList <+: k.toList) ∧
      directoryOf q.toList (relativePath q.toList k.toList) = some D) ∧ Path.fromStr D = d := by
  rw [c.commonPrefixes_eq, List.mem_map]
  refine exists_congr fun D => and_congr_left fun _ => ?_
  rw [(List.perm_insertionSort _ _).mem_iff, List.mem_dedup, List.mem_filterMap]
  exact exists_congr fun k => and_congr_left fun _ => mem_list_of_kept h

/-- What is a key below a path is an object of it, or lies in a directory of it. -/
theorem object_of_child (hq : Path.IsPath q) (hfix : ∀ k ∈ c.keys, q.toList <+: k.toList → Path.fromStr k = k) (hk : k ∈ c.keys)
    {x : List Char} (hs : segments k = segments q ++ [x]) : k ∈ c.views.objects q := by
  have hkp := c.isPath_of_mem hk
  have hx : IsName x := isName_of_mem_segments (k := k) (by simp [hs])
  rw [mem_objects_of_kept hfix]
  refine ⟨⟨hk, prefix_of_under hq hkp ⟨_, hs.symm⟩⟩, ?_⟩
  rw [relativePath_below hq hkp hs, directoryOf_eq hq hx.2, if_pos rfl]

theorem object_of_self (hfix : ∀ k ∈ c.keys, q.toList <+: k.toList → Path.fromStr k = k) (hk : q ∈ c.keys) : q ∈ c.views.objects q := by
  rw [mem_objects_of_kept hfix, relativePath_self]
  exact ⟨⟨hk, List.prefix_rfl⟩, rfl⟩

/-- A directory right below a path is reported. -/
theorem reported_of_directory (hq : Path.IsPath q) (hfix : ∀ k ∈ c.keys, q.toList <+: k.toList → Path.fromStr k = k)
    {x : List Char} (hd : Directory c.keys d) (hs : segments d = segments q ++ [x]) : d ∈ c.views.commonPrefixes q := by
  obtain ⟨hdp, k, hk, ⟨r, hr⟩, hne⟩ := hd
  have hkp := c.isPath_of_mem hk
  cases r with
  | nil => exact absurd (segments_injective hdp hkp (by rw [← hr, List.append_nil])) hne
  | cons y r =>
    have hks : segments k = segments q ++ x :: y :: r := by rw [← hr, hs]; simp
    have hx : IsName x := isName_of_mem_segments (k := k) (by simp [hks])
    have hpre : q.toList <+: k.toList := prefix_of_under hq hkp ⟨_, hks.symm⟩
    rw [mem_commonPrefixes_of_kept hfix]
    refine ⟨dirText q x, ⟨k, ⟨hk, hpre⟩, ?_⟩, ?_⟩
    · rw [relativePath_below hq hkp hks, directoryOf_eq hq hx.2, if_neg (List.cons_ne_nil _ _)]
    · have hparts := (fromStr_eq_iff_parts hkp).mp (hfix k hk hpre)
      have hsame : (segments q ++ [x]).map Path.encodePart = segments q ++ [x] :=
        (List.map_congr_left fun a ha => hparts a (by rw [← hr, hs]; exact List.mem_append_left _ ha)).trans (List.map_id _)
      rw [fromStr_dirText hx, hsame, ← hs, joinParts_segments hdp]

end PathCluster

/-! ## Keys kept apart -/

theorem fromStr_dirText_eq {x : List Char} (hx : IsName x) (hs : segments d = segments q ++ [x]) :
    Path.fromStr (dirText q x) = Path.fromStr d := by
  rw [fromStr_dirText hx, ← hs, fromStr_eq_joinParts]

/-- The text that a key goes on with up to the next slash. -/
theorem name_unique {x name rest : List Char} {r : List (List Char)} (hx : '/' ∉ x) (hname : '/' ∉ name)
    (h : x ++ tailText r = name ++ '/' :: rest) : name = x ∧ r ≠ [] := by
  have hslash : '/' ∈ x ++ tailText r := by simp [h]
  have h1 := takeWhile_name hname []
  have hall : ∀ c ∈ name, (c != '/') = true := fun c hc => by simpa using fun he : c = '/' => hname (he ▸ hc)
  have h2 : (name ++ '/' :: rest).takeWhile (· != '/') = name := by
    rw [List.takeWhile_append_of_pos hall]
    simp
  exact ⟨by rw [← h2, ← h, takeWhile_name hx], (slash_mem_iff hx r).mp hslash⟩

namespace Separate

variable {K : List Key}

theorem kept_below (h : Separate K p) (hp : Path.IsPath p) (hq : Path.IsPath q) (hu : Under p q) (hk : k ∈ K)
    (hpre : q.toList <+: k.toList) : Under p k ∧ Path.fromStr k = k :=
  h.kept k hk ((prefix_of_under hp hq hu).trans hpre)

/-- A directory under the prefix is its own path. -/
theorem directory_kept (h : Separate K p) (hp : Path.IsPath p) (hK : ∀ k ∈ K, Path.IsPath k) (hd : Directory K d)
    (hu : Under p d) : Path.fromStr d = d := by
  obtain ⟨hdp, k, hk, huk, -⟩ := hd
  have hkept := (h.kept_below hp hdp hu hk (prefix_of_under hdp (hK k hk) huk)).2
  obtain ⟨r, hr⟩ := huk
  refine (fromStr_eq_iff_parts hdp).mpr fun c hc => (fromStr_eq_iff_parts (hK k hk)).mp hkept c ?_
  rw [← hr]
  exact List.mem_append_left _ hc

/-- What `list_with_delimiter` makes of a key that has the text of a node first: an object if the key is the node or right
    below it, and otherwise a directory right below the node. -/
theorem placed (h : Separate K p) (hp : Path.IsPath p) (hK : ∀ k ∈ K, Path.IsPath k) (hq : Node K p q) (hk : k ∈ K)
    (hpre : q.toList <+: k.toList) :
    (k = q ∨ ∃ x, segments k = segments q ++ [x]) ∧ directoryOf q.toList (relativePath q.toList k.toList) = none ∨
    k ≠ q ∧ (¬ ∃ x, segments k = segments q ++ [x]) ∧ ∃ x d, IsName x ∧ Directory K d ∧ segments d = segments q ++ [x] ∧
      directoryOf q.toList (relativePath q.toList k.toList) = some (dirText q x) := by
  have hqp := hq.isPath hp
  have hkp := hK k hk
  rcases cases_of_prefix hqp hkp hpre with rfl | ⟨x, r, hx, hrel, hs⟩
  · rw [relativePath_self]
    exact .inl ⟨.inl rfl, rfl⟩
  rw [hrel, directoryOf_eq hqp hx.2]
  rcases hs with hs | ⟨hnu, init, c, hsplit⟩
  · cases r with
    | nil => exact .inl ⟨.inr ⟨x, hs⟩, rfl⟩
    | cons y r =>
      obtain ⟨h1, h2⟩ := segments_first (l := segments q ++ [x]) (r := y :: r) hkp (by rw [hs]; simp)
      have hks : segments k = segments (joinParts (segments q ++ [x])) ++ y :: r := by rw [h1, hs]; simp
      refine .inr ⟨ne_of_segments hs (by simp), ?_, x, _, hx, ⟨h2, k, hk, under_of_segments hks, ?_⟩, h1, rfl⟩
      · rintro ⟨z, hz⟩
        rw [hs] at hz
        simp at hz
      · exact (ne_of_segments hks (by simp)).symm
  · -- the key is no key below the prefix itself, so the node is a directory
    rcases hq with rfl | ⟨hdir, hu, hne⟩
    · exact absurd (h.kept k hk hpre).1 hnu
    · obtain ⟨name, rest, d, htext, hname, hdt, hd⟩ := h.apart q hdir hu hne k hk hpre hnu
      obtain ⟨rfl, hr⟩ := name_unique hx.2 hname (List.append_cancel_left (hsplit.text.symm.trans htext))
      have hq0 : q.toList ≠ [] := fun h0 => hnu (by rw [String.toList_eq_nil_iff.mp h0]; exact List.nil_prefix)
      have hdj : d = joinParts (segments q ++ [name]) :=
        String.toList_injective (by rw [toList_joinParts_snoc hqp, if_neg hq0, hdt])
      have hsegs : segments d = segments q ++ [name] := by
        rw [hdj, segments_joinParts]
        intro a ha
        rcases List.mem_append.mp ha with ha | ha
        · exact isName_of_mem_segments ha
        · rw [List.mem_singleton.mp ha]
          exact hx
      refine .inr ⟨?_, ?_, name, d, hx, hd, hsegs, by rw [if_neg hr]⟩
      · rintro rfl
        exact hnu (.refl _)
      · rintro ⟨z, hz⟩
        exact hnu (under_of_segments hz)

end Separate

namespace PathCluster

variable {c : PathCluster}

/-- Keys that are kept apart are listed as a tree. -/
theorem listsTree_of_separate (h : Separate c.keys p) (hp : Path.IsPath p) : c.views.ListsTree c.keys p True := by
  have hK : ∀ k ∈ c.keys, Path.IsPath k := fun k => c.isPath_of_mem
  have hfix : ∀ q, Node c.keys p q → ∀ k ∈ c.keys, q.toList <+: k.toList → Path.fromStr k = k :=
    fun q hq k hk hpre => (h.kept_below hp (hq.isPath hp) hq.under hk hpre).2
  -- the texts of directories become the directories
  have hdirs : ∀ q, Node c.keys p q → ∀ D, (∃ k, (k ∈ c.keys ∧ q.toList <+: k.toList) ∧
      directoryOf q.toList (relativePath q.toList k.toList) = some D) →
      ∃ x d, Directory c.keys d ∧ segments d = segments q ++ [x] ∧ D = dirText q x ∧ Path.fromStr D = d := by
    rintro q hq D ⟨k, ⟨hk, hpre⟩, hD⟩
    rcases h.placed hp hK hq hk hpre with ⟨-, hnone⟩ | ⟨-, -, x, d, hx, hd, hs, hsome⟩
    · rw [hnone] at hD
      cases hD
    · obtain rfl := Option.some.inj (hsome.symm.trans hD)
      refine ⟨x, d, hd, hs, rfl, ?_⟩
      rw [fromStr_dirText_eq hx hs]
      exact h.directory_kept hp hK hd (hq.under.trans (under_of_segments hs))
  refine ⟨fun q hq => ?_, fun q hq => ?_, fun q hq k => ?_, fun q hq d => ?_⟩
  · rw [c.objects_eq, list_of_kept (hfix q hq)]
    exact (c.nodup_keys.filter _).filter _
  · rw [c.commonPrefixes_eq]
    have hperm := List.perm_insertionSort (· ≤ ·)
      ((c.views.list q).filterMap fun l => directoryOf q.toList (relativePath q.toList l.toList)).dedup
    refine List.Nodup.map_on (fun D hD D' hD' heq => ?_) (hperm.nodup_iff.mpr (List.nodup_dedup _))
    have hmem : ∀ D, D ∈ (((c.views.list q).filterMap fun l => directoryOf q.toList (relativePath q.toList l.toList)).dedup).insertionSort
        (fun a b => a ≤ b) → ∃ x d, Directory c.keys d ∧ segments d = segments q ++ [x] ∧ D = dirText q x ∧ Path.fromStr D = d := by
      intro D hD
      rw [(List.perm_insertionSort _ _).mem_iff, List.mem_dedup, List.mem_filterMap] at hD
      obtain ⟨k, hk, hD⟩ := hD
      exact hdirs q hq D ⟨k, (mem_list_of_kept (hfix q hq)).mp hk, hD⟩
    obtain ⟨x, d, -, hs, rfl, rfl⟩ := hmem D hD
    obtain ⟨x', d', -, hs', rfl, rfl⟩ := hmem D' hD'
    rw [heq, hs', List.append_cancel_left_eq, List.singleton_inj] at hs
    rw [hs]
  · rw [mem_objects_of_kept (hfix q hq)]
    constructor
    · rintro ⟨⟨hk, hpre⟩, hnone⟩
      refine ⟨hk, ?_⟩
      rcases h.placed hp hK hq hk hpre with ⟨rfl | hx, -⟩ | ⟨-, -, x, d, -, -, -, hsome⟩
      · -- a directory that is a key is the prefix
        rcases hq with rfl | ⟨hdir, hu, hne⟩
        · exact .inr ⟨rfl, rfl, trivial⟩
        · exact absurd (h.noKey k hk hdir hu) hne
      · exact .inl hx
      · rw [hnone] at hsome
        cases hsome
    · rintro ⟨hk, ⟨x, hx⟩ | ⟨rfl, rfl, -⟩⟩
      · have := object_of_child (hq.isPath hp) (hfix q hq) hk hx
        exact (mem_objects_of_kept (hfix q hq)).mp this
      · exact (mem_objects_of_kept (hfix k hq)).mp (object_of_self (hfix k hq) hk)
  · constructor
    · intro hd
      obtain ⟨D, hD, rfl⟩ := (mem_commonPrefixes_of_kept (hfix q hq)).mp hd
      obtain ⟨x, d, hdir, hs, -, rfl⟩ := hdirs q hq D hD
      exact ⟨hdir, x, hs⟩
    · rintro ⟨hdir, x, hs⟩
      exact reported_of_directory (hq.isPath hp) (hfix q hq) hdir hs

theorem agree_of_separate (h : Separate c.keys p) (hp : Path.IsPath p) : c.views.Agree c.keys p := by
  refine (listsTree_of_separate h hp).agree hp (fun k => c.isPath_of_mem) ?_ fun _ => trivial
  rw [list_of_kept fun k hk hpre => (h.kept k hk hpre).2]
  refine ⟨c.nodup_keys.filter _, fun k => ?_⟩
  rw [List.mem_filter, List.isPrefixOf_iff_prefix]
  exact and_congr_right fun hk => ⟨fun hpre => (h.kept k hk hpre).1, prefix_of_under hp (c.isPath_of_mem hk)⟩

/-! ## Views that agree -/

/-- The views give the keys under a prefix that they hold, so `Path::from` changes none of them: a changed key is changed
    again, and has more characters each time. -/
theorem kept_of_agree (hp : Path.IsPath p) (h : c.views.Agree c.keys p) (hk : k ∈ c.keys) (hpre : p.toList <+: k.toList) :
    Under p k ∧ Path.fromStr k = k := by
  have hlisted : ∀ k ∈ c.keys, p.toList <+: k.toList → Path.fromStr k ∈ c.keys ∧ Under p (Path.fromStr k) := fun k hk hpre => by
    refine (h.listed.2 _).mp ?_
    rw [c.list_eq]
    exact List.mem_map_of_mem (List.mem_filter.mpr ⟨hk, List.isPrefixOf_iff_prefix.mpr hpre⟩)
  obtain ⟨n, hn⟩ := exists_bound (fun k => (segments k).flatten.length) c.keys
  have hkept : Path.fromStr k = k := by
    induction hj : n - (segments k).flatten.length using Nat.strong_induction_on generalizing k with
    | _ j ih =>
      by_contra hne
      obtain ⟨hlt, hagain⟩ := fromStr_ne (c.isPath_of_mem hk) hne
      obtain ⟨hmem, hu⟩ := hlisted k hk hpre
      have hle := hn _ hmem
      exact hagain (ih _ (by omega) hmem (prefix_of_under hp (isPath_fromStr k) hu) rfl)
  have := (hlisted k hk hpre).2
  rw [hkept] at this
  exact ⟨this, hkept⟩

section Agree

variable (hp : Path.IsPath p) (h : c.views.Agree c.keys p)

include hp h

theorem kept_under (hq : Path.IsPath q) (hu : Under p q) : ∀ k ∈ c.keys, q.toList <+: k.toList → Path.fromStr k = k :=
  fun _ hk hpre => (kept_of_agree hp h hk ((prefix_of_under hp hq hu).trans hpre)).2

omit hp in
/-- A key is an object of one path that is visited. -/
theorem one_holder {n m : Nat} (hd : d ∈ visits c.views.commonPrefixes n p) (hq : q ∈ visits c.views.commonPrefixes m p)
    (hk : k ∈ c.views.objects d) (hk' : k ∈ c.views.objects q) : d = q := by
  obtain ⟨j, hj⟩ := h.expanded
  have hnodup := (hj (max j (max n m)) (le_max_left _ _)).1
  exact eq_of_nodup_collected hnodup (visits_mono (by omega) hd) (visits_mono (by omega) hq) hk hk'

theorem visited (hq : Node c.keys p q) : q ∈ visits c.views.commonPrefixes ((segments q).length + 1) p :=
  Node.visited hp (fun _ hq _ _ hd hs => reported_of_directory (hq.isPath hp) (kept_under hp h (hq.isPath hp) hq.under) hd hs) hq

/-- A directory below the prefix that is a key would be listed by itself and by the path above. -/
theorem noKey_of_agree (hk : d ∈ c.keys) (hd : Directory c.keys d) (hu : Under p d) : d = p := by
  by_contra hne
  obtain ⟨k, hkK, huk, -⟩ := hd.2
  obtain ⟨hnode, x, hx⟩ := node_above hp hd.1 ⟨k, hkK, huk⟩ hu hne
  have hup := hnode.isPath hp
  have hsame := one_holder h (visited hp h (.inr ⟨hd, hu, hne⟩)) (visited hp h hnode)
    (object_of_self (kept_under hp h hd.1 hu) hk) (object_of_child hup (kept_under hp h hup hnode.under) hk hx)
  exact ne_of_segments hx (by simp) hsame

/-- A key that has the text of a directory first, and does not lie under it. -/
theorem apart_of_agree (hd : Directory c.keys d) (hu : Under p d) (hne : d ≠ p) (hk : k ∈ c.keys) (hpre : d.toList <+: k.toList)
    (hnu : ¬ Under d k) : ∃ name rest d', k.toList = d.toList ++ (name ++ '/' :: rest) ∧ '/' ∉ name ∧
      d'.toList = d.toList ++ '/' :: name ∧ Directory c.keys d' := by
  have hkp := c.isPath_of_mem hk
  have hd0 : d ≠ "" := fun h0 => hnu (by rw [h0]; exact List.nil_prefix)
  have hfix := kept_under hp h hd.1 hu
  have hvisit := visited hp h (.inr ⟨hd, hu, hne⟩)
  obtain ⟨init, a, y, rest, hsplit⟩ := splits_of_prefix hd.1 hkp hd0 hpre
  have hy : IsName y := ⟨fun hy => hnu (hsplit.under.mpr hy), hsplit.slash⟩
  have hdir := directoryOf_eq hd.1 hy.2 rest
  rw [← relativePath_beside hsplit hy.1] at hdir
  cases rest with
  | nil =>
    -- the key is an object of the directory and of the path above
    obtain ⟨k', hk', huk', -⟩ := hd.2
    obtain ⟨hnode, x, hx⟩ := node_above hp hd.1 ⟨k', hk', huk'⟩ hu hne
    have hup := hnode.isPath hp
    have hinit : segments (above d) = init := by
      rw [hsplit.short] at hx
      exact (List.append_inj' hx rfl).1.symm
    have hs : segments k = segments (above d) ++ [a ++ y] := by rw [hinit, hsplit.long]
    have hobj : k ∈ c.views.objects d := (mem_objects_of_kept hfix).mpr ⟨⟨hk, hpre⟩, hdir⟩
    have hsame := one_holder h hvisit (visited hp h hnode) hobj (object_of_child hup (kept_under hp h hup hnode.under) hk hs)
    exact absurd hsame (ne_of_segments hx (by simp))
  | cons z rest =>
    -- the directory it is put in has a key below, whose segments are not encoded
    have hrep : Path.fromStr (dirText d y) ∈ c.views.commonPrefixes d :=
      (mem_commonPrefixes_of_kept hfix).mpr ⟨_, ⟨k, ⟨hk, hpre⟩, hdir⟩, rfl⟩
    obtain ⟨hud, -, k', hk', huk'⟩ := h.reported _ d hvisit _ hrep
    have hdp' := isPath_fromStr (dirText d y)
    have hsegs : segments (Path.fromStr (dirText d y)) = (segments d ++ [y]).map Path.encodePart := by
      rw [Path.segments_fromStr, segments_dirText hy]
    have hkp' := c.isPath_of_mem hk'
    have hkept := (kept_of_agree hp h hk' (prefix_of_under hp hkp' ((hu.trans hud).trans huk'))).2
    have hparts := (fromStr_eq_iff_parts hkp').mp hkept
    have hencode : Path.encodePart y = y := by
      refine encodePart_encodePart (hparts _ (huk'.subset ?_))
      simp [hsegs]
    have hname : segments (Path.fromStr (dirText d y)) = segments d ++ [y] := by
      rw [hsegs, List.map_append, List.map_singleton, hencode]
      refine congrArg (· ++ [y]) ((List.map_congr_left fun b hb => ?_).trans (List.map_id _))
      exact hparts b (huk'.subset (hud.subset hb))
    have htext : (Path.fromStr (dirText d y)).toList = d.toList ++ '/' :: y := by
      rw [← joinParts_segments hdp', hname, toList_joinParts_snoc hd.1, if_neg (toList_ne_nil hd0)]
    refine ⟨y, z ++ tailText rest, _, by rw [hsplit.text, tailText_cons], hy.2, htext, hdp', k', hk', huk', ?_⟩
    rintro rfl
    -- a key there is an object of the directory and of itself
    have hsame := one_holder h hvisit (mem_visits_of_kid hvisit hrep) (object_of_child hd.1 hfix hk' hname)
      (object_of_self (kept_under hp h hdp' (hu.trans hud)) hk')
    exact ne_of_segments hname (by simp) hsame.symm

end Agree

/-- The views of the cluster agree under a prefix if and only if the keys are kept apart. -/
theorem agree_iff (hp : Path.IsPath p) : c.views.Agree c.keys p ↔ Separate c.keys p := by
  refine ⟨fun h => ⟨fun k hk hpre => kept_of_agree hp h hk hpre, fun d hk hd hu => noKey_of_agree hp h hk hd hu,
    fun d hd hu hne k hk hpre hnu => apart_of_agree hp h hd hu hne hk hpre hnu⟩, fun h => agree_of_separate h hp⟩

end PathCluster

/-! ## The same answers -/

structure Views.Same (v w : Views) (p : Key) : Prop where
  list : (v.list p).Perm (w.list p)
  objects : (v.objects p).Perm (w.objects p)
  commonPrefixes : (v.commonPrefixes p).Perm (w.commonPrefixes p)

/-- Trees over the same keys are the same, if both list the prefix when it is a key. -/
theorem Views.ListsTree.same {v w : Views} {K L : List Key} {own own' : Prop} (hv : v.ListsTree K p own) (hw : w.ListsTree L p own')
    (hsame : ∀ k, k ∈ K ↔ k ∈ L) (hown : p ∈ K → own ∧ own') :
    (v.objects p).Perm (w.objects p) ∧ (v.commonPrefixes p).Perm (w.commonPrefixes p) := by
  have hp : Node K p p := .inl rfl
  have hp' : Node L p p := .inl rfl
  constructor
  · refine (List.perm_ext_iff_of_nodup (hv.nodupObjects p hp) (hw.nodupObjects p hp')).mpr fun k => ?_
    rw [hv.mem_objects p hp, hw.mem_objects p hp', ← hsame]
    refine and_congr_right fun hk => or_congr_right (and_congr_right fun _ => and_congr_right fun hkp => ?_)
    have := hown (hkp ▸ hk)
    exact iff_of_true this.1 this.2
  · refine (List.perm_ext_iff_of_nodup (hv.nodupPrefixes p hp) (hw.nodupPrefixes p hp')).mpr fun d => ?_
    rw [hv.mem_prefixes p hp, hw.mem_prefixes p hp']
    simp only [Directory, hsame]

/-- A raw store and a cluster that hold the same keys have views that agree, and the same ones, if and only if the prefix
    is no key of theirs and the keys are kept apart. -/
theorem listing_views_agree_iff (s : PathStore) (c : PathCluster) (hp : Path.IsPath p) (hsame : ∀ k, k ∈ s.keys ↔ k ∈ c.keys) :
    (s.views.Agree s.keys p ∧ c.views.Agree c.keys p ∧ s.views.Same c.views p) ↔ (p = "" ∨ p ∉ s.keys) ∧ Separate c.keys p := by
  constructor
  · rintro ⟨hs, hc, -⟩
    exact ⟨(PathStore.agree_iff hp).mp hs, (PathCluster.agree_iff hp).mp hc⟩
  · rintro ⟨hs, hc⟩
    have h1 := (PathStore.agree_iff hp).mpr hs
    have h2 := (PathCluster.agree_iff hp).mpr hc
    obtain ⟨hobjects, hprefixes⟩ := (s.listsTree hp).same (PathCluster.listsTree_of_separate hc hp) hsame
      fun hk => ⟨hs.resolve_right (not_not.mpr hk), trivial⟩
    refine ⟨h1, h2, (List.perm_ext_iff_of_nodup h1.listed.1 h2.listed.1).mpr fun k => ?_, hobjects, hprefixes⟩
    rw [h1.listed.2, h2.listed.2, hsame]

namespace Sample

open ObjStr.Raw.Sample ObjStr.Sharded.Sample

def catalogOf (keys : List Key) : FMap PlacementEntry := keys.foldr (fun k m => m.insert k ⟨[0], 1, none, 0, 0⟩) ∅

def holding (keys : List Key) (h : ((catalogOf keys).entries.all fun e => Path.isPath e.1) = true) : PathCluster where
  sys := { sys 1 (config 1 1) fun _ => fresh with cluster := { cluster 1 (config 1 1) with catalog := ⟨catalogOf keys, false⟩ } }
  isPath := fun e he => (Path.isPath_iff _).mp (List.all_eq_true.mp h e he)

/-- Two files of a directory, one of them a directory further down, and one beside it. -/
def tree : List Key := ["a/x", "a/y/z", "b"]

def filesOf (keys : List Key) : Raw.Store :=
  { plainStore [1] with files := keys.foldr (fun k m => m.insert k (plainInfo [1])) (∅ : FMap ExtentInfo) }

def treeFiles : PathStore where
  store := filesOf tree
  isPath := by
    have hall : ((filesOf tree).snapshot.all fun e => Path.isPath e.1) = true := by decide +kernel
    exact fun e he => (Path.isPath_iff _).mp (List.all_eq_true.mp hall e he)

def treeKeys : PathCluster := holding tree (by decide +kernel)

theorem separate_tree : Separate tree "a" where
  kept := by decide +kernel
  noKey d hd hdir hu := by
    obtain ⟨-, k, hk, huk, hne⟩ := hdir
    revert d k
    decide +kernel
  apart d hdir hu hne k hk hpre hnot := by
    obtain ⟨hpath, k', hk', huk', -⟩ := hdir
    -- a directory whose text comes first is one of the texts that come first
    have hall : ∀ k ∈ tree, ∀ l ∈ k.toList.inits, Under "a" (String.ofList l) → String.ofList l ≠ "a" →
        (∃ k' ∈ tree, Under (String.ofList l) k') → Path.isPath (String.ofList l) = true → Under (String.ofList l) k := by
      decide +kernel
    have hunder := hall k hk d.toList ((List.mem_inits _ _).mpr hpre)
    rw [String.ofList_toList] at hunder
    exact absurd (hunder hu hne ⟨k', hk', huk'⟩ ((Path.isPath_iff d).mpr hpath)) hnot

/-- A directory, and a file whose name begins like that of the directory. -/
def siblings : PathCluster := holding ["a/x", "ab"] (by decide +kernel)

end Sample

open Sample in
theorem views_of_a_tree_agree : treeFiles.views.Agree treeFiles.keys "a" ∧ treeKeys.views.Agree treeKeys.keys "a" ∧
    treeFiles.views.Same treeKeys.views "a" := by
  have hraw : treeFiles.keys = tree := by decide +kernel
  have hsharded : treeKeys.keys = tree := by decide +kernel
  refine (listing_views_agree_iff treeFiles treeKeys ((Path.isPath_iff _).mp (by decide +kernel)) fun k => by rw [hraw, hsharded]).mpr ⟨.inr ?_, ?_⟩
  · rw [hraw]
    decide +kernel
  · rw [hsharded]
    exact separate_tree

open Sample in
/-- `list` for a directory gives its sibling too. -/
theorem a_sibling_is_listed : ¬ ∀ (c : PathCluster) (p : Key), Path.IsPath p → c.views.Agree c.keys p := by
  intro h
  have hlist : "ab" ∈ siblings.views.list "a" := by decide +kernel
  have hunder := ((h siblings "a" ((Path.isPath_iff _).mp (by decide +kernel))).listed.2 "ab").mp hlist
  have hnot : ¬ segments "a" <+: segments "ab" := by decide +kernel
  exact hnot hunder.2

end ObjStr.S3
