/-
  ObjStr.S3.Stored — the keys a bucket stores, and what a listing of the backend under a path has of them.

  Under a path the backend lists what it lists without one and goes on behind the path (`Backend.Lists.stored`,
  `Backend.Lists.behind`); an object at the very path is listed by raw stores (`Backend.Lists.itself`) and by others as they
  please. `list_objects_v2` asks for what is under the directory of its prefix, and every stored key that begins with the prefix
  goes on behind it (`mem_candidates_iff`).
-/

import ObjStr.S3.Listing

namespace ObjStr.S3

open ObjStr.Lib ObjStr.Raw ObjStr.Sharded

/-! ## Listing under a path -/

theorem mem_listWithMeta_under {s : Raw.Store} {p : Key} {item : ObjectMeta × UInt16} :
    item ∈ s.listWithMeta (some p) ↔ item ∈ s.listWithMeta none ∧ Path.prefixMatches item.1.location p = true := by
  have hfilter : s.listWithMeta (some p) = (s.listWithMeta none).filter fun item => Path.prefixMatches item.1.location p := by
    unfold Raw.Store.listWithMeta
    rw [List.filter_map, List.filter_filter]
    simp only [Raw.Store.under, Bool.and_true]
    rfl
  rw [hfilter, List.mem_filter]

namespace ListedShard

variable {shard : ListedShard} {p : Key} {item : ObjectMeta × UInt16}

theorem of_mem_items_under (h : item ∈ shard.items (some p)) :
    item ∈ shard.items none ∧ Path.prefixMatches item.1.location p = true := by
  cases shard with
  | raw s =>
    obtain ⟨hitem, hmark⟩ := List.mem_filter.mp h
    obtain ⟨hitem, hunder⟩ := mem_listWithMeta_under.mp hitem
    exact ⟨List.mem_filter.mpr ⟨hitem, hmark⟩, hunder⟩
  | store s =>
    obtain ⟨info, hinfo, rfl⟩ := List.mem_map.mp h
    obtain ⟨hlisted, hshown⟩ := List.mem_filter.mp hinfo
    obtain ⟨hobject, hunder⟩ := s.list_under p info hlisted
    exact ⟨List.mem_map_of_mem (List.mem_filter.mpr ⟨(s.list_all info).mpr hobject, hshown⟩), hunder⟩

theorem mem_items_behind (h : item ∈ shard.items none) (hunder : Path.prefixMatches item.1.location p = true)
    (hne : item.1.location ≠ p) : item ∈ shard.items (some p) := by
  cases shard with
  | raw s =>
    obtain ⟨hitem, hmark⟩ := List.mem_filter.mp h
    exact List.mem_filter.mpr ⟨mem_listWithMeta_under.mpr ⟨hitem, hunder⟩, hmark⟩
  | store s =>
    obtain ⟨info, hinfo, rfl⟩ := List.mem_map.mp h
    obtain ⟨hlisted, hshown⟩ := List.mem_filter.mp hinfo
    have hbehind := s.list_behind p info ((s.list_all info).mp hlisted) hunder hne
    exact List.mem_map_of_mem (List.mem_filter.mpr ⟨hbehind, hshown⟩)

end ListedShard

namespace Backend

variable {b : Backend} {p location : Key}

/-- Under a path nothing is listed that is not listed without one. -/
theorem Lists.stored (h : b.Lists (some p) location) : b.Lists none location ∧ Path.prefixMatches location p = true := by
  cases b with
  | raw s =>
    obtain ⟨item, hitem, rfl⟩ := h
    obtain ⟨hitem, hunder⟩ := mem_listWithMeta_under.mp hitem
    exact ⟨⟨item, hitem, rfl⟩, hunder⟩
  | sharded shards =>
    obtain ⟨shard, hshard, item, hitem, rfl⟩ := lists_sharded_iff.mp h
    obtain ⟨hitem, hunder⟩ := ListedShard.of_mem_items_under hitem
    exact ⟨lists_sharded_iff.mpr ⟨shard, hshard, item, hitem, rfl⟩, hunder⟩

/-- What goes on behind a path is listed under it. -/
theorem Lists.behind (h : b.Lists none location) (hunder : Path.prefixMatches location p = true) (hne : location ≠ p) :
    b.Lists (some p) location := by
  cases b with
  | raw s =>
    obtain ⟨item, hitem, rfl⟩ := h
    exact ⟨item, mem_listWithMeta_under.mpr ⟨hitem, hunder⟩, rfl⟩
  | sharded shards =>
    obtain ⟨shard, hshard, item, hitem, rfl⟩ := lists_sharded_iff.mp h
    exact lists_sharded_iff.mpr ⟨shard, hshard, item, ListedShard.mem_items_behind hitem hunder hne, rfl⟩

def IsRaw : Backend → Prop
  | .raw _ => True
  | .sharded shards => ∀ shard ∈ shards, ∃ s, shard = .raw s

/-- A raw store also lists an object at the very path. -/
theorem Lists.itself (h : b.Lists none location) (hraw : b.IsRaw) (hunder : Path.prefixMatches location p = true) :
    b.Lists (some p) location := by
  cases b with
  | raw s =>
    obtain ⟨item, hitem, rfl⟩ := h
    exact ⟨item, mem_listWithMeta_under.mpr ⟨hitem, hunder⟩, rfl⟩
  | sharded shards =>
    obtain ⟨shard, hshard, item, hitem, rfl⟩ := lists_sharded_iff.mp h
    refine lists_sharded_iff.mpr ⟨shard, hshard, item, ?_, rfl⟩
    obtain ⟨s, rfl⟩ := hraw shard hshard
    obtain ⟨hitem, hmark⟩ := List.mem_filter.mp hitem
    exact List.mem_filter.mpr ⟨mem_listWithMeta_under.mpr ⟨hitem, hunder⟩, hmark⟩

end Backend

/-! ## Stored keys -/

/-- The location of a key that is listed. -/
theorem eq_of_listedKey {bucket location key : Key} (hpath : Path.IsPath location) (h : listedKey bucket location = some key) :
    location = bucket ++ "/" ++ marked key := by
  unfold listedKey at h
  rw [Option.filter_eq_some_iff, Option.bind_eq_some_iff] at h
  obtain ⟨⟨raw, hraw, hkey⟩, -⟩ := h
  obtain rfl := stripPrefix_eq_some.mp hraw
  have hslash : ¬ endsWith raw "/" = true := by
    intro he
    obtain ⟨l, rfl⟩ := endsWith_iff.mp he
    refine not_endsWith_slash hpath (endsWith_iff.mpr ⟨bucket ++ "/" ++ l, ?_⟩)
    simp only [String.append_assoc]
  rw [marked_of_unmarked hslash hkey]

def Adapter.Stores (a : Adapter) (bucket key : Key) : Prop :=
  ∃ item ∈ a.backend.listWithMeta none, listedKey bucket item.1.location = some key

theorem Adapter.stores_iff {a : Adapter} {bucket key : Key} :
    a.Stores bucket key ↔ ∃ location, a.backend.Lists none location ∧ listedKey bucket location = some key := by
  constructor
  · intro h
    obtain ⟨item, hitem, hkey⟩ := h
    exact ⟨_, ⟨item, hitem, rfl⟩, hkey⟩
  · intro h
    obtain ⟨location, ⟨item, hitem, rfl⟩, hkey⟩ := h
    exact ⟨item, hitem, hkey⟩

theorem prefixMatches_self (p : Key) : Path.prefixMatches p p = true := by
  unfold Path.prefixMatches
  simp

/-- A text that has another one and a slash behind it first goes on behind it. -/
theorem behind_of_slash {location p : Key} {rest : List Char} (h : location.toList = p.toList ++ '/' :: rest) :
    Path.prefixMatches location p = true ∧ location ≠ p := by
  constructor
  · unfold Path.prefixMatches
    rw [h, List.drop_left]
    simp
  · rintro rfl
    have hlength := congrArg List.length h
    rw [List.length_append, List.length_cons] at hlength
    omega

/-- The prefix up to its last slash ends with it, or is empty. -/
theorem dirPrefix_cases (req : ListRequest) : ∃ dir rest : List Char, req.prefixStr.toList = dir ++ rest ∧
    req.dirPrefix = req.bucket ++ "/" ++ String.ofList dir ∧ (dir = [] ∨ ∃ front, dir = front ++ ['/']) := by
  refine ⟨(req.prefixStr.toList.reverse.dropWhile (· != '/')).reverse, (req.prefixStr.toList.reverse.takeWhile (· != '/')).reverse, ?_, rfl, ?_⟩
  · rw [← List.reverse_append, List.takeWhile_append_dropWhile, List.reverse_reverse]
  · cases hdrop : req.prefixStr.toList.reverse.dropWhile (· != '/') with
    | nil => exact .inl rfl
    | cons c l =>
      have hc := List.head_dropWhile_not (· != '/') (l := req.prefixStr.toList.reverse) (by rw [hdrop]; exact List.cons_ne_nil _ _)
      simp only [hdrop, List.head_cons, bne_eq_false_iff_eq] at hc
      exact .inr ⟨l.reverse, by rw [List.reverse_cons, hc]⟩

/-- The path of a key that begins with a text that is empty or ends with a slash goes on behind that text. -/
theorem under_directory {bucket location key : Key} {dir rest : List Char} (hpath : Path.IsPath location)
    (hkey : location = bucket ++ "/" ++ marked key) (hpre : key.toList = dir ++ rest) (hdir : dir = [] ∨ ∃ front, dir = front ++ ['/']) :
    Path.prefixMatches location (rawPath (bucket ++ "/" ++ String.ofList dir)) = true ∧
      location ≠ rawPath (bucket ++ "/" ++ String.ofList dir) := by
  obtain ⟨tail, htail⟩ := exists_marked key
  have hloc : location.toList = bucket.toList ++ '/' :: (dir ++ (rest ++ tail)) := by
    rw [hkey, toList_inBucket, htail, hpre, List.append_assoc]
  -- the text up to the last slash, without it
  obtain ⟨front, hfront, hdirText⟩ : ∃ front : List Char, (∃ t, location.toList = front ++ '/' :: t) ∧
      bucket ++ "/" ++ String.ofList dir = String.ofList front ++ "/" := by
    rcases hdir with rfl | ⟨init, rfl⟩
    · exact ⟨bucket.toList, ⟨_, hloc⟩, String.toList_injective (by
        rw [toList_inBucket, String.toList_append, String.toList_ofList, String.toList_ofList]; rfl)⟩
    · exact ⟨bucket.toList ++ '/' :: init, ⟨rest ++ tail, by rw [hloc]; simp⟩, String.toList_injective (by
        rw [toList_inBucket, String.toList_append, String.toList_ofList, String.toList_ofList]; simp)⟩
  obtain ⟨t, ht⟩ := hfront
  obtain ⟨hfpath, hne⟩ := isPath_before_slash hpath ht
  rw [hdirText, rawPath_slash hfpath hne]
  exact behind_of_slash (by rw [ht, String.toList_ofList])

/-- The keys of a listing are the stored ones that begin with the prefix. -/
theorem mem_candidates_iff (a : Adapter) (req : ListRequest) (key : Key) :
    (∃ e ∈ candidates req (a.backend.listWithMeta (some (rawPath req.dirPrefix))), e.1 = key) ↔
      a.Stores req.bucket key ∧ startsWith key req.prefixStr = true := by
  have hlisted : (∃ e ∈ candidates req (a.backend.listWithMeta (some (rawPath req.dirPrefix))), e.1 = key) ↔
      (∃ location, a.backend.Lists (some (rawPath req.dirPrefix)) location ∧ listedKey req.bucket location = some key) ∧
        startsWith key req.prefixStr = true := by
    unfold candidates
    constructor
    · intro h
      obtain ⟨e, he, rfl⟩ := h
      obtain ⟨hmem, hpre⟩ := List.mem_filter.mp he
      obtain ⟨item, hitem, hkey⟩ := List.mem_filterMap.mp hmem
      obtain ⟨found, hfound, rfl⟩ := Option.map_eq_some_iff.mp hkey
      exact ⟨⟨_, ⟨item, hitem, rfl⟩, hfound⟩, hpre⟩
    · intro h
      obtain ⟨⟨location, ⟨item, hitem, rfl⟩, hkey⟩, hpre⟩ := h
      have hentry : (listedKey req.bucket item.1.location).map (fun key => (key, item.1)) = some (key, item.1) := by
        rw [hkey]
        rfl
      exact ⟨_, List.mem_filter.mpr ⟨List.mem_filterMap.mpr ⟨item, hitem, hentry⟩, hpre⟩, rfl⟩
  rw [hlisted, Adapter.stores_iff]
  refine and_congr_left fun hpre => exists_congr fun location => and_congr_left fun hkey => ⟨fun h => h.stored.1, fun h => ?_⟩
  obtain ⟨dir, rest, htext, hdir, hslash⟩ := dirPrefix_cases req
  obtain ⟨more, hmore⟩ := List.isPrefixOf_iff_prefix.mp hpre
  have hpath : Path.IsPath location := by
    obtain ⟨item, hitem, rfl⟩ := h
    exact a.backend.listed_paths none item hitem
  have hchars : key.toList = dir ++ (rest ++ more) := by rw [← hmore, htext, List.append_assoc]
  obtain ⟨hunder, hne⟩ := under_directory hpath (eq_of_listedKey hpath hkey) hchars hslash
  rw [hdir]
  exact h.behind hunder hne

end ObjStr.S3
