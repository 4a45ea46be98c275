/-
  ObjStr.S3.Versions — `list_object_versions` (`objstrd/src/adapter.rs`), and whether it lists what `list_objects_v2` lists.

  Buckets have no versions: each key is listed as its only one. The listing asks the backend for what is under the path of the
  whole prefix, where `list_objects_v2` asks for its directory, so a key that goes on within the last segment is missed, and a key
  that is the prefix itself may be: a raw store lists what is at the very path (`Adapter.listsPrefix_of_isRaw`), others need not.
  - `prefixMatches_rawPath_iff`: what is under the path of a text that comes first.
  - `listed_keys`, `versioned_keys`: what the pages of either listing report.
  - `versions_agree_iff`: they report the same keys if and only if the prefix is a directory, or every stored key that begins with
    it has a slash behind it, or is the prefix itself and is listed under its own path.
  - `a_prefix_within_a_segment_is_missed`: a prefix that is the front of a key.
-/

import ObjStr.S3.Roundtrip
import ObjStr.S3.Views

namespace ObjStr.S3

open ObjStr.Lib ObjStr.Raw ObjStr.Sharded
open ObjStr.Sharded.Path (segments)

/-! ## The handler -/

structure VersionsRequest where
  bucket : Key
  pre : Option Key := none
  maxKeys : Option Int := none
  keyMarker : Option Key := none

structure ObjectVersion where
  key : Key
  versionId : String
  isLatest : Bool
  lastModified : DateTime
  size : Nat
  storageClass : String
  owner : Owner

structure VersionsResponse where
  name : Key
  pre : Option Key
  keyMarker : Option Key
  maxKeys : Int
  isTruncated : Bool
  versions : Option (List ObjectVersion)
  nextKeyMarker : Option Key
  nextVersionIdMarker : Option String

namespace VersionsRequest

variable (req : VersionsRequest)

def prefixStr : Key := req.pre.getD ""

def limit : Int := req.maxKeys.getD defaultMaxKeys

/-- `as usize`: what is negative is large. -/
def limitUsize : Nat := if 0 ≤ req.limit then req.limit.toNat else (req.limit + 18446744073709551616).toNat

def marker : Option Key := req.keyMarker.filter fun m => m ≠ ""

def version (key : Key) (item : ObjectMeta) : ObjectVersion where
  key := key
  versionId := "null"
  isLatest := true
  lastModified := item.lastModified
  size := item.size
  storageClass := "STANDARD"
  owner := ⟨"rawobjstr", "rawobjstr"⟩

def versions (listing : List (ObjectMeta × UInt16)) : List ObjectVersion :=
  (((listing.filterMap fun item => (listedKey req.bucket item.1.location).map fun key => (key, item.1)).filter fun e =>
    startsWith e.1 req.prefixStr && req.marker.all (· < e.1)).map fun e => version e.1 e.2).insertionSort fun a b => a.key ≤ b.key

end VersionsRequest

def Adapter.listObjectVersions (a : Adapter) (req : VersionsRequest) : Except S3Error VersionsResponse :=
  if req.bucket ∈ a.buckets then
    let all := req.versions (a.backend.listWithMeta (some (rawPath (req.bucket ++ "/" ++ req.prefixStr))))
    let isTruncated := decide (req.limitUsize < all.length)
    let page := all.take req.limitUsize
    .ok { name := req.bucket
          pre := req.pre
          keyMarker := req.keyMarker
          maxKeys := req.limit
          isTruncated
          versions := if page.isEmpty then none else some page
          nextKeyMarker := if isTruncated then page.getLast?.map ObjectVersion.key else none
          nextVersionIdMarker := if isTruncated then some "" else none }
  else .error .noSuchBucket

/-! ## The clients -/

/-- The answers of a client that asks again, with the next key marker, until an answer is not truncated. -/
def Adapter.listAllVersions (a : Adapter) : Nat → VersionsRequest → Option (Except S3Error (List VersionsResponse))
  | 0, _ => none
  | fuel + 1, req =>
    match a.listObjectVersions req with
    | .error e => some (.error e)
    | .ok r =>
      if r.isTruncated then
        (a.listAllVersions fuel { req with keyMarker := r.nextKeyMarker }).map fun rest => rest.map (r :: ·)
      else some (.ok [r])

def keysOf (answers : List ListResponse) : List Key := answers.flatMap fun r => (r.contents.getD []).map ListedObject.key

def versionKeysOf (answers : List VersionsResponse) : List Key := answers.flatMap fun r => (r.versions.getD []).map ObjectVersion.key

/-- Listed in pages, the objects under a prefix and their versions have the same keys; both listings come to an end. -/
def Adapter.VersionsAgree (a : Adapter) (bucket : Key) (pre : Option Key) (maxKeys maxVersions : Int) : Prop :=
  ∃ bound, ∀ fuel, bound < fuel → ∃ answers versions,
    a.listAll fuel { bucket, pre, maxKeys := some maxKeys } = some (.ok answers) ∧
    a.listAllVersions fuel { bucket, pre, maxKeys := some maxVersions } = some (.ok versions) ∧
    keysOf answers = versionKeysOf versions

/-! ## Under the path of a text -/

/-- What follows the last slash. -/
theorem exists_last_slash {l : List Char} (h : '/' ∈ l) : ∃ front last : List Char, l = front ++ '/' :: last ∧ '/' ∉ last := by
  obtain ⟨last, front, hl, hlast⟩ := List.eq_append_cons_of_mem (List.mem_reverse.mpr h)
  refine ⟨front.reverse, last.reverse, ?_, fun hm => hlast (List.mem_reverse.mp hm)⟩
  have hrev := congrArg List.reverse hl
  rw [List.reverse_reverse] at hrev
  rw [hrev]
  simp

/-- The segments of a text, from a slash on. -/
theorem segments_slash {s : Key} {front back : List Char} (h : s.toList = front ++ '/' :: back) :
    segments s = segments (String.ofList front) ++ segments (String.ofList back) := by
  unfold segments
  rw [h, String.toList_ofList, String.toList_ofList, List.splitOn_append_cons_self, List.filter_append]

/-- The first segment of a text goes up to the first slash. -/
theorem segments_first_name {name t : List Char} (hname : name ≠ []) (hslash : '/' ∉ name) :
    ∃ y rest, segments (String.ofList (name ++ t)) = (name ++ y) :: rest ∧ ∃ z, t = y ++ z := by
  obtain ⟨y, z, rfl, hy, hz⟩ : ∃ y z : List Char, t = y ++ z ∧ '/' ∉ y ∧ (z = [] ∨ ∃ z', z = '/' :: z') := by
    by_cases h : '/' ∈ t
    · obtain ⟨y, z, rfl, hy⟩ := List.eq_append_cons_of_mem h
      exact ⟨y, '/' :: z, rfl, hy, .inr ⟨z, rfl⟩⟩
    · exact ⟨t, [], (List.append_nil t).symm, h, .inl rfl⟩
  have hall : '/' ∉ name ++ y := fun hm => (List.mem_append.mp hm).elim hslash hy
  have hne : (name ++ y).isEmpty = false := by
    rw [List.isEmpty_eq_false_iff]
    exact fun he => hname (List.append_eq_nil_iff.mp he).1
  unfold segments
  rw [String.toList_ofList, ← List.append_assoc]
  rcases hz with rfl | ⟨z, rfl⟩
  · rw [List.append_nil, List.splitOn_eq_singleton hall, List.filter_cons, hne]
    exact ⟨y, [], rfl, [], by simp⟩
  · rw [List.splitOn_append_cons_self_of_not_mem hall, List.filter_cons, hne]
    exact ⟨y, _, rfl, '/' :: z, rfl⟩

theorem rawPath_of_not_isPath {location p : Key} {t : List Char} (hpath : Path.IsPath location) (hpre : location.toList = p.toList ++ t)
    (hnil : p.toList ≠ []) (hslash : ¬ endsWith p "/" = true) (hp : ¬ Path.IsPath p) : rawPath p = Path.fromStr p := by
  have hhead : p.toList.head? ≠ some '/' := by
    intro h
    obtain ⟨rest, hrest⟩ := List.head?_eq_some_iff.mp h
    rw [hrest] at hpre
    exact (ne_slash_of_isPath hpath (hpre : location.toList = [] ++ _)).1 rfl
  have hlast : p.toList.getLast? ≠ some '/' := by
    intro h
    obtain ⟨front, hfront⟩ := List.getLast?_eq_some_iff.mp h
    exact hslash (endsWith_iff.mpr ⟨String.ofList front, String.toList_injective (by
      rw [hfront, String.toList_append, String.toList_ofList]
      rfl)⟩)
  unfold rawPath Path.parse
  dsimp only
  rw [if_neg hhead, if_neg hnil, if_neg hlast, String.ofList_toList, if_neg fun h => hp ((Path.isPath_iff p).mp h.2), Option.getD_none]

/-- Of the paths that have a text first, which does not end with a slash, those under its path are the text or go on with one. -/
theorem prefixMatches_rawPath_iff {location p : Key} {t : List Char} (hpath : Path.IsPath location) (hpre : location.toList = p.toList ++ t)
    (hmem : '/' ∈ p.toList) (hslash : ¬ endsWith p "/" = true) :
    Path.prefixMatches location (rawPath p) = true ↔ t = [] ∨ t.head? = some '/' := by
  have hnil : p.toList ≠ [] := List.ne_nil_of_mem hmem
  have hfront : t = [] ∨ t.head? = some '/' → Path.IsPath p := by
    intro h
    rcases h with rfl | h
    · have hsame : p = location := String.toList_injective (by rw [hpre, List.append_nil])
      rw [hsame]
      exact hpath
    · obtain ⟨rest, rfl⟩ := List.head?_eq_some_iff.mp h
      rw [← String.ofList_toList (s := p)]
      exact (isPath_before_slash hpath hpre).1
  by_cases hp : Path.IsPath p
  · rw [rawPath_of_isPath hp]
    unfold Path.prefixMatches
    rw [hpre, List.drop_left]
    simp only [List.isPrefixOf_iff_prefix.mpr (List.prefix_append _ _), Bool.true_and, Bool.or_eq_true, List.isEmpty_iff, hnil,
      or_false, beq_iff_eq]
  · refine iff_of_false (fun hmatch => hp ?_) fun h => hp (hfront h)
    -- the last segment is `.` or `..`, and is encoded
    obtain ⟨front, last, hlast, hlastSlash⟩ := exists_last_slash hmem
    have hlastNil : last ≠ [] := by
      rintro rfl
      exact hslash (endsWith_iff.mpr ⟨String.ofList front, String.toList_injective (by rw [hlast, String.toList_append, String.toList_ofList]; rfl)⟩)
    have hloc : location.toList = front ++ '/' :: (last ++ t) := by rw [hpre, hlast, List.append_assoc, List.cons_append]
    obtain ⟨hfpath, hfne⟩ := isPath_before_slash hpath hloc
    obtain ⟨y, more, hmore, z, hz⟩ := segments_first_name (t := t) hlastNil hlastSlash
    have hsegs := segments_slash hloc
    rw [hmore] at hsegs
    have hpart : IsPart (last ++ y) := isPart_of_mem_segments hpath (by rw [hsegs]; simp)
    have hdots : last = ['.'] ∨ last = ['.', '.'] := by
      by_contra hnot
      rw [not_or] at hnot
      refine hp ((isPath_iff_parts fun he => hnil (by rw [he]; rfl)).mpr ?_)
      rw [hlast, List.splitOn_append_cons_self, List.splitOn_eq_singleton hlastSlash]
      intro part hmem
      rcases List.mem_append.mp hmem with hmem | hmem
      · rw [isPath_iff_parts hfne, String.toList_ofList] at hfpath
        exact hfpath part hmem
      · rw [List.mem_singleton.mp hmem]
        exact ⟨hlastNil, hnot.1, hnot.2, fun c hc => hpart.2.2.2 c (List.mem_append_left _ hc)⟩
    rw [rawPath_of_not_isPath hpath hpre hnil hslash hp, prefixMatches_iff (isPath_fromStr p) hpath] at hmatch
    obtain ⟨r, hr⟩ := hmatch
    have hlastSegs : segments (String.ofList last) = [last] := by
      unfold segments
      rw [String.toList_ofList, List.splitOn_eq_singleton hlastSlash, List.filter_cons, List.isEmpty_eq_false_iff.mpr hlastNil]
      rfl
    rw [Path.segments_fromStr, segments_slash hlast, hlastSegs, List.map_append, hsegs, List.append_assoc] at hr
    obtain ⟨-, htail⟩ := List.append_inj hr (List.length_map _)
    have hencoded : Path.encodePart last = last ++ y := (List.cons.inj htail).1
    rcases hdots with rfl | rfl
    · exact absurd (List.cons.inj hencoded).1 (by decide)
    · exact absurd (List.cons.inj hencoded).1 (by decide)

/-! ## What the pages report -/

/-- Without a delimiter there are no common prefixes, and the pages report the entries. -/
theorem listed_keys (a : Adapter) (req : ListRequest) (hb : req.bucket ∈ a.buckets) (hlimit : 0 < req.limit) (hdelim : req.delim = none)
    (hplain : req.urlEncoding = false) (hfirst : req.continuationToken = none) (fuel : Nat) (hfuel : (a.entries req).length < fuel) :
    ∃ answers, a.listAll fuel req = some (.ok answers) ∧ keysOf answers = a.entries req := by
  have hfuel : (behind req.continuationToken (a.entries req)).length < fuel := by rwa [hfirst, behind_none]
  obtain ⟨answers, hanswers, hall⟩ := a.listAll_pages fuel req hb hlimit hfuel
  refine ⟨answers, hanswers, ?_⟩
  have hshown : ∀ l : List Key, l.map req.shown = l := fun l => by
    refine (List.map_congr_left fun k _ => ?_).trans (List.map_id l)
    simp [ListRequest.shown, hplain]
  have hpages : List.Forall₂ (fun r items => (r.contents.getD []).map ListedObject.key = items) answers
      (pages req.limit.toNat (a.entries req) fuel req.continuationToken) := by
    refine List.forall₂_iff_get.mpr ⟨hall.length_eq, fun i h1 h2 => ?_⟩
    obtain ⟨keys, prefixes, hkeys, hprefixes, hmerged⟩ := hall.get h1 h2
    obtain ⟨token, hpage⟩ := a.answered hanswers _ (List.get_mem answers ⟨i, h1⟩)
    have hparts := (shown_parts { req with continuationToken := token } (a.backend.listed_paths (some (rawPath req.dirPrefix)))
      (a.backend.listed_once _) (a.etagOf req.bucket)).2
    have hgroup : ∀ k, ListRequest.groupOf { req with continuationToken := token } k = none := fun k => by
      show req.delim.bind _ = none
      rw [hdelim]
      rfl
    simp only [hgroup, Option.isSome_none, List.filter_false, List.map_nil] at hparts
    rw [hpage, hparts, hshown] at hprefixes
    rw [← hprefixes] at hmerged
    rw [hkeys, hshown, ← hmerged]
    simp [merged]
  have hflatten := flatten_pages (a.pairwise_entries req) (by omega : 0 < req.limit.toNat) fuel _ hfuel
  rw [hfirst, behind_none] at hflatten
  rw [← hflatten]
  unfold keysOf
  rw [← hfirst]
  clear hflatten hall hanswers
  generalize pages req.limit.toNat (a.entries req) fuel req.continuationToken = ps at hpages ⊢
  induction hpages with
  | nil => rfl
  | cons hr _ ih => rw [List.flatMap_cons, List.flatten_cons, hr, ih]

theorem mem_entries_iff (a : Adapter) (req : ListRequest) (hdelim : req.delim = none) (hstart : req.startAfter = none) (key : Key) :
    key ∈ a.entries req ↔ a.Stores req.bucket key ∧ startsWith key req.prefixStr = true := by
  have hgroup : ∀ k, ListRequest.groupOf { req with continuationToken := none } k = none := fun k => by
    show req.delim.bind _ = none
    rw [hdelim]
    rfl
  have hbehind : ListRequest.isBehind { req with continuationToken := none } key = true := by
    simp [ListRequest.isBehind, hstart]
  unfold Adapter.entries
  rw [mem_entries, ← mem_candidates_iff]
  constructor
  · intro h
    obtain ⟨-, e, he, ⟨hkey, -⟩ | hsome⟩ := h
    · exact ⟨e, he, hkey⟩
    · rw [hgroup] at hsome
      cases hsome
  · intro h
    obtain ⟨e, he, hkey⟩ := h
    exact ⟨hbehind, e, he, .inl ⟨hkey, hgroup key⟩⟩

section Versions

variable (a : Adapter) (req : VersionsRequest)

def Adapter.versionKeys : List Key :=
  (VersionsRequest.versions { req with keyMarker := none }
    (a.backend.listWithMeta (some (rawPath (req.bucket ++ "/" ++ req.prefixStr))))).map ObjectVersion.key

theorem mem_versions {listing : List (ObjectMeta × UInt16)} (key : Key) : key ∈ (req.versions listing).map ObjectVersion.key ↔
    (∃ item ∈ listing, listedKey req.bucket item.1.location = some key) ∧ startsWith key req.prefixStr = true ∧
      ∀ m, req.marker = some m → m < key := by
  unfold VersionsRequest.versions
  simp only [List.mem_map, List.mem_insertionSort, List.mem_filter, List.mem_filterMap, Bool.and_eq_true, Option.all_eq_true,
    decide_eq_true_eq, Option.map_eq_some_iff]
  constructor
  · intro h
    obtain ⟨v, ⟨e, ⟨⟨item, hitem, key, hkey, rfl⟩, hpre, hmark⟩, rfl⟩, rfl⟩ := h
    exact ⟨⟨item, hitem, hkey⟩, hpre, hmark⟩
  · intro h
    obtain ⟨⟨item, hitem, hkey⟩, hpre, hmark⟩ := h
    exact ⟨_, ⟨(key, item.1), ⟨⟨item, hitem, key, hkey, rfl⟩, hpre, hmark⟩, rfl⟩, rfl⟩

theorem pairwise_versions {listing : List (ObjectMeta × UInt16)} (hpaths : ∀ item ∈ listing, Path.IsPath item.1.location)
    (honce : (listing.map (·.1.location)).Nodup) : ((req.versions listing).map ObjectVersion.key).Pairwise (· < ·) := by
  have hnodup := nodup_candidates { bucket := req.bucket } hpaths honce
  have hall : candidates { bucket := req.bucket } listing =
      listing.filterMap fun item => (listedKey req.bucket item.1.location).map fun key => (key, item.1) :=
    List.filter_eq_self.mpr fun _ _ => List.isPrefixOf_iff_prefix.mpr List.nil_prefix
  rw [hall] at hnodup
  unfold VersionsRequest.versions
  refine pairwise_of_sorted ?_ (((List.perm_insertionSort _ _).map _).nodup_iff.mpr ?_)
  · exact List.pairwise_map.mpr (List.pairwise_insertionSort (fun a b : ObjectVersion => a.key ≤ b.key) _)
  · rw [List.map_map]
    exact hnodup.sublist (List.filter_sublist.map _)

theorem Adapter.pairwise_versionKeys : (a.versionKeys req).Pairwise (· < ·) :=
  pairwise_versions _ (a.backend.listed_paths _) (a.backend.listed_once _)

theorem Adapter.mem_versionKeys (key : Key) : key ∈ a.versionKeys req ↔
    (∃ location, a.backend.Lists (some (rawPath (req.bucket ++ "/" ++ req.prefixStr))) location ∧
      listedKey req.bucket location = some key) ∧ startsWith key req.prefixStr = true := by
  unfold Adapter.versionKeys
  rw [mem_versions]
  constructor
  · intro h
    obtain ⟨⟨item, hitem, hkey⟩, hpre, -⟩ := h
    exact ⟨⟨_, ⟨item, hitem, rfl⟩, hkey⟩, hpre⟩
  · intro h
    obtain ⟨⟨location, ⟨item, hitem, rfl⟩, hkey⟩, hpre⟩ := h
    exact ⟨⟨item, hitem, hkey⟩, hpre, fun m hm => by cases hm⟩

/-- What a key marker leaves is what lies behind it. -/
theorem versions_marker {listing : List (ObjectMeta × UInt16)} (hpaths : ∀ item ∈ listing, Path.IsPath item.1.location)
    (honce : (listing.map (·.1.location)).Nodup) : (req.versions listing).map ObjectVersion.key =
      behind req.marker ((VersionsRequest.versions { req with keyMarker := none } listing).map ObjectVersion.key) := by
  refine List.Pairwise.eq_of_mem_iff (pairwise_versions _ hpaths honce) (pairwise_behind (pairwise_versions _ hpaths honce) _) fun key => ?_
  rw [mem_behind, mem_versions, mem_versions]
  constructor
  · intro h
    exact ⟨⟨h.1, h.2.1, fun m hm => by cases hm⟩, h.2.2⟩
  · intro h
    exact ⟨h.1.1, h.1.2.1, h.2⟩

/-- An answer reports a page of the keys. -/
theorem Adapter.versions_page (hb : req.bucket ∈ a.buckets) : ∃ r, a.listObjectVersions req = .ok r ∧
    (r.versions.getD []).map ObjectVersion.key = page req.limitUsize req.marker (a.versionKeys req) ∧
    (r.isTruncated = true ↔ req.limitUsize < (behind req.marker (a.versionKeys req)).length) ∧
    (r.isTruncated = true → r.nextKeyMarker = (page req.limitUsize req.marker (a.versionKeys req)).getLast?) := by
  have hbehind := versions_marker req (a.backend.listed_paths (some (rawPath (req.bucket ++ "/" ++ req.prefixStr))))
    (a.backend.listed_once _)
  have hpage : ((req.versions (a.backend.listWithMeta (some (rawPath (req.bucket ++ "/" ++ req.prefixStr))))).take req.limitUsize).map
      ObjectVersion.key = page req.limitUsize req.marker (a.versionKeys req) := by
    rw [List.map_take, hbehind]
    rfl
  unfold Adapter.listObjectVersions
  rw [if_pos hb]
  refine ⟨_, rfl, ?_, ?_, fun htrunc => ?_⟩
  · rw [← hpage]
    dsimp only
    split
    · next hnil =>
      rw [List.isEmpty_iff.mp hnil]
      rfl
    · rfl
  · rw [decide_eq_true_iff, ← List.length_map (f := ObjectVersion.key), hbehind]
    rfl
  · rw [← hpage, List.getLast?_map]
    exact if_pos htrunc

/-- No key is empty. -/
theorem ne_empty_of_listedKey {bucket location key : Key} (hpath : Path.IsPath location) (h : listedKey bucket location = some key) :
    key ≠ "" := by
  rintro rfl
  refine not_endsWith_slash hpath (endsWith_iff.mpr ⟨bucket, ?_⟩)
  rw [eq_of_listedKey hpath h, marked_of_not (by decide)]
  exact String.append_empty

theorem VersionsRequest.marker_of_ne {m : Option Key} (h : ∀ key, m = some key → key ≠ "") :
    VersionsRequest.marker { req with keyMarker := m } = m := by
  cases m with
  | none => rfl
  | some key =>
    show Option.filter _ (some key) = _
    rw [Option.filter_some, if_pos (by simpa using h key rfl)]

/-- The answers report the keys. -/
theorem Adapter.listAllVersions_pages (fuel : Nat) (hb : req.bucket ∈ a.buckets) (hlimit : 0 < req.limitUsize)
    (hfuel : (behind req.marker (a.versionKeys req)).length < fuel) : ∃ answers, a.listAllVersions fuel req = some (.ok answers) ∧
      answers.map (fun r => (r.versions.getD []).map ObjectVersion.key) =
        pages req.limitUsize (a.versionKeys req) fuel req.marker := by
  induction fuel generalizing req with
  | zero => omega
  | succ fuel ih =>
    obtain ⟨r, hr, hkeys, hmore, hnext⟩ := a.versions_page req hb
    unfold Adapter.listAllVersions pages
    rw [hr]
    dsimp only
    by_cases htrunc : r.isTruncated = true
    · have hlt := hmore.mp htrunc
      have hbehind := behind_getLast_page (a.pairwise_versionKeys req) hlimit hlt
      rw [if_pos htrunc, if_pos hlt, hnext htrunc]
      -- the last key of the page is a marker
      have hmarker : VersionsRequest.marker { req with keyMarker := (page req.limitUsize req.marker (a.versionKeys req)).getLast? } =
          (page req.limitUsize req.marker (a.versionKeys req)).getLast? := by
        refine req.marker_of_ne fun key hlast => ?_
        obtain ⟨⟨location, ⟨item, hitem, rfl⟩, hlisted⟩, -⟩ := (a.mem_versionKeys req key).mp
          (mem_behind.mp (List.mem_of_mem_take (List.mem_of_getLast? hlast))).1
        exact ne_empty_of_listedKey (a.backend.listed_paths _ item hitem) hlisted
      obtain ⟨rest, hrest, hall⟩ := ih { req with keyMarker := (page req.limitUsize req.marker (a.versionKeys req)).getLast? } hb hlimit (by
        rw [hmarker]
        show (behind _ (a.versionKeys req)).length < fuel
        rw [hbehind, List.length_drop]
        omega)
      rw [hmarker] at hall
      exact ⟨r :: rest, by rw [hrest]; rfl, by rw [List.map_cons, hkeys, hall]; rfl⟩
    · rw [if_neg htrunc, if_neg fun hlt => htrunc (hmore.mpr hlt)]
      exact ⟨[r], rfl, by rw [List.map_singleton, hkeys]⟩

/-- Its pages report every key once, in order. -/
theorem versioned_keys (hb : req.bucket ∈ a.buckets) (hlimit : 0 < req.limitUsize) (hfirst : req.keyMarker = none) (fuel : Nat)
    (hfuel : (a.versionKeys req).length < fuel) :
    ∃ answers, a.listAllVersions fuel req = some (.ok answers) ∧ versionKeysOf answers = a.versionKeys req := by
  have hmarker : req.marker = none := by
    unfold VersionsRequest.marker
    rw [hfirst]
    rfl
  have hfuel : (behind req.marker (a.versionKeys req)).length < fuel := by rwa [hmarker, behind_none]
  obtain ⟨answers, hanswers, hall⟩ := a.listAllVersions_pages req fuel hb hlimit hfuel
  refine ⟨answers, hanswers, ?_⟩
  have hflatten := flatten_pages (a.pairwise_versionKeys req) hlimit fuel _ hfuel
  rw [← hall, hmarker, behind_none] at hflatten
  rw [← hflatten, versionKeysOf, List.flatMap_def]

end Versions

/-! ## Whether the two agree -/

def EndsSegment (pre key : Key) : Prop := key = pre ∨ startsWith key (pre ++ "/") = true

theorem startsWith_iff {s pre : Key} : startsWith s pre = true ↔ pre.toList <+: s.toList := List.isPrefixOf_iff_prefix

/-- The path of a key is under the path of a prefix within a segment if and only if the key has no more of that segment. -/
theorem under_prefix_iff {bucket location key pre : Key} (hpath : Path.IsPath location) (hkey : location = bucket ++ "/" ++ marked key)
    (hpre : startsWith key pre = true) (hne : pre ≠ "") (hslash : ¬ endsWith pre "/" = true) :
    Path.prefixMatches location (rawPath (bucket ++ "/" ++ pre)) = true ↔ EndsSegment pre key := by
  obtain ⟨u, hu⟩ := startsWith_iff.mp hpre
  have hends : ¬ endsWith (bucket ++ "/" ++ pre) "/" = true := by
    intro h
    obtain ⟨l, hl⟩ := endsWith_iff.mp h
    have hchars := congrArg String.toList hl
    obtain ⟨front, c, hfront⟩ := List.eq_nil_or_concat pre.toList |>.resolve_left (toList_ne_nil hne)
    rw [toList_inBucket, hfront, String.toList_append, List.concat_eq_append, ← List.cons_append, ← List.append_assoc] at hchars
    have hc : c = '/' := (List.append_singleton_inj.mp (hchars : _ = l.toList ++ ['/'])).2
    refine hslash (endsWith_iff.mpr ⟨String.ofList front, String.toList_injective ?_⟩)
    rw [hfront, String.toList_append, String.toList_ofList, hc, List.concat_eq_append]
    rfl
  have hstart : startsWith key (pre ++ "/") = true ↔ u.head? = some '/' := by
    rw [startsWith_iff, String.toList_append, ← hu, List.prefix_append_right_inj]
    cases u with
    | nil => simp
    | cons c u =>
      show ['/'] <+: c :: u ↔ _
      rw [List.cons_prefix_cons]
      simp [eq_comm]
  have hsame : key = pre ↔ u = [] := by
    rw [← String.toList_inj, ← hu]
    simp
  unfold EndsSegment
  rw [hstart, hsame]
  by_cases hmarked : endsWith key "/" = true
  · have hunil : u ≠ [] := fun hnil => hslash (hsame.mpr hnil ▸ hmarked)
    rw [prefixMatches_rawPath_iff (t := u ++ dirMark.toList) hpath (by
      rw [hkey, toList_inBucket, toList_inBucket, marked_of_slash hmarked, String.toList_append, ← hu]
      simp) (by rw [toList_inBucket]; simp) hends]
    rw [List.head?_append_of_ne_nil _ hunil]
    simp [hunil]
  · rw [prefixMatches_rawPath_iff (t := u) hpath (by
      rw [hkey, toList_inBucket, toList_inBucket, marked_of_not hmarked, ← hu]
      simp) (by rw [toList_inBucket]; simp) hends]

/-- A key with a slash behind the prefix has a path that goes on behind the one of the prefix. -/
theorem behind_prefix {bucket location key pre : Key} (hpath : Path.IsPath location) (hkey : location = bucket ++ "/" ++ marked key)
    (hslash : startsWith key (pre ++ "/") = true) : Path.prefixMatches location (rawPath (bucket ++ "/" ++ pre)) = true ∧
      location ≠ rawPath (bucket ++ "/" ++ pre) := by
  obtain ⟨u, hu⟩ := startsWith_iff.mp hslash
  obtain ⟨tail, htail⟩ := exists_marked key
  have hloc : location.toList = (bucket ++ "/" ++ pre).toList ++ '/' :: (u ++ tail) := by
    rw [hkey, toList_inBucket, toList_inBucket, htail, ← hu, String.toList_append]
    simp
  have hfront := (isPath_before_slash hpath hloc).1
  rw [String.ofList_toList] at hfront
  rw [rawPath_of_isPath hfront]
  exact behind_of_slash hloc

/-- The path of a key that is the prefix. -/
theorem rawPath_of_marked {bucket location pre : Key} (hpath : Path.IsPath location) (hkey : location = bucket ++ "/" ++ marked pre)
    (hslash : ¬ endsWith pre "/" = true) : rawPath (bucket ++ "/" ++ pre) = location := by
  rw [marked_of_not hslash] at hkey
  rw [← hkey]
  exact rawPath_of_isPath hpath

/-- The listings agree if what there is to list is the same. -/
theorem versionsAgree_iff_keys (a : Adapter) {bucket : Key} (hb : bucket ∈ a.buckets) (pre : Option Key) {maxKeys maxVersions : Int}
    (hkeys : 1 ≤ maxKeys) (hversions : 1 ≤ maxVersions) : a.VersionsAgree bucket pre maxKeys maxVersions ↔
      a.entries { bucket, pre, maxKeys := some maxKeys } = a.versionKeys { bucket, pre, maxKeys := some maxVersions } := by
  have hlimit : 0 < VersionsRequest.limitUsize { bucket, pre, maxKeys := some maxVersions } := by
    show 0 < if 0 ≤ maxVersions then maxVersions.toNat else (maxVersions + 18446744073709551616).toNat
    rw [if_pos (by omega)]
    omega
  have hlisted := listed_keys a { bucket, pre, maxKeys := some maxKeys } hb (by show 0 < maxKeys; omega) rfl rfl rfl
  have hversioned := versioned_keys a { bucket, pre, maxKeys := some maxVersions } hb hlimit rfl
  unfold Adapter.VersionsAgree
  generalize a.entries { bucket, pre, maxKeys := some maxKeys } = keys at *
  generalize a.versionKeys { bucket, pre, maxKeys := some maxVersions } = versionKeys at *
  constructor
  · intro h
    obtain ⟨bound, h⟩ := h
    obtain ⟨answers, versions, hanswers, hvanswers, heq⟩ := h (bound + keys.length + versionKeys.length + 1) (by omega)
    obtain ⟨answers', hanswers', hkeys'⟩ := hlisted (bound + keys.length + versionKeys.length + 1) (by omega)
    obtain ⟨versions', hvanswers', hversions'⟩ := hversioned (bound + keys.length + versionKeys.length + 1) (by omega)
    obtain rfl := Except.ok.inj (Option.some.inj (hanswers.symm.trans hanswers'))
    obtain rfl := Except.ok.inj (Option.some.inj (hvanswers.symm.trans hvanswers'))
    rw [← hkeys', heq, hversions']
  · intro heq
    refine ⟨keys.length + versionKeys.length, fun fuel hfuel => ?_⟩
    obtain ⟨answers, hanswers, hkeys⟩ := hlisted fuel (by omega)
    obtain ⟨versions, hvanswers, hvkeys⟩ := hversioned fuel (by omega)
    exact ⟨answers, versions, hanswers, hvanswers, by rw [hkeys, hvkeys, heq]⟩

/-- A prefix that is a directory has the keys that begin with it behind its path. -/
theorem behind_directory {bucket location key pre : Key} (hpath : Path.IsPath location) (hkey : location = bucket ++ "/" ++ marked key)
    (hpre : startsWith key pre = true) (hdir : pre = "" ∨ endsWith pre "/" = true) :
    Path.prefixMatches location (rawPath (bucket ++ "/" ++ pre)) = true ∧ location ≠ rawPath (bucket ++ "/" ++ pre) := by
  obtain ⟨more, hmore⟩ := startsWith_iff.mp hpre
  rw [← String.ofList_toList (s := pre)]
  refine under_directory hpath hkey hmore.symm ?_
  rcases hdir with rfl | hdir
  · exact .inl rfl
  · obtain ⟨l, rfl⟩ := endsWith_iff.mp hdir
    exact .inr ⟨l.toList, String.toList_append ..⟩

theorem isPath_of_lists {b : Backend} {pre : Option Key} {location : Key} (h : b.Lists pre location) : Path.IsPath location := by
  obtain ⟨item, hitem, rfl⟩ := h
  exact b.listed_paths pre item hitem

def Adapter.ListsPrefix (a : Adapter) (bucket pre : Key) : Prop :=
  a.backend.Lists (some (rawPath (bucket ++ "/" ++ pre))) (rawPath (bucket ++ "/" ++ pre))

/-- Raw stores do. -/
theorem Adapter.listsPrefix_of_isRaw {a : Adapter} {bucket pre : Key} (hraw : a.backend.IsRaw) (hstored : a.Stores bucket pre)
    (hslash : ¬ endsWith pre "/" = true) : a.ListsPrefix bucket pre := by
  obtain ⟨location, hlists, hkey⟩ := a.stores_iff.mp hstored
  have hpath := isPath_of_lists hlists
  unfold Adapter.ListsPrefix
  rw [rawPath_of_marked hpath (eq_of_listedKey hpath hkey) hslash]
  exact hlists.itself hraw (prefixMatches_self location)

/-- Both listings report the same keys if and only if the prefix is a directory, or every stored key that begins with it has a
    slash behind it, or is the prefix itself and then listed by the backend that is asked for its path. -/
theorem versions_agree_iff (a : Adapter) {bucket : Key} (hb : bucket ∈ a.buckets) (pre : Option Key) {maxKeys maxVersions : Int}
    (hkeys : 1 ≤ maxKeys) (hversions : 1 ≤ maxVersions) : a.VersionsAgree bucket pre maxKeys maxVersions ↔
      (pre.getD "" = "" ∨ endsWith (pre.getD "") "/" = true) ∨
        ∀ key, a.Stores bucket key → startsWith key (pre.getD "") = true →
          startsWith key (pre.getD "" ++ "/") = true ∨ key = pre.getD "" ∧ a.ListsPrefix bucket (pre.getD "") := by
  have hentries := mem_entries_iff a { bucket, pre, maxKeys := some maxKeys } rfl rfl
  have hmem := a.mem_versionKeys { bucket, pre, maxKeys := some maxVersions }
  rw [versionsAgree_iff_keys a hb pre hkeys hversions]
  constructor
  · intro heq
    by_cases hdir : pre.getD "" = "" ∨ endsWith (pre.getD "") "/" = true
    · exact .inl hdir
    · rw [not_or] at hdir
      refine .inr fun key hstored hpre => ?_
      obtain ⟨⟨location, hlists, hkey⟩, -⟩ := (hmem key).mp (heq ▸ (hentries key).mpr ⟨hstored, hpre⟩)
      have hpath := isPath_of_lists hlists
      have hloc := eq_of_listedKey hpath hkey
      have hends := (under_prefix_iff hpath hloc hpre hdir.1 hdir.2).mp hlists.stored.2
      refine hends.symm.imp_right fun hsame => ⟨hsame, ?_⟩
      have hself := rawPath_of_marked hpath (hsame ▸ hloc) hdir.2
      unfold Adapter.ListsPrefix
      rw [hself]
      have hlists : a.backend.Lists (some (rawPath (bucket ++ "/" ++ pre.getD ""))) location := hlists
      rwa [hself] at hlists
  · intro h
    refine List.Pairwise.eq_of_mem_iff (a.pairwise_entries _) (a.pairwise_versionKeys _) fun key => ?_
    rw [hentries, hmem]
    refine and_congr_left fun hpre => ⟨fun hstored => ?_, fun hlisted => ?_⟩
    · obtain ⟨location, hlists, hkey⟩ := a.stores_iff.mp hstored
      have hpath := isPath_of_lists hlists
      have hloc := eq_of_listedKey hpath hkey
      refine ⟨location, ?_, hkey⟩
      by_cases hdir : pre.getD "" = "" ∨ endsWith (pre.getD "") "/" = true
      · obtain ⟨hunder, hne⟩ := behind_directory hpath hloc hpre hdir
        exact hlists.behind hunder hne
      · rcases (h.resolve_left hdir) key hstored hpre with hslash | ⟨hsame, hself⟩
        · obtain ⟨hunder, hne⟩ := behind_prefix hpath hloc hslash
          exact hlists.behind hunder hne
        · rw [not_or] at hdir
          unfold Adapter.ListsPrefix at hself
          rw [rawPath_of_marked hpath (hsame ▸ hloc) hdir.2] at hself
          show a.backend.Lists (some (rawPath (bucket ++ "/" ++ pre.getD ""))) location
          rw [rawPath_of_marked hpath (hsame ▸ hloc) hdir.2]
          exact hself
    · obtain ⟨location, hlists, hkey⟩ := hlisted
      exact a.stores_iff.mpr ⟨location, hlists.stored.1, hkey⟩

open Sample in
/-- The prefix has no slash, but each key that begins with it has one behind it. -/
theorem versions_of_a_directory_agree : adapter.VersionsAgree "b" (some "y") 1 1 :=
  (versions_agree_iff adapter List.mem_cons_self (some "y") (Int.le_refl 1) (Int.le_refl 1)).mpr (.inr fun key hstored hpre => by
    obtain ⟨item, hitem, hkey⟩ := hstored
    have hkeys : (adapter.backend.listWithMeta none).map (fun item => listedKey "b" item.1.location) =
        [some "x", some "y/1", some "y/2", some "z"] := by decide
    have hmem : some key ∈ [some "x", some "y/1", some "y/2", some "z"] := hkeys ▸ List.mem_map.mpr ⟨item, hitem, hkey⟩
    simp only [List.mem_cons, Option.some.injEq, List.not_mem_nil, or_false] at hmem
    rcases hmem with rfl | rfl | rfl | rfl
    · exact absurd hpre (by decide)
    · exact .inl (by decide)
    · exact .inl (by decide)
    · exact absurd hpre (by decide))

/-- A cluster of one shard with one object. -/
def Sample.onePhoto : Adapter where
  buckets := ["b"]
  backend := .sharded [.store (store .s3Like [listed "b/photo" (by decide)])]
  etagOf _ _ := none

open Sample in
/-- The key is listed under its front, its version is not. -/
theorem a_prefix_within_a_segment_is_missed :
    ¬ ∀ (a : Adapter) (bucket : Key) (pre : Option Key) (maxKeys maxVersions : Int), bucket ∈ a.buckets → 1 ≤ maxKeys →
      1 ≤ maxVersions → a.VersionsAgree bucket pre maxKeys maxVersions := by
  intro h
  have hagree := h onePhoto "b" (some "ph") 1 1 List.mem_cons_self (Int.le_refl 1) (Int.le_refl 1)
  rw [versionsAgree_iff_keys onePhoto List.mem_cons_self _ (Int.le_refl 1) (Int.le_refl 1)] at hagree
  have hlisted : "photo" ∈ onePhoto.entries { bucket := "b", pre := some "ph", maxKeys := some 1 } :=
    (mem_entries_iff onePhoto _ rfl rfl "photo").mpr ⟨⟨_, List.mem_cons_self, by decide⟩, by decide⟩
  rw [hagree, Adapter.mem_versionKeys] at hlisted
  obtain ⟨⟨location, hlists, hkey⟩, -⟩ := hlisted
  have hunder := hlists.stored.2
  rw [eq_of_listedKey (isPath_of_lists hlists) hkey] at hunder
  exact absurd hunder (by decide)

end ObjStr.S3
