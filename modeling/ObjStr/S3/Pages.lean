/-
  ObjStr.S3.Pages — the pages of `list_objects_v2`.

  A client follows `next_continuation_token` until a page is not truncated (`Adapter.listAll`). What can be shown at all
  is a list that does not depend on the cursors (`entries`): the keys without a group and the groups, strictly in order,
  for a group is never a key that is shown (`groupOf_group`), and it is not behind the keys it stands for (`groupOf_le`).

  So a page is the first few entries behind its cursors, and its token is the last of these:
  - `shown_page`: what one page shows, when it is truncated, and with which token.
  - `pages_are_exact`: the pages of a listing, put together, are what one large page shows.
-/

import ObjStr.S3.Stored

namespace ObjStr.S3

open ObjStr.Lib ObjStr.Raw ObjStr.Sharded

/-! ## Keys of candidates -/

variable (req : ListRequest) {listing : List (ObjectMeta × UInt16)}

theorem nodup_candidates (hpaths : ∀ item ∈ listing, Path.IsPath item.1.location) (honce : (listing.map (·.1.location)).Nodup) :
    ((candidates req listing).map (·.1)).Nodup := by
  have hall : ((listing.filterMap fun item => (listedKey req.bucket item.1.location).map fun key => (key, item.1)).map (·.1)).Nodup := by
    induction listing with
    | nil => exact List.nodup_nil
    | cons item rest ih =>
      rw [List.map_cons, List.nodup_cons] at honce
      have ih := ih (fun i hi => hpaths i (List.mem_cons_of_mem _ hi)) honce.2
      rw [List.filterMap_cons]
      cases hkey : listedKey req.bucket item.1.location with
      | none => exact ih
      | some key =>
        rw [Option.map_some]
        dsimp only
        rw [List.map_cons, List.nodup_cons]
        refine ⟨fun hm => ?_, ih⟩
        -- the same key is the same location
        obtain ⟨e, he, hek⟩ := List.mem_map.mp hm
        obtain ⟨item', hitem', he'⟩ := List.mem_filterMap.mp he
        obtain ⟨key', hkey', rfl⟩ := Option.map_eq_some_iff.mp he'
        dsimp only at hek
        subst hek
        have h1 := eq_of_listedKey (hpaths item List.mem_cons_self) hkey
        have h2 := eq_of_listedKey (hpaths item' (List.mem_cons_of_mem _ hitem')) hkey'
        exact honce.1 (List.mem_map.mpr ⟨item', hitem', h2.trans h1.symm⟩)
  exact hall.sublist (List.filter_sublist.map _)

theorem startsWith_of_candidate {e : Key × ObjectMeta} (h : e ∈ candidates req listing) : startsWith e.1 req.prefixStr = true :=
  (List.mem_filter.mp h).2

/-! ## Groups -/

theorem prefix_of_upTo {d r q : List Char} (hd : d ≠ []) (h : upTo d r = some q) : q <+: r ∧ upTo d q = some q := by
  induction r generalizing q with
  | nil =>
    unfold upTo at h
    rw [if_neg hd] at h
    cases h
  | cons c rest ih =>
    unfold upTo at h
    split at h
    · next hp =>
      obtain rfl := Option.some.inj h
      refine ⟨List.isPrefixOf_iff_prefix.mp hp, ?_⟩
      obtain ⟨c', d', rfl⟩ := List.exists_cons_of_ne_nil hd
      unfold upTo
      rw [if_pos (List.isPrefixOf_iff_prefix.mpr (List.prefix_refl _))]
    · next hp =>
      obtain ⟨q', hq', rfl⟩ := Option.map_eq_some_iff.mp h
      obtain ⟨hpre, hself⟩ := ih hq'
      have hcons : (c :: q') <+: (c :: rest) := (List.prefix_cons_inj c).mpr hpre
      refine ⟨hcons, ?_⟩
      unfold upTo
      rw [if_neg fun hp' => hp (List.isPrefixOf_iff_prefix.mpr ((List.isPrefixOf_iff_prefix.mp hp').trans hcons)), hself]
      rfl

/-- A text that another begins with is not behind it. -/
theorem le_of_prefix {s t : Key} (h : s.toList <+: t.toList) : s ≤ t := by
  have hle : ¬ t.toList < s.toList := h.le
  exact not_lt.mp fun hlt => hle (String.lt_iff_toList_lt.mp hlt)

theorem delim_ne_nil {d : Key} (h : req.delim = some d) : d.toList ≠ [] := by
  have hne := (Option.filter_eq_some_iff.mp h).2
  exact toList_ne_nil (by simpa using hne)

theorem groupOf_le {key group : Key} (hkey : startsWith key req.prefixStr = true) (h : req.groupOf key = some group) : group ≤ key := by
  unfold ListRequest.groupOf at h
  obtain ⟨d, hd, h⟩ := Option.bind_eq_some_iff.mp h
  obtain ⟨q, hq, rfl⟩ := Option.map_eq_some_iff.mp h
  refine le_of_prefix ?_
  obtain ⟨l, hl⟩ := List.isPrefixOf_iff_prefix.mp hkey
  rw [← hl, List.drop_left] at hq
  rw [String.toList_append, String.toList_ofList, ← hl]
  exact (List.prefix_append_right_inj _).mpr (prefix_of_upTo (delim_ne_nil req hd) hq).1

/-- A group is its own group. -/
theorem groupOf_group {key group : Key} (h : req.groupOf key = some group) : req.groupOf group = some group := by
  unfold ListRequest.groupOf at h
  obtain ⟨d, hd, h⟩ := Option.bind_eq_some_iff.mp h
  obtain ⟨q, hq, rfl⟩ := Option.map_eq_some_iff.mp h
  unfold ListRequest.groupOf
  rw [hd, Option.bind_some, String.toList_append, List.drop_left, String.toList_ofList,
    (prefix_of_upTo (delim_ne_nil req hd) hq).2, Option.map_some]

/-! ## What one page shows -/

def entries (listing : List (ObjectMeta × UInt16)) : List Key :=
  merged ListedObject.key (listedObjects req listing) (listedPrefixes req listing)

theorem mem_listedObjects {a : Key} : a ∈ (listedObjects req listing).map ListedObject.key ↔
    req.isBehind a = true ∧ ∃ e ∈ candidates req listing, e.1 = a ∧ req.groupOf a = none := by
  unfold listedObjects
  simp only [List.mem_map, List.mem_insertionSort, List.mem_filter, Bool.and_eq_true, Option.isNone_iff_eq_none]
  constructor
  · intro h
    obtain ⟨o, ⟨e, ⟨he, hbehind, hgroup⟩, rfl⟩, rfl⟩ := h
    exact ⟨hbehind, e, he, rfl, hgroup⟩
  · intro h
    obtain ⟨hbehind, e, he, rfl, hgroup⟩ := h
    exact ⟨_, ⟨e, ⟨he, hbehind, hgroup⟩, rfl⟩, rfl⟩

theorem isBehind_of_le {a b : Key} (h : a ≤ b) (ha : req.isBehind a = true) : req.isBehind b = true := by
  unfold ListRequest.isBehind at ha ⊢
  simp only [Bool.and_eq_true, Option.all_eq_true, decide_eq_true_eq] at ha ⊢
  exact ⟨fun c hc => (ha.1 c hc).trans_le h, fun c hc => (ha.2 c hc).trans_le h⟩

/-- A group behind the cursors has its keys behind them. -/
theorem mem_listedPrefixes {a : Key} : a ∈ listedPrefixes req listing ↔
    req.isBehind a = true ∧ ∃ e ∈ candidates req listing, req.groupOf e.1 = some a := by
  unfold listedPrefixes sortedSet
  simp only [List.mem_insertionSort, List.mem_dedup, List.mem_filter, List.mem_filterMap]
  constructor
  · intro h
    obtain ⟨⟨e, ⟨he, -⟩, hgroup⟩, hbehind⟩ := h
    exact ⟨hbehind, e, he, hgroup⟩
  · intro h
    obtain ⟨hbehind, e, he, hgroup⟩ := h
    have hle := groupOf_le req (startsWith_of_candidate req he) hgroup
    exact ⟨⟨e, ⟨he, isBehind_of_le req hle hbehind⟩, hgroup⟩, hbehind⟩

theorem pairwise_of_sorted {l : List Key} (hle : l.Pairwise (· ≤ ·)) (hnodup : l.Nodup) : l.Pairwise (· < ·) :=
  (hle.and hnodup).imp fun h => lt_of_le_of_ne h.1 h.2

theorem pairwise_listedPrefixes : (listedPrefixes req listing).Pairwise (· < ·) := by
  unfold listedPrefixes sortedSet
  refine pairwise_of_sorted (List.pairwise_insertionSort _ _) ?_
  exact (List.perm_insertionSort _ _).nodup_iff.mpr (List.nodup_dedup _)

variable (hpaths : ∀ item ∈ listing, Path.IsPath item.1.location) (honce : (listing.map (·.1.location)).Nodup)

include hpaths honce

theorem pairwise_listedObjects : ((listedObjects req listing).map ListedObject.key).Pairwise (· < ·) := by
  have hperm : ((listedObjects req listing).map ListedObject.key).Perm
      (((candidates req listing).filter fun e => req.isBehind e.1 && (req.groupOf e.1).isNone).map (·.1)) := by
    unfold listedObjects
    refine ((List.perm_insertionSort _ _).map _).trans ?_
    rw [List.map_map]
    exact List.Perm.refl _
  refine pairwise_of_sorted ?_ (hperm.nodup_iff.mpr ?_)
  · have hsorted := List.pairwise_insertionSort (fun a b : ListedObject => a.key ≤ b.key)
    unfold listedObjects
    exact List.pairwise_map.mpr (hsorted _)
  · exact (nodup_candidates req hpaths honce).sublist (List.filter_sublist.map _)

theorem pairwise_entries : (entries req listing).Pairwise (· < ·) := by
  refine pairwise_merged _ (pairwise_listedObjects req hpaths honce) (pairwise_listedPrefixes req) fun o ho hm => ?_
  obtain ⟨-, -, -, -, hnone⟩ := (mem_listedObjects req).mp (List.mem_map_of_mem ho)
  obtain ⟨-, e, -, hgroup⟩ := (mem_listedPrefixes req).mp hm
  rw [groupOf_group req hgroup] at hnone
  cases hnone

omit hpaths honce in
theorem mem_entries {a : Key} : a ∈ entries req listing ↔
    req.isBehind a = true ∧ ∃ e ∈ candidates req listing, e.1 = a ∧ req.groupOf a = none ∨ req.groupOf e.1 = some a := by
  unfold entries
  rw [mem_merged, mem_listedObjects, mem_listedPrefixes]
  constructor
  · intro h
    rcases h with ⟨hbehind, e, he, hkey⟩ | ⟨hbehind, e, he, hgroup⟩
    · exact ⟨hbehind, e, he, .inl hkey⟩
    · exact ⟨hbehind, e, he, .inr hgroup⟩
  · intro h
    obtain ⟨hbehind, e, he, hkey | hgroup⟩ := h
    · exact .inl ⟨hbehind, e, he, hkey⟩
    · exact .inr ⟨hbehind, e, he, hgroup⟩

/-- What a token leaves is what lies behind it. -/
theorem entries_token (token : Option Key) : entries { req with continuationToken := token } listing =
    behind token (entries { req with continuationToken := none } listing) := by
  refine List.Pairwise.eq_of_mem_iff (pairwise_entries _ hpaths honce) (pairwise_behind (pairwise_entries _ hpaths honce) _) fun a => ?_
  rw [mem_behind, mem_entries, mem_entries]
  have hbehind : ListRequest.isBehind { req with continuationToken := token } a = true ↔
      ListRequest.isBehind { req with continuationToken := none } a = true ∧ ∀ c, token = some c → c < a := by
    unfold ListRequest.isBehind
    simp only [Option.all_none, Bool.and_true, Bool.and_eq_true, Option.all_eq_true, decide_eq_true_eq]
  rw [hbehind]
  -- neither the candidates nor the groups know of the token
  exact ⟨fun h => ⟨⟨h.1.1, h.2⟩, h.1.2⟩, fun h => ⟨⟨h.1.1, h.2⟩, h.1.2⟩⟩

def ListRequest.shown (req : ListRequest) (key : Key) : Key := if req.urlEncoding then urlEncode key else key

/-- An answer that shows some entries: keys and common prefixes, which merged are these. -/
def Shows (req : ListRequest) (r : ListResponse) (items : List Key) : Prop :=
  ∃ keys prefixes : List Key, (r.contents.getD []).map ListedObject.key = keys.map req.shown ∧
    r.commonPrefixes.getD [] = prefixes.map req.shown ∧ merged id keys prefixes = items

omit hpaths honce in
theorem getD_none_of_nil {α : Type} [DecidableEq α] (l : List α) : (if l = [] then none else some l).getD [] = l := by
  by_cases h : l = []
  · rw [if_pos h, h]
    rfl
  · rw [if_neg h]
    rfl

/-- A page shows the first entries; it is truncated if there are more, and then its token is the last of those shown. -/
theorem shown_page (etagOf : Key → Option String) (hlimit : 0 < req.limit) :
    Shows req (listPage req listing etagOf) ((entries req listing).take req.limit.toNat) ∧
      ((listPage req listing etagOf).isTruncated = true ↔ req.limit.toNat < (entries req listing).length) ∧
      ((listPage req listing etagOf).isTruncated = true →
        (listPage req listing etagOf).nextContinuationToken = ((entries req listing).take req.limit.toNat).getLast?) := by
  have htaken := merged_taken ListedObject.key req.limit.toNat (listedObjects req listing) (listedPrefixes req listing)
  have hrest := rest_ne_nil_iff ListedObject.key req.limit.toNat (listedObjects req listing) (listedPrefixes req listing)
  obtain ⟨hobjs, hpfx⟩ := mergeTake_append ListedObject.key req.limit.toNat (listedObjects req listing) (listedPrefixes req listing)
  have hsorted := pairwise_entries req hpaths honce
  have hobjects := pairwise_listedObjects req hpaths honce
  have hprefixes : (listedPrefixes req listing).Pairwise (· < ·) := pairwise_listedPrefixes req
  have hlength := length_merged ListedObject.key (listedObjects req listing) (listedPrefixes req listing)
  unfold listPage
  unfold entries at hsorted ⊢
  dsimp only
  generalize mergeTake ListedObject.key req.limit.toNat (listedObjects req listing) (listedPrefixes req listing) = r at *
  refine ⟨⟨r.1.1.map ListedObject.key, r.1.2, ?_, ?_, ?_⟩, ?_, fun htrunc => ?_⟩
  · rw [getD_none_of_nil, List.map_map, List.map_map]
    rfl
  · rw [getD_none_of_nil]
    rfl
  · rw [← htaken]
    simp [merged]
  · rw [hlength, ← hrest]
    simp [hlimit]
  · rw [if_pos htrunc, ← htaken]
    rw [← hobjs, List.map_append] at hobjects
    rw [← hpfx] at hprefixes
    refine (getLast?_merged _ (List.pairwise_append.mp hobjects).1 (List.pairwise_append.mp hprefixes).1 ?_).symm
    rw [htaken]
    exact hsorted.sublist (List.take_sublist _ _)

/-- The keys and the common prefixes of a page of `list_objects_v2`. -/
theorem shown_parts (etagOf : Key → Option String) :
    ((listPage req listing etagOf).contents.getD []).map ListedObject.key =
        (((entries req listing).take req.limit.toNat).filter fun k => (req.groupOf k).isNone).map req.shown ∧
      (listPage req listing etagOf).commonPrefixes.getD [] =
        (((entries req listing).take req.limit.toNat).filter fun k => (req.groupOf k).isSome).map req.shown := by
  have htaken := merged_taken ListedObject.key req.limit.toNat (listedObjects req listing) (listedPrefixes req listing)
  obtain ⟨hobjs, hpfx⟩ := mergeTake_append ListedObject.key req.limit.toNat (listedObjects req listing) (listedPrefixes req listing)
  have hsorted := (pairwise_entries req hpaths honce).sublist (List.take_sublist req.limit.toNat _)
  have hobjects := pairwise_listedObjects req hpaths honce
  have hprefixes : (listedPrefixes req listing).Pairwise (· < ·) := pairwise_listedPrefixes req
  have hkey : ∀ a ∈ (listedObjects req listing).map ListedObject.key, req.groupOf a = none := fun a ha => by
    obtain ⟨-, -, -, -, hnone⟩ := (mem_listedObjects req).mp ha
    exact hnone
  have hgroup : ∀ a ∈ listedPrefixes req listing, req.groupOf a = some a := fun a ha => by
    obtain ⟨-, e, -, hgroup⟩ := (mem_listedPrefixes req).mp ha
    exact groupOf_group req hgroup
  unfold listPage
  unfold entries at hsorted ⊢
  dsimp only
  rw [← htaken] at hsorted ⊢
  generalize mergeTake ListedObject.key req.limit.toNat (listedObjects req listing) (listedPrefixes req listing) = r at *
  rw [← hobjs, List.map_append] at hobjects hkey
  rw [← hpfx] at hprefixes hgroup
  rw [getD_none_of_nil, getD_none_of_nil]
  constructor
  · have hkeys : (merged ListedObject.key r.1.1 r.1.2).filter (fun k => (req.groupOf k).isNone) = r.1.1.map ListedObject.key := by
      refine List.Pairwise.eq_of_mem_iff (hsorted.sublist List.filter_sublist) (List.pairwise_append.mp hobjects).1 fun a => ?_
      rw [List.mem_filter, mem_merged]
      constructor
      · intro h
        obtain ⟨hmem | hmem, hnone⟩ := h
        · exact hmem
        · rw [hgroup a (List.mem_append_left _ hmem)] at hnone
          cases hnone
      · intro h
        exact ⟨.inl h, by rw [hkey a (List.mem_append_left _ h)]; rfl⟩
    rw [hkeys, List.map_map, List.map_map]
    rfl
  · have hgroups : (merged ListedObject.key r.1.1 r.1.2).filter (fun k => (req.groupOf k).isSome) = r.1.2 := by
      refine List.Pairwise.eq_of_mem_iff (hsorted.sublist List.filter_sublist) (List.pairwise_append.mp hprefixes).1 fun a => ?_
      rw [List.mem_filter, mem_merged]
      constructor
      · intro h
        obtain ⟨hmem | hmem, hsome⟩ := h
        · rw [hkey a (List.mem_append_left _ hmem)] at hsome
          cases hsome
        · exact hmem
      · intro h
        exact ⟨.inr h, by rw [hgroup a (List.mem_append_left _ h)]; rfl⟩
    rw [hgroups]
    rfl

omit hpaths honce

/-! ## Following the tokens -/

/-- The answers of a client that asks again, with the token of the last answer, until an answer is not truncated. -/
def Adapter.listAll (a : Adapter) : Nat → ListRequest → Option (Except S3Error (List ListResponse))
  | 0, _ => none
  | fuel + 1, req =>
    match a.listObjectsV2 req with
    | .error e => some (.error e)
    | .ok r =>
      if r.isTruncated then
        (a.listAll fuel { req with continuationToken := r.nextContinuationToken }).map fun rest => rest.map (r :: ·)
      else some (.ok [r])

def Adapter.entries (a : Adapter) (req : ListRequest) : List Key :=
  S3.entries { req with continuationToken := none } (a.backend.listWithMeta (some (rawPath req.dirPrefix)))

theorem Adapter.pairwise_entries (a : Adapter) : (a.entries req).Pairwise (· < ·) :=
  S3.pairwise_entries _ (a.backend.listed_paths _) (a.backend.listed_once _)

/-- The answer to a request shows one page of the entries. -/
theorem Adapter.page_of (a : Adapter) (hb : req.bucket ∈ a.buckets) (hlimit : 0 < req.limit) : ∃ r, a.listObjectsV2 req = .ok r ∧
    Shows req r (page req.limit.toNat req.continuationToken (a.entries req)) ∧
    (r.isTruncated = true ↔ req.limit.toNat < (behind req.continuationToken (a.entries req)).length) ∧
    (r.isTruncated = true → r.nextContinuationToken = (page req.limit.toNat req.continuationToken (a.entries req)).getLast?) := by
  have hpaths := a.backend.listed_paths (some (rawPath req.dirPrefix))
  have honce := a.backend.listed_once (some (rawPath req.dirPrefix))
  have hshown := shown_page req hpaths honce (a.etagOf req.bucket) hlimit
  rw [entries_token req hpaths honce req.continuationToken] at hshown
  refine ⟨_, ?_, hshown⟩
  unfold Adapter.listObjectsV2
  rw [if_pos hb]

/-- The answers show the pages. -/
theorem Adapter.listAll_pages (a : Adapter) (fuel : Nat) (req : ListRequest) (hb : req.bucket ∈ a.buckets) (hlimit : 0 < req.limit)
    (hfuel : (behind req.continuationToken (a.entries req)).length < fuel) : ∃ answers, a.listAll fuel req = some (.ok answers) ∧
      List.Forall₂ (Shows req) answers (pages req.limit.toNat (a.entries req) fuel req.continuationToken) := by
  induction fuel generalizing req with
  | zero => omega
  | succ fuel ih =>
    obtain ⟨r, hr, hshows, hmore, hnext⟩ := a.page_of req hb hlimit
    unfold Adapter.listAll pages
    rw [hr]
    dsimp only
    by_cases htrunc : r.isTruncated = true
    · have hlt := hmore.mp htrunc
      rw [if_pos htrunc, if_pos hlt, hnext htrunc]
      have hbehind := behind_getLast_page (a.pairwise_entries req) (by omega : 0 < req.limit.toNat) hlt
      obtain ⟨rest, hrest, hall⟩ := ih { req with continuationToken := (page req.limit.toNat req.continuationToken (a.entries req)).getLast? }
        hb hlimit (by
          show (behind _ (a.entries req)).length < fuel
          rw [hbehind, List.length_drop]
          omega)
      exact ⟨r :: rest, by rw [hrest]; rfl, .cons hshows hall⟩
    · rw [if_neg htrunc, if_neg fun hlt => htrunc (hmore.mpr hlt)]
      exact ⟨[r], rfl, .cons hshows .nil⟩

/-- An entry is a stored key without a group, or the group of one. -/
theorem Adapter.mem_page_entries (a : Adapter) (item : Key) : item ∈ behind req.continuationToken (a.entries req) ↔
    req.isBehind item = true ∧ ∃ key, a.Stores req.bucket key ∧ startsWith key req.prefixStr = true ∧
      (key = item ∧ req.groupOf item = none ∨ req.groupOf key = some item) := by
  have htoken := entries_token req (a.backend.listed_paths (some (rawPath req.dirPrefix))) (a.backend.listed_once _) req.continuationToken
  unfold Adapter.entries
  rw [← htoken, mem_entries]
  refine and_congr_right fun _ => ⟨fun h => ?_, fun h => ?_⟩
  · obtain ⟨e, he, hitem⟩ := h
    obtain ⟨hstored, hpre⟩ := (mem_candidates_iff a req e.1).mp ⟨e, he, rfl⟩
    exact ⟨e.1, hstored, hpre, hitem⟩
  · obtain ⟨key, hstored, hpre, hitem⟩ := h
    obtain ⟨e, he, rfl⟩ := (mem_candidates_iff a req key).mpr ⟨hstored, hpre⟩
    exact ⟨e, he, hitem⟩

/-- The pages of a listing are strictly in order and show, put together, what one large page shows: the stored keys behind the
    cursors that have no group, and the groups of the others. -/
theorem pages_are_exact (a : Adapter) (req : ListRequest) (hb : req.bucket ∈ a.buckets) (hmax : 1 ≤ req.limit) :
    ∃ items : List Key, items.Pairwise (· < ·) ∧
      (∀ item, item ∈ items ↔ req.isBehind item = true ∧ ∃ key, a.Stores req.bucket key ∧ startsWith key req.prefixStr = true ∧
        (key = item ∧ req.groupOf item = none ∨ req.groupOf key = some item)) ∧
      (∀ fuel, items.length < fuel → ∃ answers shown, a.listAll fuel req = some (.ok answers) ∧
        List.Forall₂ (Shows req) answers shown ∧ shown.flatten = items) ∧
      ∀ n : Int, items.length ≤ n → 1 ≤ n → ∃ r, a.listObjectsV2 { req with maxKeys := some n } = .ok r ∧
        r.isTruncated = false ∧ Shows req r items := by
  have hlimit : 0 < req.limit := by omega
  refine ⟨behind req.continuationToken (a.entries req), pairwise_behind (a.pairwise_entries req) _, a.mem_page_entries req,
    fun fuel hfuel => ?_, fun n hn h1 => ?_⟩
  · obtain ⟨answers, hanswers, hall⟩ := a.listAll_pages fuel req hb hlimit hfuel
    exact ⟨answers, _, hanswers, hall, flatten_pages (a.pairwise_entries req) (by omega) fuel _ hfuel⟩
  · obtain ⟨r, hr, hshows, hmore, -⟩ := a.page_of { req with maxKeys := some n } hb h1
    have hle : (behind req.continuationToken (a.entries req)).length ≤ n.toNat := by omega
    refine ⟨r, hr, ?_, ?_⟩
    · rw [← Bool.not_eq_true, hmore]
      exact not_lt.mpr hle
    · have hpage : page n.toNat req.continuationToken (a.entries req) = behind req.continuationToken (a.entries req) :=
        List.take_of_length_le hle
      rw [← hpage]
      exact hshows

namespace Sample

def listed (location : Key) (h : Path.isPath location = true) : PathObject := ⟨⟨location, 0, 1⟩, (Path.isPath_iff _).mp h⟩

/-- A store that leaves out an object at the very path, as those of `object_store` do. -/
def store (kind : ShardKind) (objects : List PathObject) : ListedStore where
  kind
  objects
  list pre := (objects.map PathObject.info).filter fun info => pre.all fun p => Path.prefixMatches info.location p && info.location != p
  list_all info := by simp
  list_under p info h := by
    obtain ⟨hmem, hunder⟩ := List.mem_filter.mp h
    rw [Option.all_some, Bool.and_eq_true] at hunder
    exact ⟨hmem, hunder.1⟩
  list_behind p info h hunder hne := List.mem_filter.mpr ⟨h, by simp [hunder, hne]⟩

/-- A cluster of one shard with four objects, two of them in a directory. -/
def adapter : Adapter where
  buckets := ["b"]
  backend := .sharded [.store (store .s3Like
    [listed "b/x" (by decide), listed "b/y/1" (by decide), listed "b/y/2" (by decide), listed "b/z" (by decide)])]
  etagOf _ _ := none

def pageOfOne : ListRequest := { bucket := "b", delimiter := some "/", maxKeys := some 1 }

end Sample

open Sample in
theorem pages_of_one_are_exact : ∃ items : List Key, items.Pairwise (· < ·) ∧
    (∀ item, item ∈ items ↔ pageOfOne.isBehind item = true ∧ ∃ key, adapter.Stores pageOfOne.bucket key ∧
      startsWith key pageOfOne.prefixStr = true ∧
        (key = item ∧ pageOfOne.groupOf item = none ∨ pageOfOne.groupOf key = some item)) ∧
    (∀ fuel, items.length < fuel → ∃ answers shown, adapter.listAll fuel pageOfOne = some (.ok answers) ∧
      List.Forall₂ (Shows pageOfOne) answers shown ∧ shown.flatten = items) ∧
    ∀ n : Int, items.length ≤ n → 1 ≤ n → ∃ r, adapter.listObjectsV2 { pageOfOne with maxKeys := some n } = .ok r ∧
      r.isTruncated = false ∧ Shows pageOfOne r items :=
  pages_are_exact adapter pageOfOne List.mem_cons_self (by decide)

end ObjStr.S3
