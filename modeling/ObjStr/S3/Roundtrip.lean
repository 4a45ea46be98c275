/-
  ObjStr.S3.Roundtrip — whether keys come back from the store as they were put.

  A key comes back if its path is kept by the encoding (`Plain`) and the listing does not take it for something internal
  (`Backend.Exposes`): a shard with sidecars hides what is named like one.
  - `keys_come_back_iff`: two keys have different paths and both are listed exactly if this holds of both.
  - `a_double_slash_is_dropped`: two keys that `put_object` takes share one path, and only one of them is listed.
-/

import ObjStr.S3.Pages

namespace ObjStr.S3

open ObjStr.Lib ObjStr.Raw ObjStr.Sharded

/-! ## What the backend has -/

def ListedShard.locations : ListedShard → List Key
  | .raw s => s.store.files.keys
  | .store s => s.objects.map fun o => o.info.location

def ListedShard.hides (location : Key) : ListedShard → Bool
  | .raw _ => false
  | .store s => decide (s.kind = .sidecar) && isSidecar location

def Backend.Holds (location : Key) : Backend → Prop
  | .raw s => location ∈ s.store.files
  | .sharded shards => ∃ shard ∈ shards, location ∈ shard.locations

/-- It is stored where a listing does not hide it. -/
def Backend.Exposes (location : Key) : Backend → Prop
  | .raw s => location ∈ s.store.files
  | .sharded shards => ∃ shard ∈ shards, location ∈ shard.locations ∧ shard.hides location = false

theorem PathStore.mem_listWithMeta_iff (s : PathStore) {pre location : Key} (hpath : Path.IsPath location)
    (hpre : Path.prefixMatches location pre = true) (hres : isMultipartTmp location = false) :
    (∃ item ∈ s.store.listWithMeta (some pre), item.1.location = location) ↔ location ∈ s.store.files := by
  constructor
  · intro h
    obtain ⟨item, hitem, hloc⟩ := h
    obtain ⟨e, he, heq⟩ := mem_listWithMeta hitem
    rw [keyPath_of_isPath (s.isPath e he), hloc] at heq
    obtain ⟨e', he', rfl⟩ := List.mem_map.mp he
    rw [heq]
    exact List.mem_keys_of_mem (List.mem_filter.mp he').1
  · intro h
    obtain ⟨info, hinfo⟩ := Option.isSome_iff_exists.mp (AList.lookup_isSome.mpr h)
    have hentry : (⟨location, info⟩ : Sigma fun _ : Key => ExtentInfo) ∈ s.store.files.entries := AList.mem_lookup_iff.mp hinfo
    have hsnap : (location, info) ∈ s.store.snapshot :=
      List.mem_map.mpr ⟨_, List.mem_filter.mpr ⟨hentry, by rw [hres]; rfl⟩, rfl⟩
    refine ⟨_, List.mem_map_of_mem (List.mem_filter.mpr ⟨hsnap, ?_⟩), keyPath_of_isPath hpath⟩
    show Path.prefixMatches (keyPath location) pre = true
    rw [keyPath_of_isPath hpath]
    exact hpre

theorem ListedShard.mem_items_iff {shard : ListedShard} {pre location : Key} (hpath : Path.IsPath location)
    (hpre : Path.prefixMatches location pre = true) (hne : location ≠ pre) (hres : isMultipartTmp location = false)
    (hmark : isDeleteMarker location = false) :
    (∃ item ∈ shard.items (some pre), item.1.location = location) ↔ location ∈ shard.locations ∧ shard.hides location = false := by
  cases shard with
  | raw s =>
    have hiff := s.mem_listWithMeta_iff hpath hpre hres
    unfold ListedShard.items ListedShard.locations ListedShard.hides
    rw [and_iff_left rfl]
    refine Iff.trans ?_ hiff
    constructor
    · intro h
      obtain ⟨item, hitem, hloc⟩ := h
      exact ⟨item, (List.mem_filter.mp hitem).1, hloc⟩
    · intro h
      obtain ⟨item, hitem, hloc⟩ := h
      exact ⟨item, List.mem_filter.mpr ⟨hitem, by rw [hloc, hmark]; rfl⟩, hloc⟩
  | store s =>
    unfold ListedShard.items ListedShard.locations ListedShard.hides
    constructor
    · intro h
      obtain ⟨item, hitem, hloc⟩ := h
      obtain ⟨info, hinfo, rfl⟩ := List.mem_map.mp hitem
      obtain ⟨hinfo, hshown⟩ := List.mem_filter.mp hinfo
      obtain ⟨o, ho, rfl⟩ := s.mem_of_list hinfo
      rw [hloc, hmark, Bool.not_false, Bool.and_true, Bool.not_eq_true'] at hshown
      exact ⟨List.mem_map.mpr ⟨o, ho, hloc⟩, hshown⟩
    · intro h
      obtain ⟨hmem, hshown⟩ := h
      have hshown : (decide (s.kind = .sidecar) && isSidecar location) = false := hshown
      obtain ⟨o, ho, hloc⟩ := List.mem_map.mp hmem
      have hlisted := s.list_behind pre o.info (List.mem_map_of_mem ho) (by rw [hloc]; exact hpre) (by rw [hloc]; exact hne)
      refine ⟨_, List.mem_map_of_mem (List.mem_filter.mpr ⟨hlisted, ?_⟩), hloc⟩
      rw [hloc, hmark, hshown]
      rfl

/-- What is listed behind a prefix of the location is what is exposed. -/
theorem Backend.listed_iff {b : Backend} {pre location : Key} (hpath : Path.IsPath location)
    (hpre : Path.prefixMatches location pre = true) (hne : location ≠ pre) (hres : isMultipartTmp location = false)
    (hmark : isDeleteMarker location = false) : b.Lists (some pre) location ↔ b.Exposes location := by
  cases b with
  | raw s => exact s.mem_listWithMeta_iff hpath hpre hres
  | sharded shards =>
    rw [Backend.lists_sharded_iff]
    exact exists_congr fun shard => and_congr_right fun _ => ListedShard.mem_items_iff hpath hpre hne hres hmark

/-! ## Locations in a bucket -/

/-- The name of a bucket does not begin with an underscore, as what is internal does. -/
theorem BucketName.head {bucket : Key} (h : BucketName bucket) : ∃ c rest, bucket.toList = c :: rest ∧ c ≠ '_' ∧ c.toNat < 128 := by
  obtain ⟨c, rest, hb⟩ := List.exists_cons_of_ne_nil h.isPart.1.1
  refine ⟨c, rest, hb, fun he => ?_, ?_⟩
  · have hc := h.chars c (by rw [hb]; exact List.mem_cons_self)
    rw [he] at hc
    exact absurd hc (by decide)
  · have hc := h.chars c (by rw [hb]; exact List.mem_cons_self)
    simp only [Bool.or_eq_true, beq_iff_eq] at hc
    rcases hc with ((hc | hc) | rfl) | rfl
    · have hle := toNat_of_isLower hc
      omega
    · have hle : 48 ≤ c.toNat ∧ c.toNat ≤ 57 := by
        simpa [Char.isDigit, UInt32.le_iff_toNat_le] using hc
      omega
    · decide
    · decide

theorem BucketName.not_marker {bucket : Key} (h : BucketName bucket) (m : Key) : isDeleteMarker (bucket ++ "/" ++ m) = false := by
  obtain ⟨c, rest, hb, hne, -⟩ := h.head
  have hpre : deleteMarkerPrefix.toList = '_' :: "_deleted__/".toList := by decide
  rw [Bool.eq_false_iff]
  intro hp
  unfold isDeleteMarker at hp
  rw [List.isPrefixOf_iff_prefix, toList_inBucket, hb, hpre, List.cons_append, List.cons_prefix_cons] at hp
  exact hne hp.1.symm

theorem BucketName.not_reserved {bucket : Key} (h : BucketName bucket) (m : Key) : isMultipartTmp (bucket ++ "/" ++ m) = false := by
  obtain ⟨c, rest, hb, hne, hlt⟩ := h.head
  have henc : String.utf8EncodeChar c = [UInt8.ofNat c.toNat] := by
    unfold String.utf8EncodeChar
    exact if_pos (by show c.toNat ≤ 127; omega)
  have hpre : keyBytes multipartTmpPrefix = 95 :: keyBytes "_raw_multipart_tmp/" := by decide +kernel
  rw [Bool.eq_false_iff]
  intro hp
  unfold isMultipartTmp at hp
  rw [List.isPrefixOf_iff_prefix, keyBytes_eq (_ ++ _), toList_inBucket, hb, hpre, List.cons_append, List.flatMap_cons, henc,
    List.cons_append, List.cons_prefix_cons] at hp
  have hval := congrArg UInt8.toNat hp.1
  rw [UInt8.toNat_ofNat_of_lt' (by show c.toNat < 256; omega)] at hval
  exact hne (Char.toNat_inj.mp hval.symm)

/-- A whole bucket is listed under its name. -/
theorem rawPath_bucket {bucket : Key} (h : BucketName bucket) : rawPath (bucket ++ "/") = bucket := by
  obtain ⟨hpart, hslash⟩ := h.isPart
  refine rawPath_slash ?_ h.nonempty
  rw [isPath_iff_parts h.nonempty, List.splitOn_eq_singleton hslash]
  intro part hm
  rw [List.mem_singleton.mp hm]
  exact hpart

theorem inBucket_ne (bucket m : Key) : bucket ++ "/" ++ m ≠ bucket := by
  intro h
  have hlength := congrArg (fun s => s.toList.length) h
  simp only [toList_inBucket, List.length_append, List.length_cons] at hlength
  omega

theorem prefixMatches_bucket (bucket m : Key) : Path.prefixMatches (bucket ++ "/" ++ m) bucket = true := by
  unfold Path.prefixMatches
  rw [toList_inBucket, List.drop_left]
  simp

/-! ## Keys that are listed -/

/-- The whole bucket, in pages of `n`. -/
def wholeBucket (bucket : Key) (n : Int) : ListRequest := { bucket, maxKeys := some n }

/-- The key is on some page of the bucket, whatever the size of the pages. -/
def Adapter.Reports (a : Adapter) (bucket key : Key) : Prop :=
  ∀ n : Int, 1 ≤ n → ∃ fuel answers, a.listAll fuel (wholeBucket bucket n) = some (.ok answers) ∧
    ∃ r ∈ answers, key ∈ (r.contents.getD []).map ListedObject.key

/-- Every answer is a page of the request with some token. -/
theorem Adapter.answered (a : Adapter) {fuel : Nat} {req : ListRequest} {answers : List ListResponse}
    (h : a.listAll fuel req = some (.ok answers)) : ∀ r ∈ answers, ∃ token, r = listPage { req with continuationToken := token }
      (a.backend.listWithMeta (some (rawPath req.dirPrefix))) (a.etagOf req.bucket) := by
  induction fuel generalizing req answers with
  | zero => cases h
  | succ fuel ih =>
    unfold Adapter.listAll at h
    cases hfirst : a.listObjectsV2 req with
    | error e =>
      rw [hfirst] at h
      cases h
    | ok first =>
      have hpage : first = listPage req (a.backend.listWithMeta (some (rawPath req.dirPrefix))) (a.etagOf req.bucket) := by
        unfold Adapter.listObjectsV2 at hfirst
        split at hfirst
        · exact (Except.ok.inj hfirst).symm
        · cases hfirst
      rw [hfirst] at h
      dsimp only at h
      split at h
      · obtain ⟨rest, hrest, he⟩ := Option.map_eq_some_iff.mp h
        cases rest with
        | error e => cases he
        | ok rest =>
          obtain rfl := Except.ok.inj he
          intro r hr
          rcases List.mem_cons.mp hr with rfl | hr
          · exact ⟨req.continuationToken, hpage⟩
          · exact ih hrest r hr
      · obtain rfl := Except.ok.inj (Option.some.inj h)
        intro r hr
        rw [List.mem_singleton.mp hr]
        exact ⟨req.continuationToken, hpage⟩

/-- The keys of a page are those of items in the bucket. -/
theorem listed_of_page {req : ListRequest} {listing : List (ObjectMeta × UInt16)} {etagOf : Key → Option String} {key : Key}
    (henc : req.urlEncoding = false) (hkey : key ∈ ((listPage req listing etagOf).contents.getD []).map ListedObject.key) :
    ∃ item ∈ listing, listedKey req.bucket item.1.location = some key := by
  unfold listPage at hkey
  dsimp only at hkey
  rw [getD_none_of_nil, List.map_map, List.mem_map] at hkey
  obtain ⟨o, ho, hkey⟩ := hkey
  simp only [Function.comp_apply, henc, Bool.false_eq_true, if_false] at hkey
  have htaken := (mergeTake_append ListedObject.key req.limit.toNat (listedObjects req listing) (listedPrefixes req listing)).1
  have hmem : o ∈ listedObjects req listing := by
    rw [← htaken]
    exact List.mem_append_left _ ho
  obtain ⟨-, e, he, hek, -⟩ := (mem_listedObjects req).mp (List.mem_map_of_mem hmem)
  obtain ⟨item, hitem, he'⟩ := List.mem_filterMap.mp (List.mem_filter.mp he).1
  obtain ⟨k, hk, rfl⟩ := Option.map_eq_some_iff.mp he'
  exact ⟨item, hitem, by rw [hk, ← hkey, ← hek]⟩

/-- Without a delimiter there are no groups. -/
theorem page_without_groups {req : ListRequest} {listing : List (ObjectMeta × UInt16)} {etagOf : Key → Option String}
    (hdelim : req.delim = none) : (listPage req listing etagOf).commonPrefixes.getD [] = [] := by
  have hnone : listedPrefixes req listing = [] := by
    rw [List.eq_nil_iff_forall_not_mem]
    intro p hp
    obtain ⟨-, e, -, hgroup⟩ := (mem_listedPrefixes req).mp hp
    unfold ListRequest.groupOf at hgroup
    rw [hdelim] at hgroup
    cases hgroup
  have htaken := (mergeTake_append ListedObject.key req.limit.toNat (listedObjects req listing) (listedPrefixes req listing)).2
  rw [hnone] at htaken
  unfold listPage
  dsimp only
  rw [getD_none_of_nil, hnone, (List.append_eq_nil_iff.mp htaken).1]
  rfl

theorem exists_of_forall₂ {α β : Type} {R : α → β → Prop} {l : List α} {m : List β} (h : List.Forall₂ R l m) :
    ∀ b ∈ m, ∃ a ∈ l, R a b := by
  induction h with
  | nil => exact fun _ hb => nomatch hb
  | cons hr _ ih =>
    intro b hb
    rcases List.mem_cons.mp hb with rfl | hb
    · exact ⟨_, List.mem_cons_self, hr⟩
    · obtain ⟨x, hx, hxb⟩ := ih b hb
      exact ⟨x, List.mem_cons_of_mem _ hx, hxb⟩

theorem mem_entries_of_listed {req : ListRequest} {listing : List (ObjectMeta × UInt16)} {key : Key} (hpre : req.prefixStr = "")
    (hdelim : req.delim = none) (hbehind : req.isBehind key = true)
    (h : ∃ item ∈ listing, listedKey req.bucket item.1.location = some key) : key ∈ entries req listing := by
  obtain ⟨item, hitem, hkey⟩ := h
  rw [mem_entries]
  refine ⟨hbehind, (key, item.1), List.mem_filter.mpr ⟨List.mem_filterMap.mpr ⟨item, hitem, by rw [hkey]; rfl⟩, ?_⟩, .inl ⟨rfl, ?_⟩⟩
  · rw [hpre]
    exact List.isPrefixOf_iff_prefix.mpr List.nil_prefix
  · unfold ListRequest.groupOf
    rw [hdelim]
    rfl

variable {a : Adapter} {bucket key : Key}

theorem dirPrefix_wholeBucket (n : Int) : (wholeBucket bucket n).dirPrefix = bucket ++ "/" := String.append_empty

/-- A key is reported if and only if an item of the bucket is listed under it. -/
theorem Adapter.reports_iff (hb : bucket ∈ a.buckets) : a.Reports bucket key ↔
    ∃ item ∈ a.backend.listWithMeta (some (rawPath (bucket ++ "/"))), listedKey bucket item.1.location = some key := by
  constructor
  · intro h
    obtain ⟨fuel, answers, hanswers, r, hr, hkey⟩ := h 1 (Int.le_refl 1)
    obtain ⟨token, rfl⟩ := a.answered hanswers r hr
    rw [dirPrefix_wholeBucket] at hkey
    have henc : ListRequest.urlEncoding { wholeBucket bucket 1 with continuationToken := token } = false := rfl
    have hlisted := listed_of_page henc hkey
    exact hlisted
  · intro h n hn
    have hentry : key ∈ a.entries (wholeBucket bucket n) := by
      unfold Adapter.entries
      rw [dirPrefix_wholeBucket]
      exact mem_entries_of_listed rfl rfl rfl h
    have hlen : (behind none (a.entries (wholeBucket bucket n))).length < (a.entries (wholeBucket bucket n)).length + 1 := by
      rw [behind_none]
      exact Nat.lt_succ_self _
    obtain ⟨answers, hanswers, hall⟩ := a.listAll_pages _ (wholeBucket bucket n) hb hn hlen
    have hflat := flatten_pages (a.pairwise_entries (wholeBucket bucket n)) (by show 0 < n.toNat; omega) _ none hlen
    rw [behind_none] at hflat
    rw [← hflat] at hentry
    obtain ⟨page, hpage, hmem⟩ := List.mem_flatten.mp hentry
    obtain ⟨r, hr, keys, prefixes, hkeys, hprefixes, hmerged⟩ := exists_of_forall₂ hall page hpage
    refine ⟨_, answers, hanswers, r, hr, ?_⟩
    obtain ⟨token, he⟩ := a.answered hanswers r hr
    have hnil : r.commonPrefixes.getD [] = [] := by
      rw [he]
      exact page_without_groups rfl
    rw [hnil] at hprefixes
    have hprefixes : prefixes = [] := List.map_eq_nil_iff.mp hprefixes.symm
    rw [hkeys]
    rw [← hmerged, mem_merged, hprefixes, List.map_id] at hmem
    exact List.mem_map.mpr ⟨key, hmem.resolve_right List.not_mem_nil, rfl⟩

/-! ## Keys that come back -/

/-- Two keys have paths of their own, and what is stored under each is reported under it. -/
structure Apart (a : Adapter) (bucket k1 k2 : Key) : Prop where
  paths : objKey bucket k1 ≠ objKey bucket k2
  first : a.Reports bucket k1
  second : a.Reports bucket k2

/-- A plain key is reported if its object is not hidden; no other key is. -/
theorem Adapter.reports_objKey_iff (hb : bucket ∈ a.buckets) (hname : BucketName bucket) :
    a.Reports bucket key ↔ Plain key ∧ a.backend.Exposes (objKey bucket key) := by
  rw [a.reports_iff hb, rawPath_bucket hname]
  constructor
  · intro h
    obtain ⟨item, hitem, hkey⟩ := h
    obtain ⟨hplain, hloc⟩ := of_listedKey hname (a.backend.listed_paths _ item hitem) hkey
    have hpath := objKey_of_plain hname hplain
    refine ⟨hplain, (Backend.listed_iff (isPath_objKey _ _) ?_ ?_ ?_ ?_).mp ⟨item, hitem, hloc.symm⟩⟩
    · rw [hpath]
      exact prefixMatches_bucket _ _
    · rw [hpath]
      exact inBucket_ne _ _
    · rw [hpath]
      exact hname.not_reserved _
    · rw [hpath]
      exact hname.not_marker _
  · intro h
    obtain ⟨hplain, hexposed⟩ := h
    have hpath := objKey_of_plain hname hplain
    have hpre : Path.prefixMatches (objKey bucket key) bucket = true := by
      rw [hpath]
      exact prefixMatches_bucket _ _
    have hne : objKey bucket key ≠ bucket := by
      rw [hpath]
      exact inBucket_ne _ _
    have hres : isMultipartTmp (objKey bucket key) = false := by
      rw [hpath]
      exact hname.not_reserved _
    have hmark : isDeleteMarker (objKey bucket key) = false := by
      rw [hpath]
      exact hname.not_marker _
    obtain ⟨item, hitem, hloc⟩ := (Backend.listed_iff (isPath_objKey _ _) hpre hne hres hmark).mpr hexposed
    exact ⟨item, hitem, by rw [hloc]; exact (listedKey_objKey_iff hname).mpr hplain⟩

theorem marked_injective {k1 k2 : Key} (h1 : Plain k1) (h2 : Plain k2) (h : marked k1 = marked k2) : k1 = k2 := by
  have h1 := unmarked_marked h1.unmarked
  rw [h, unmarked_marked h2.unmarked] at h1
  exact (Option.some.inj h1).symm

/-- Stored keys come back if and only if they are plain and nothing hides them. -/
theorem keys_come_back_iff (hb : bucket ∈ a.buckets) (hname : BucketName bucket) {k1 k2 : Key} (hne : k1 ≠ k2) :
    Apart a bucket k1 k2 ↔
      (Plain k1 ∧ a.backend.Exposes (objKey bucket k1)) ∧ Plain k2 ∧ a.backend.Exposes (objKey bucket k2) := by
  rw [← a.reports_objKey_iff hb hname, ← a.reports_objKey_iff hb hname]
  refine ⟨fun h => ⟨h.first, h.second⟩, fun h => ⟨fun he => hne ?_, h.1, h.2⟩⟩
  have hplain1 := ((a.reports_objKey_iff hb hname).mp h.1).1
  have hplain2 := ((a.reports_objKey_iff hb hname).mp h.2).1
  rw [objKey_of_plain hname hplain1, objKey_of_plain hname hplain2] at he
  refine marked_injective hplain1 hplain2 (String.toList_injective ?_)
  have hlist := congrArg String.toList he
  rw [toList_inBucket, toList_inBucket] at hlist
  exact (List.cons.inj (List.append_cancel_left hlist)).2

/-! ## A key that does not -/

theorem Sample.bucketName_b : BucketName "b" := ⟨List.all_eq_true.mp (by decide), by decide, by decide⟩

namespace Sample

/-- A file, a directory and a file in it, on a shard that hides what is named like a sidecar. -/
def written : Adapter where
  buckets := ["b"]
  backend := .sharded [.store (store .sidecar
    [listed "b/v" (by decide), listed "b/y/__DIRMARK__" (by decide), listed "b/y/1%2" (by decide)])]
  etagOf _ _ := none

theorem comes_back {key : Key} (h : key ∈ ["v", "y/", "y/1%2"]) : Plain key ∧ written.backend.Exposes (objKey "b" key) := by
  have hplain : ∀ key ∈ ["v", "y/", "y/1%2"], Path.isPath (marked key) = true ∧ key ≠ "" ∧
      (¬ endsWith key dirMarkSuffix = true ∧ key ≠ dirMark) ∧ ¬ startsWith key bucketsPrefix = true := by decide +kernel
  have hheld : ∀ key ∈ ["v", "y/", "y/1%2"], objKey "b" key ∈ ["b/v", "b/y/__DIRMARK__", "b/y/1%2"] ∧
      isSidecar (objKey "b" key) = false := by decide +kernel
  obtain ⟨hpath, hne, hunmarked, hvisible⟩ := hplain key h
  exact ⟨⟨(Path.isPath_iff _).mp hpath, hne, hunmarked, hvisible⟩, _, List.mem_cons_self, (hheld key h).1, (hheld key h).2⟩

end Sample

open Sample in
theorem keys_of_three_objects_come_back : Apart written "b" "v" "y/" ∧ Apart written "b" "v" "y/1%2" ∧ Apart written "b" "y/" "y/1%2" :=
  ⟨(keys_come_back_iff List.mem_cons_self bucketName_b (by decide)).mpr ⟨comes_back (by decide), comes_back (by decide)⟩,
    (keys_come_back_iff List.mem_cons_self bucketName_b (by decide)).mpr ⟨comes_back (by decide), comes_back (by decide)⟩,
    (keys_come_back_iff List.mem_cons_self bucketName_b (by decide)).mpr ⟨comes_back (by decide), comes_back (by decide)⟩⟩

/-- A cluster with one object, which was put under `a//b` or under `a/b`. -/
def Sample.oneObject : Adapter where
  buckets := ["b"]
  backend := .sharded [.store (store .s3Like [listed "b/a/b" (by decide)])]
  etagOf _ _ := none

open Sample in
/-- Two keys that are accepted have one path. -/
theorem a_double_slash_is_dropped : ¬ ∀ (a : Adapter) (bucket k1 k2 : Key), bucket ∈ a.buckets → BucketName bucket →
    validateKey k1 = .ok () → validateKey k2 = .ok () → k1 ≠ k2 → a.backend.Holds (objKey bucket k1) →
    a.backend.Holds (objKey bucket k2) → Apart a bucket k1 k2 := by
  intro h
  have h1 : objKey "b" "a//b" = "b/a/b" := by decide +kernel
  have h2 : objKey "b" "a/b" = "b/a/b" := by decide +kernel
  have hholds : oneObject.backend.Holds "b/a/b" := ⟨_, List.mem_cons_self, List.mem_cons_self⟩
  have hv1 : validateKey "a//b" = .ok () := by decide +kernel
  have hv2 : validateKey "a/b" = .ok () := by decide +kernel
  have hapart := h oneObject "b" "a//b" "a/b" List.mem_cons_self bucketName_b hv1 hv2 (by decide) (by rw [h1]; exact hholds)
    (by rw [h2]; exact hholds)
  exact hapart.paths (h1.trans h2.symm)

end ObjStr.S3
