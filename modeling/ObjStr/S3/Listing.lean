/-
  ObjStr.S3.Listing — `list_objects_v2` (`objstrd/src/adapter.rs`).

  The backend lists what it has in the directory of the prefix. Each path is turned back into a key; keys that do not
  begin with the prefix or do not lie behind the cursors are dropped, those with a delimiter behind the prefix are grouped
  under what they have up to it. Keys and groups are merged in order until the page is full.

  The backend lists each location once, and a location is a path (`Backend.listed_once`, `Backend.listed_paths`).
-/

import Mathlib.Data.String.Basic
import ObjStr.Lib.Pages
import ObjStr.S3.Keys

namespace ObjStr.S3

open ObjStr.Lib ObjStr.Raw ObjStr.Sharded

/-! ## The backend -/

/-- An object of a store that is not a raw one; its location is a path. -/
structure PathObject where
  info : ObjectMeta
  isPath : Path.IsPath info.location

/-- A raw store whose keys are paths, as every location of a call is one. -/
structure PathStore where
  store : Raw.Store
  isPath : ∀ e ∈ store.snapshot, Path.IsPath e.1

/-- A store that is not a raw one. All that `object_store` promises of its `list`: without a path it lists every object; under a
    path it lists, of the objects under it, those that go on behind it. Whether it lists an object at the very path that is asked
    for is up to the store. -/
structure ListedStore where
  kind : ShardKind
  objects : List PathObject
  list : Option Key → List ObjectMeta
  list_all : ∀ info, info ∈ list none ↔ info ∈ objects.map PathObject.info
  list_under : ∀ p, ∀ info ∈ list (some p), info ∈ objects.map PathObject.info ∧ Path.prefixMatches info.location p = true
  list_behind : ∀ p, ∀ info ∈ objects.map PathObject.info, Path.prefixMatches info.location p = true → info.location ≠ p →
    info ∈ list (some p)

/-- A shard, as a listing sees it; a shard whose listing fails shows nothing. -/
inductive ListedShard where
  | raw (s : PathStore)
  | store (s : ListedStore)

namespace ListedShard

/-- The items of a shard under a prefix, without markers and, on a shard that has them, without sidecars. -/
def items (pre : Option Key) : ListedShard → List (ObjectMeta × UInt16)
  | .raw s => (s.store.listWithMeta pre).filter fun item => !isDeleteMarker item.1.location
  | .store s =>
    ((s.list pre).filter fun info =>
      !(decide (s.kind = .sidecar) && isSidecar info.location) && !isDeleteMarker info.location).map fun info => (info, 0)

end ListedShard

def firstOfEach : List Key → List (ObjectMeta × UInt16) → List (ObjectMeta × UInt16)
  | _, [] => []
  | seen, item :: rest =>
    if item.1.location ∈ seen then firstOfEach seen rest else item :: firstOfEach (item.1.location :: seen) rest

inductive Backend where
  | raw (s : PathStore)
  | sharded (shards : List ListedShard)

def Backend.listWithMeta (pre : Option Key) : Backend → List (ObjectMeta × UInt16)
  | .raw s => s.store.listWithMeta pre
  | .sharded shards => firstOfEach [] (shards.flatMap (ListedShard.items pre))

/-- What is listed is an object of the store. -/
theorem ListedStore.mem_of_list {s : ListedStore} {pre : Option Key} {info : ObjectMeta} (h : info ∈ s.list pre) :
    ∃ o ∈ s.objects, o.info = info := by
  cases pre with
  | none => exact List.mem_map.mp ((s.list_all info).mp h)
  | some p => exact List.mem_map.mp (s.list_under p info h).1

theorem keyPath_of_isPath {k : Key} (h : Path.IsPath k) : keyPath k = k := rawPath_of_isPath h

theorem mem_listWithMeta {s : Raw.Store} {pre : Option Key} {item : ObjectMeta × UInt16} (h : item ∈ s.listWithMeta pre) :
    ∃ e ∈ s.snapshot, item.1.location = keyPath e.1 := by
  unfold Raw.Store.listWithMeta at h
  obtain ⟨e, he, rfl⟩ := List.mem_map.mp h
  exact ⟨e, (List.mem_filter.mp he).1, rfl⟩

theorem nodup_snapshot (s : Raw.Store) : (s.snapshot.map (·.1)).Nodup := by
  have hkeys : (s.files.entries.filter fun e => !isMultipartTmp e.1).NodupKeys := s.files.nodupKeys.sublist List.filter_sublist
  unfold Raw.Store.snapshot
  rw [List.map_map]
  exact hkeys

theorem mem_firstOfEach {seen : List Key} {items : List (ObjectMeta × UInt16)} {item : ObjectMeta × UInt16}
    (h : item ∈ firstOfEach seen items) : item ∈ items ∧ item.1.location ∉ seen := by
  induction items generalizing seen with
  | nil => cases h
  | cons first rest ih =>
    unfold firstOfEach at h
    split at h
    · exact ⟨List.mem_cons_of_mem _ (ih h).1, (ih h).2⟩
    · next hnew =>
      rcases List.mem_cons.mp h with rfl | h
      · exact ⟨List.mem_cons_self, hnew⟩
      · exact ⟨List.mem_cons_of_mem _ (ih h).1, fun hs => (ih h).2 (List.mem_cons_of_mem _ hs)⟩

theorem exists_firstOfEach {items : List (ObjectMeta × UInt16)} {seen : List Key} {location : Key} (hnew : location ∉ seen)
    (h : ∃ item ∈ items, item.1.location = location) : ∃ item ∈ firstOfEach seen items, item.1.location = location := by
  induction items generalizing seen with
  | nil =>
    obtain ⟨item, hitem, -⟩ := h
    cases hitem
  | cons first rest ih =>
    unfold firstOfEach
    by_cases hfirst : first.1.location = location
    · rw [if_neg (by rw [hfirst]; exact hnew)]
      exact ⟨first, List.mem_cons_self, hfirst⟩
    · have hrest : ∃ item ∈ rest, item.1.location = location := by
        obtain ⟨item, hitem, hloc⟩ := h
        rcases List.mem_cons.mp hitem with rfl | hitem
        · exact absurd hloc hfirst
        · exact ⟨item, hitem, hloc⟩
      split
      · exact ih hnew hrest
      · have hnew' : location ∉ first.1.location :: seen := fun hm =>
          (List.mem_cons.mp hm).elim (fun he => hfirst he.symm) hnew
        obtain ⟨item, hitem, hloc⟩ := ih hnew' hrest
        exact ⟨item, List.mem_cons_of_mem _ hitem, hloc⟩

theorem nodup_firstOfEach (seen : List Key) (items : List (ObjectMeta × UInt16)) :
    ((firstOfEach seen items).map (·.1.location)).Nodup := by
  induction items generalizing seen with
  | nil => exact List.nodup_nil
  | cons first rest ih =>
    unfold firstOfEach
    split
    · exact ih seen
    · rw [List.map_cons, List.nodup_cons]
      refine ⟨fun hm => ?_, ih _⟩
      obtain ⟨item, hitem, he⟩ := List.mem_map.mp hm
      exact (mem_firstOfEach hitem).2 (by rw [he]; exact List.mem_cons_self)

def Backend.Lists (b : Backend) (pre : Option Key) (location : Key) : Prop := ∃ item ∈ b.listWithMeta pre, item.1.location = location

/-- A cluster lists what one of its shards does. -/
theorem Backend.lists_sharded_iff {shards : List ListedShard} {pre : Option Key} {location : Key} :
    (Backend.sharded shards).Lists pre location ↔ ∃ shard ∈ shards, ∃ item ∈ shard.items pre, item.1.location = location := by
  unfold Backend.Lists Backend.listWithMeta
  constructor
  · intro h
    obtain ⟨item, hitem, hloc⟩ := h
    obtain ⟨shard, hshard, hitem⟩ := List.mem_flatMap.mp (mem_firstOfEach hitem).1
    exact ⟨shard, hshard, item, hitem, hloc⟩
  · intro h
    obtain ⟨shard, hshard, item, hitem, hloc⟩ := h
    exact exists_firstOfEach List.not_mem_nil ⟨item, List.mem_flatMap.mpr ⟨shard, hshard, hitem⟩, hloc⟩

theorem Backend.listed_paths (b : Backend) (pre : Option Key) : ∀ item ∈ b.listWithMeta pre, Path.IsPath item.1.location := by
  intro item h
  cases b with
  | raw s =>
    obtain ⟨e, -, he⟩ := mem_listWithMeta h
    rw [he]
    exact isPath_rawPath e.1
  | sharded shards =>
    obtain ⟨shard, -, hshard⟩ := List.mem_flatMap.mp (mem_firstOfEach h).1
    cases shard with
    | raw s =>
      obtain ⟨e, -, he⟩ := mem_listWithMeta (List.mem_filter.mp hshard).1
      rw [he]
      exact isPath_rawPath e.1
    | store s =>
      obtain ⟨info, hinfo, rfl⟩ := List.mem_map.mp hshard
      obtain ⟨o, -, rfl⟩ := s.mem_of_list (List.mem_filter.mp hinfo).1
      exact o.isPath

theorem Backend.listed_once (b : Backend) (pre : Option Key) : ((b.listWithMeta pre).map (·.1.location)).Nodup := by
  cases b with
  | raw s =>
    have hpaths : ∀ e ∈ s.store.snapshot.filter (fun e => Raw.Store.under pre e.1), keyPath e.1 = e.1 := fun e he =>
      keyPath_of_isPath (s.isPath e (List.mem_filter.mp he).1)
    have hmap : ((Backend.raw s).listWithMeta pre).map (·.1.location) =
        (s.store.snapshot.filter fun e => Raw.Store.under pre e.1).map (·.1) := by
      show ((s.store.snapshot.filter fun e => Raw.Store.under pre e.1).map _).map _ = _
      rw [List.map_map]
      exact List.map_congr_left hpaths
    rw [hmap]
    exact (nodup_snapshot s.store).sublist (List.filter_sublist.map _)
  | sharded shards => exact nodup_firstOfEach _ _

/-! ## Requests -/

structure ListRequest where
  bucket : Key
  pre : Option Key := none
  delimiter : Option Key := none
  maxKeys : Option Int := none
  startAfter : Option Key := none
  continuationToken : Option Key := none
  fetchOwner : Bool := false
  urlEncoding : Bool := false

structure Owner where
  id : String
  displayName : String
  deriving DecidableEq

structure ListedObject where
  key : Key
  lastModified : DateTime
  size : Nat
  owner : Option Owner
  eTag : Option String
  deriving DecidableEq

structure ListResponse where
  keyCount : Nat
  maxKeys : Int
  isTruncated : Bool
  nextContinuationToken : Option Key
  continuationToken : Option Key
  contents : Option (List ListedObject)
  commonPrefixes : Option (List Key)
  delimiter : Option Key
  urlEncoding : Bool
  name : Key
  pre : Option Key
  startAfter : Option Key

namespace ListRequest

variable (req : ListRequest)

def prefixStr : Key := req.pre.getD ""

def dirPrefix : Key :=
  req.bucket ++ "/" ++ String.ofList (req.prefixStr.toList.reverse.dropWhile (· != '/')).reverse

/-- An empty delimiter is none. -/
def delim : Option Key := req.delimiter.filter fun d => d ≠ ""

/-- Behind `start_after` and the token. -/
def isBehind (k : Key) : Bool := req.startAfter.all (· < k) && req.continuationToken.all (· < k)

end ListRequest

def upTo (d : List Char) : List Char → Option (List Char)
  | [] => if d = [] then some [] else none
  | c :: rest => if d.isPrefixOf (c :: rest) then some d else (upTo d rest).map (c :: ·)

/-- The group of a key: the prefix and what follows, up to the delimiter. -/
def ListRequest.groupOf (req : ListRequest) (key : Key) : Option Key :=
  req.delim.bind fun d =>
    (upTo d.toList (key.toList.drop req.prefixStr.toList.length)).map fun q => req.prefixStr ++ String.ofList q

def defaultMaxKeys : Int := 1000

def ListRequest.limit (req : ListRequest) : Int := req.maxKeys.getD defaultMaxKeys

def listOwner (fetchOwner : Bool) : Option Owner := if fetchOwner then some ⟨"testuser", "Test User"⟩ else none

/-- Percent-encode what is not a letter, a digit or one of a few signs. -/
def urlEncode (s : Key) : Key :=
  String.ofList (s.toList.flatMap fun c =>
    if c.isAlphanum || c == '-' || c == '_' || c == '.' || c == '~' || c == '/' then [c]
    else (String.utf8EncodeChar c).flatMap Path.encodeByte)

/-- `BTreeSet`: each element once, in order. -/
def sortedSet (l : List Key) : List Key := l.dedup.insertionSort (· ≤ ·)

section ListObjects

variable (req : ListRequest) (listing : List (ObjectMeta × UInt16))

/-- The items of the bucket with the keys they are listed under, of those that begin with the prefix. -/
def candidates : List (Key × ObjectMeta) :=
  (listing.filterMap fun item => (listedKey req.bucket item.1.location).map fun key => (key, item.1)).filter fun e =>
    startsWith e.1 req.prefixStr

def listedObjects : List ListedObject :=
  (((candidates req listing).filter fun e => req.isBehind e.1 && (req.groupOf e.1).isNone).map fun e =>
    (⟨e.1, e.2.lastModified, e.2.size, listOwner req.fetchOwner, none⟩ : ListedObject)).insertionSort fun a b => a.key ≤ b.key

def listedPrefixes : List Key :=
  sortedSet ((((candidates req listing).filter fun e => req.isBehind e.1).filterMap fun e => req.groupOf e.1).filter
    fun cp => req.isBehind cp)

/-- The page, once the bucket's items are known; `etagOf` is what `load_metadata` finds under `etag`. -/
def listPage (etagOf : Key → Option String) : ListResponse :=
  let r := mergeTake ListedObject.key req.limit.toNat (listedObjects req listing) (listedPrefixes req listing)
  let isTruncated := decide (0 < req.limit) && (!r.2.1.isEmpty || !r.2.2.isEmpty)
  let contents := r.1.1.map fun o =>
    { o with eTag := etagOf o.key, key := if req.urlEncoding then urlEncode o.key else o.key }
  let commonPrefixes := r.1.2.map fun p => if req.urlEncoding then urlEncode p else p
  { keyCount := r.1.1.length + r.1.2.length
    maxKeys := req.limit
    isTruncated
    nextContinuationToken := if isTruncated then greaterLast ListedObject.key r.1.1 r.1.2 else none
    continuationToken := req.continuationToken
    contents := if contents = [] then none else some contents
    commonPrefixes := if commonPrefixes = [] then none else some commonPrefixes
    delimiter := req.delim
    urlEncoding := req.urlEncoding
    name := req.bucket
    pre := req.pre
    startAfter := req.startAfter }

end ListObjects

structure Adapter where
  buckets : List Key
  backend : Backend
  /-- By bucket and key. -/
  etagOf : Key → Key → Option String

def Adapter.listObjectsV2 (a : Adapter) (req : ListRequest) : Except S3Error ListResponse :=
  if req.bucket ∈ a.buckets then
    .ok (listPage req (a.backend.listWithMeta (some (rawPath req.dirPrefix))) (a.etagOf req.bucket))
  else .error .noSuchBucket

end ObjStr.S3
