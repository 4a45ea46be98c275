/-
  ObjStr.S3.Backends — one backend behind all requests (`objstrd/src/adapter.rs`).

  The requests are modelled over what they see of the backend: the writes over what a path holds (`Service.objects`), the reads
  over the answers of four calls (`ObjectReads`), the listings over the items of the shards (`Backend`). Here it is one store
  that all three are of, a raw one or that of a cluster.
  - `Backed.serves`: in every run over a raw store the service has the objects of the store; a write that fails leaves what the
    path held.
  - `Backed.shown`, `Backed.not_shown`: so what a path holds is read and listed, and nothing else.
  - `cluster_shown`: what a cluster has written is read and listed, if the shard that is asked first answers and keeps the fields.
  - `clusterListing_lists_iff`: a cluster lists what the store of a shard has, written or not, if each shard is seen so (`Sees`), as
    one is that lists its own objects (`sees_own`).
-/

import ObjStr.Raw.Objects
import ObjStr.S3.Backend
import ObjStr.S3.GetObject
import ObjStr.S3.Roundtrip
import ObjStr.S3.Uploads
import ObjStr.Sharded.ReadBack

namespace ObjStr.S3

open ObjStr.Lib ObjStr.Raw ObjStr.Sharded

/-- What is at a path, for the reads and for the listings: a body, and metadata with these fields. -/
structure Shown (reads : ObjectReads) (listing : Backend) (path : Key) (body : Bytes) (fields : FMap String) : Prop where
  serves : reads.Serves path body
  fields : ∃ metadata, readMeta (reads.metadata path) = .ok metadata ∧ ∀ name, metadata.lookup name = fields.lookup name
  listed : ∀ pre, Path.prefixMatches path pre = true → path ≠ pre → listing.Lists (some pre) path

structure Listable (path : Key) : Prop where
  isPath : Path.IsPath path
  notReserved : isMultipartTmp path = false
  notMarker : isDeleteMarker path = false
  notSidecar : isSidecar path = false

theorem readMeta_decodes {data : Bytes} {fields : FMap String}
    (hback : ∀ name, (Tlv.decodeMetadata data).lookup name = fields.lookup name) :
    ∃ metadata, readMeta (.ok data) = .ok metadata ∧ ∀ name, metadata.lookup name = fields.lookup name := by
  unfold readMeta
  dsimp only
  by_cases hnone : data = []
  · rw [if_pos hnone]
    rw [hnone] at hback
    exact ⟨∅, rfl, hback⟩
  · rw [if_neg hnone]
    exact ⟨_, rfl, hback⟩

/-! ## A raw store -/

/-- What the paths of a raw store hold. -/
def storedObjects (m : Raw.Objects) (path : Key) : Option StoredObject := (m path).map fun o => ⟨o.body, o.metadata⟩

/-- A backend that keeps what a path held if it fails. -/
def keepingAnswer (held : Option StoredObject) (ok : Bool) : Answer := if ok then .done else .failed held

theorem storedObjects_put (m : Raw.Objects) (path : Key) (o : Raw.Object) :
    storedObjects (m.put path o) = Function.update (storedObjects m) path (some ⟨o.body, o.metadata⟩) := by
  funext k
  unfold storedObjects Objects.put
  by_cases hk : k = path
  · subst hk
    simp
  · simp [Function.update_of_ne hk]

theorem storedObjects_drop (m : Raw.Objects) (path : Key) : storedObjects (m.drop [path]) = Function.update (storedObjects m) path none := by
  funext k
  unfold storedObjects Objects.drop
  by_cases hk : k = path
  · subst hk
    simp
  · simp [hk]

theorem store_keeping (svc : Service) (path : Key) (o : Option StoredObject) (ok : Bool) :
    (svc.store path o (keepingAnswer (svc.objects path) ok)).2.objects =
      if ok then Function.update svc.objects path o else svc.objects := by
  unfold Service.store keepingAnswer
  cases ok with
  | true => rfl
  | false => exact Function.update_eq_self _ _

section Raw

variable [Crates] {s s' : Raw.Store} {m : Raw.Objects} {path : Key}

/-- What a write from a file leaves of the objects. If the file cannot be read to its end, the write fails. -/
theorem raw_putWithMetaFromFile (h : Raw.Serves s m) (now : DateTime) (io : FileIo) (path : Key) {body metadata : Bytes}
    {metaLen : UInt16} (hlen : metadata.length = metaLen.toNat) :
    ∃ ok s', (StoreBackend.raw s).putWithMetaFromFile now io path (body ++ metadata) metaLen = (ok, .raw s') ∧
      Raw.Serves s' (if ok then m.put path ⟨body, metadata⟩ else m) := by
  have hwrite : Prog.wp (Raw.putWithMetaFromFile now path (io.read (body ++ metadata)) metaLen)
      (fun _ s' => Raw.Serves s' (m.put path ⟨body, metadata⟩)) (fun _ s' => Raw.Serves s' m) s := by
    by_cases hfails : (io.read (body ++ metadata)).fails = true
    · refine Prog.wp_mono (wp_putWithMetaFromFile_as .content h.space now path _ metaLen) (fun _ s' hdone => ?_)
        (fun _ s' hp => h.failed (by decide) hp)
      have hreads := hdone.1 (by decide)
      rw [hfails] at hreads
      cases hreads
    · have hread := io.whole _ (Bool.eq_false_iff.mpr hfails)
      have hwhole : (io.read (body ++ metadata)).Whole := by
        unfold SourceFile.Whole
        rw [hread, io.len]
      have hobject : Object.split (io.read (body ++ metadata)).reads.flatten metaLen.toNat = ⟨body, metadata⟩ := by
        rw [hread, ← hlen]
        exact Object.split_append body metadata
      have hserves := (Op.putWithMetaFromFile path (io.read (body ++ metadata)) metaLen).serves h now fun _ => hwhole
      refine Prog.wp_mono hserves (fun _ s' hdone => ?_) (fun _ _ hkept => hkept)
      rw [← hobject]
      exact hdone.2
  unfold StoreBackend.putWithMetaFromFile
  rcases hexec : (Raw.putWithMetaFromFile now path (io.read (body ++ metadata)) metaLen).exec s with ⟨e | _, s'⟩
  · simp only [hexec]
    exact ⟨false, s', rfl, Prog.wp_error hwrite hexec⟩
  · simp only [hexec]
    exact ⟨true, s', rfl, Prog.wp_ok hwrite hexec⟩

/-- A service, and the raw store that its objects are in: from a format on, each write and each delete of an object is a call of the
    store, and its answer says whether the call has returned. -/
inductive Backed : Raw.Store → Service → Prop where
  | new {opts : FormatOptions} {s : Raw.Store} {svc : Service} : Formatted opts s → svc.objects = (fun _ => none) → Backed s svc
  | put {s s' : Raw.Store} {svc : Service} {ok : Bool} (script : List Outcome) (now : DateTime) (io : FileIo) (path : Key) (o : StoredObject)
      {metaLen : UInt16} : Backed s svc → o.metadata.length = metaLen.toNat →
      (StoreBackend.raw (s.withScript script)).putWithMetaFromFile now io path (o.body ++ o.metadata) metaLen = (ok, .raw s') →
      Backed s' (svc.store path (some o) (keepingAnswer (svc.objects path) ok)).2
  | delete {s s' : Raw.Store} {svc : Service} {r : Except RawStoreError Unit} (script : List Outcome) (path : Key) : Backed s svc →
      (Raw.delete path).exec (s.withScript script) = (r, s') →
      Backed s' (svc.store path none (keepingAnswer (svc.objects path) r.toOption.isSome)).2
  /-- What a service does to its registry, the store does not see. -/
  | registry {s : Raw.Store} {svc svc' : Service} : Backed s svc → svc'.objects = svc.objects → Backed s svc'

/-- The objects of the service are those of the store. -/
theorem Backed.serves {svc : Service} (h : Backed s svc) : ∃ m, Raw.Serves s m ∧ svc.objects = storedObjects m := by
  induction h with
  | new hformatted hempty => exact ⟨.empty, hformatted.serves, hempty⟩
  | @put s s' svc ok script now io path o metaLen _ hlen hwrite ih =>
    obtain ⟨m, hserves, hobjects⟩ := ih
    obtain ⟨ok', s1, hexec, hafter⟩ := raw_putWithMetaFromFile (hserves.withScript script) now io path hlen
    rw [hwrite] at hexec
    cases hexec
    refine ⟨_, hafter, ?_⟩
    rw [store_keeping, hobjects]
    cases ok with
    | true => exact (storedObjects_put m path ⟨o.body, o.metadata⟩).symm
    | false => rfl
  | @delete s s' svc r script path _ hcall ih =>
    obtain ⟨m, hserves, hobjects⟩ := ih
    have hdone := (Op.delete path).serves (hserves.withScript script) 0 trivial
    rw [store_keeping, hobjects]
    cases r with
    | ok =>
      refine ⟨_, (Prog.wp_ok hdone hcall).2, ?_⟩
      exact (storedObjects_drop m path).symm
    | error err => exact ⟨m, Prog.wp_error hdone hcall, rfl⟩
  | registry _ hsame ih =>
    obtain ⟨m, hserves, hobjects⟩ := ih
    exact ⟨m, hserves, hsame.trans hobjects⟩

theorem raw_shown (h : Raw.Serves s m) (hpaths : ∀ e ∈ s.snapshot, Path.IsPath e.1) (hpath : Path.IsPath path)
    (hreserved : isMultipartTmp path = false) {body : Bytes} {metadata : Metadata} (hm : m path = some ⟨body, metadata.bytes⟩)
    (hmax : body.length + metadata.bytes.length ≤ compressedRangeReadMax) :
    Shown (ObjectReads.raw (s.withScript [])) (.raw ⟨s, hpaths⟩) path body metadata.fields := by
  cases hk : s.files.lookup path with
  | none =>
    rw [h.lookup_none.mp hk] at hm
    cases hm
  | some info =>
    obtain ⟨o, ho, hkeeps⟩ := h.listed hk
    obtain rfl := Option.some.inj (ho.symm.trans hm)
    have hobject := h.sane.isObject hk hkeeps.stored
    have hsmall : info.uncompressedSize ≤ compressedRangeReadMax := by
      refine Nat.le_trans hobject.uncompressedSize_le ?_
      rwa [Object.payload, List.length_append]
    refine ⟨?_, ?_, fun pre hpre _ => ?_⟩
    · have hserves := raw_serves hobject hsmall
      rwa [← hkeeps.split_eq.1] at hserves
    · have hread := hobject.exec_getMetadata_behind hsmall
      rw [← hkeeps.split_eq.2] at hread
      obtain ⟨fields, hfields, hsame⟩ := readMeta_decodes (Tlv.decode_encode metadata.named metadata.encodes)
      refine ⟨fields, ?_, hsame⟩
      show readMeta ((Raw.getMetadata path).exec (s.withScript [])).1 = _
      rw [hread]
      exact hfields
    · have hmem : path ∈ s.files := AList.lookup_isSome.mp (by rw [hk]; rfl)
      exact (PathStore.mem_listWithMeta_iff ⟨s, hpaths⟩ hpath hpre hreserved).mpr hmem

/-- What a path does not hold is not found, and not listed. -/
theorem raw_not_shown (h : Raw.Serves s m) (hpaths : ∀ e ∈ s.snapshot, Path.IsPath e.1) (hpath : Path.IsPath path)
    (hreserved : isMultipartTmp path = false) (hm : storedObjects m path = none) :
    (ObjectReads.raw (s.withScript [])).head path = .error (.notFound path) ∧
      ∀ pre, Path.prefixMatches path pre = true → ¬ (Backend.raw ⟨s, hpaths⟩).Lists (some pre) path := by
  have hk : s.files.lookup path = none := h.lookup_none.mpr (Option.map_eq_none_iff.mp hm)
  refine ⟨?_, fun pre hpre hlists => ?_⟩
  · show (((Raw.headWithMeta path).exec (s.withScript [])).1.map _) = _
    rw [(showsNone_of_lookup hk).head]
    rfl
  · have hmem := (PathStore.mem_listWithMeta_iff ⟨s, hpaths⟩ hpath hpre hreserved).mp hlists
    have hsome := AList.lookup_isSome.mpr hmem
    rw [hk] at hsome
    cases hsome

/-- In every run over a raw store, what a path of the service holds is what is read and listed there. -/
theorem Backed.shown {svc : Service} (h : Backed s svc) (hpaths : ∀ e ∈ s.snapshot, Path.IsPath e.1) (hpath : Path.IsPath path)
    (hreserved : isMultipartTmp path = false) {body : Bytes} {metadata : Metadata}
    (hobject : svc.objects path = some ⟨body, metadata.bytes⟩) (hmax : body.length + metadata.bytes.length ≤ compressedRangeReadMax) :
    Shown (ObjectReads.raw (s.withScript [])) (.raw ⟨s, hpaths⟩) path body metadata.fields := by
  obtain ⟨m, hserves, hobjects⟩ := h.serves
  rw [hobjects] at hobject
  refine raw_shown hserves hpaths hpath hreserved ?_ hmax
  obtain ⟨⟨b, data⟩, hm, heq⟩ := Option.map_eq_some_iff.mp hobject
  cases heq
  exact hm

theorem Backed.not_shown {svc : Service} (h : Backed s svc) (hpaths : ∀ e ∈ s.snapshot, Path.IsPath e.1) (hpath : Path.IsPath path)
    (hreserved : isMultipartTmp path = false) (hnone : svc.objects path = none) :
    (ObjectReads.raw (s.withScript [])).head path = .error (.notFound path) ∧
      ∀ pre, Path.prefixMatches path pre = true → ¬ (Backend.raw ⟨s, hpaths⟩).Lists (some pre) path := by
  obtain ⟨m, hserves, hobjects⟩ := h.serves
  rw [hobjects] at hnone
  exact raw_not_shown hserves hpaths hpath hreserved hnone

end Raw

/-! ## A cluster -/

/-- `obj_err`; the texts of other errors are left out. -/
def rawErrorOf : Sharded.Error → RawStoreError
  | .notFound path => .notFound path
  | .store (.notFound path) => .notFound path
  | .panic => .panic ""
  | _ => .io ""

section Cluster

variable [Crates] {refs : RawRefRegistry} {s s' : Sys} {path : Key} {body : Bytes} {metadata : Metadata} {metaLen : UInt16}
  {rounds : List ShardId × List ShardId} {e : PlacementEntry} {x : ShardId} {rest : List ShardId}

/-- The calls of a cluster. A range, which the shard cuts out itself, is cut out of the object. -/
def clusterReads (refs : RawRefRegistry) (s : Sys) : ObjectReads where
  head path := (((Sharded.headWithMeta refs path).exec s).1.map fun r =>
    (⟨UInt64.ofNat r.1.body.length, r.1.lastModified⟩ : ObjectHead)).mapError rawErrorOf
  metadata path := ((Sharded.getMetadata refs path).exec s).1.mapError rawErrorOf
  range path start stop := (((Sharded.get path).exec s).1.map fun o => slice o.body start stop).mapError rawErrorOf
  body path := (((Sharded.get path).exec s).1.map fun o => o.body).mapError rawErrorOf

/-- What a write that succeeds leaves: an entry of different shards, on whose stores it is done. -/
structure Stored (refs : RawRefRegistry) (path : Key) (body metadata : Bytes) (s s' : Sys) (e : PlacementEntry) : Prop where
  same : SameRefs s.cluster s'.cluster
  listed : s'.cluster.catalog.get path = some e
  nodup : e.shards.Nodup
  attached : ∀ x ∈ e.shards, s.cluster.storeRef x = some (s.cluster.config.storeOf x)
  registered : ∀ x ∈ e.shards, refs.get x = if refs.kind x = .raw then s.cluster.storeRef x else none
  did : ∀ x ∈ e.shards, (s.storeAt x).putMeta (refs.kind x) path body metadata = (.ok (), s'.storeAt x)

theorem stored_of_written {metadata : Bytes} (hr : refs.Matches s.cluster) (hrounds : s.Rounds refs path body metadata rounds)
    (h : Written refs path body metadata metaLen rounds s (.ok ()) s') : ∃ e, Stored refs path body metadata s s' e := by
  have henough := h.ok_iff.1.mp rfl
  obtain ⟨mid, hsame, -, hran, hdone, -⟩ := h
  obtain ⟨-, rfl⟩ := hdone henough
  refine ⟨⟨rounds.2, body.length, some (crc32c body), mid.now, metaLen⟩, ⟨hsame.config, hsame.attached⟩, ?_, hrounds.nodup, ?_, ?_, ?_⟩
  · simp only [Sys.withCatalog, Catalog.get_put, if_true]
  · intro x hx
    obtain ⟨hsent, st, hst, -⟩ := hrounds.took x hx
    rw [(hrounds.sent x hsent).2] at hst
    rw [hst, (Cluster.storeRef_eq_some hst).1]
  · intro x hx
    have hw := (hrounds.sent x (hrounds.took x hx).1).1
    by_cases hk : refs.kind x = .raw
    · rw [if_pos hk]
      exact hr.get hw hk
    · rw [if_neg hk]
      cases hst : refs.get x with
      | none => rfl
      | some st => exact absurd (hr.only x st hw hst).1 hk
  · intro x hx
    obtain ⟨hsent, st, hst, hok⟩ := hrounds.took x hx
    have hmid := hran.ran x hsent st hst
    have hat : st = s.cluster.config.storeOf x := by
      rw [(hrounds.sent x hsent).2] at hst
      exact (Cluster.storeRef_eq_some hst).1
    subst hat
    refine Prod.ext hok ?_
    show _ = mid.stores (mid.cluster.config.storeOf x)
    rw [hsame.config, hmid]
    rfl

/-! ### The shard that is asked first -/

omit [Crates] in
theorem exec_refHead (s : Sys) (st : StoreId) (path : Key) :
    ∃ s1, (StoreRef.head (some st) path).exec s = (((s.stores st).head path).1, s1) ∧ s1.cluster = s.cluster := ⟨_, rfl, rfl⟩

omit [Crates] in
theorem exec_headWithMetaFrom {st : StoreId} {o : Sharded.Object} (hx : s.cluster.storeRef x = some st)
    (href : refs.get x = if refs.kind x = .raw then some st else none) (hhead : ((s.stores st).head path).1 = .ok o) :
    ∃ n, ((headWithMetaFrom refs path (x :: rest) none).exec s).1 = .ok (o, n) := by
  obtain ⟨s1, h1, -⟩ := exec_refHead s st path
  rw [hhead] at h1
  unfold headWithMetaFrom
  by_cases hk : refs.kind x = .raw
  · rw [href, if_pos hk]
    dsimp only
    rw [Proc.exec_bind, h1]
    exact ⟨_, rfl⟩
  · rw [href, if_neg hk]
    dsimp only
    rw [Proc.exec_bind, shardStore, look, Proc.exec_step, if_pos (Cluster.storeRef_eq_some hx).2, hx]
    dsimp only
    rw [Proc.exec_bind, h1]
    exact ⟨_, rfl⟩

omit [Crates] in
theorem exec_readReplicas_first {st : StoreId} {o : Sharded.Object} (hget : ((s.stores st).get path).1 = .ok o)
    (more : List (ShardId × StoreRef)) :
    ((readReplicas path false none ((x, some st) :: more) [] none).exec s).1 = .ok o := by
  obtain ⟨s1, h1, -, -⟩ := exec_refGet s st path
  rw [hget] at h1
  unfold readReplicas
  rw [Proc.exec_bind, h1]
  rfl

/-- The shard that reads of the path ask first answers them, and has kept the fields. -/
structure Answers (refs : RawRefRegistry) (path : Key) (w : KeyWrite) (s s' : Sys) (x : ShardId) : Prop where
  first : ∃ rest, s'.readIds path = x :: rest
  head : (s.storeAt x).outcome .head = none
  hears : ¬ Silent refs path w s x
  keeps : KeepsFields refs path w s x

/-- What the store of a shard that took the write answers. -/
theorem Stored.answers (h : Stored refs path body metadata.bytes s s' e) (hx : x ∈ e.shards)
    (ha : Answers refs path (.withMeta body metadata) s s' x) :
    ∃ o, o.body = body ∧ ((s'.storeAt x).get path).1 = .ok o ∧ ((s'.storeAt x).head path).1 = .ok o := by
  have hdid := h.did x hx
  have hok : ((s.storeAt x).putMeta (refs.kind x) path body metadata.bytes).1 = .ok () := by rw [hdid]
  have hobject := (Store.putMeta_lookups hok).1
  have hcalls : ∀ c, c ≠ .put → (s'.storeAt x).outcome c = (s.storeAt x).outcome c := by
    intro c hc
    have houtcomes : ((s.storeAt x).putMeta (refs.kind x) path body metadata.bytes).2.outcomes c = (s.storeAt x).outcomes c :=
      (s.storeAt x).outcomes_putMeta (refs.kind x) hc
    rw [hdid] at houtcomes
    rw [Store.outcome, houtcomes, Store.outcome]
  rw [hdid] at hobject
  have hget : (s.storeAt x).outcome .get = none := by
    by_contra hn
    exact ha.hears (.inl hn)
  have hbody : (uploadOf (refs.kind x) body metadata.bytes).body = body := by
    unfold uploadOf
    split <;> rfl
  obtain ⟨o, hlookup, hsame⟩ : ∃ o, (s'.storeAt x).objects.lookup path = some o ∧ o.body = body := ⟨_, hobject, hbody⟩
  refine ⟨o, hsame, ?_, ?_⟩
  · unfold Store.get
    rw [hcalls .get (by decide), hget, hlookup]
  · unfold Store.head
    rw [hcalls .head (by decide), ha.head, hlookup]

/-! ### Reads and listings -/

omit [Crates] in
theorem Stored.wroteLast (h : Stored refs path body metadata.bytes s s' e) :
    WroteLast refs path (.withMeta body metadata) s s' e :=
  ⟨h.same, h.listed, h.nodup, h.attached, fun x hx => took_putMeta (h.did x hx)⟩

theorem Stored.mem_readIds (h : Stored refs path body metadata.bytes s s' e) (hfirst : s'.readIds path = x :: rest) : x ∈ e.shards :=
  (Sys.readIds_of_entry h.listed h.nodup).2 x (by rw [hfirst]; exact List.mem_cons_self)

/-- The reads give what was written. -/
theorem Stored.serves (h : Stored refs path body metadata.bytes s s' e) (hmark : isDeleteMarker path = false)
    (hsize : body.length ≤ u64Max) (ha : Answers refs path (.withMeta body metadata) s s' x) :
    (clusterReads refs s').Serves path body ∧ ∃ fields, readMeta ((clusterReads refs s').metadata path) = .ok fields ∧
      ∀ name, fields.lookup name = metadata.fields.lookup name := by
  obtain ⟨rest, hfirst⟩ := ha.first
  have hx := h.mem_readIds hfirst
  obtain ⟨o, hbody, hget, hhead⟩ := h.answers hx ha
  obtain ⟨n, hn⟩ := exec_resolveShards s' path
  have hst : s'.cluster.storeRef x = some (s'.cluster.config.storeOf x) := by
    rw [h.same.storeRef, h.attached x hx, h.same.config]
  have href : refs.get x = if refs.kind x = .raw then some (s'.cluster.config.storeOf x) else none := by
    rw [h.registered x hx, ← h.same.storeRef, hst]
  have hvisible : ¬ isDeleteMarker path = true := Bool.eq_false_iff.mp hmark
  have hread : ((Sharded.get path).exec s').1 = .ok o := by
    obtain ⟨k, hk⟩ := exec_readOrder s' path
    have hlisted : (s'.cluster.catalog.get path).isNone = false := by
      rw [h.listed]
      rfl
    unfold Sharded.get
    rw [if_neg hvisible, Proc.exec_bind, hk, hfirst, hlisted, List.map_cons, hst]
    exact exec_readReplicas_first (s := s'.counted k) hget _
  obtain ⟨data, hdata, hback⟩ : ReadsBack refs path (.withMeta body metadata) s' :=
    (readsBack_iff h.wroteLast h.registered).mpr ⟨hmark, [], x, rest, hfirst, (fun y hy => absurd hy List.not_mem_nil), ha.hears, ha.keeps⟩
  obtain ⟨fields, hfields, hsame⟩ := readMeta_decodes hback
  have hmetadata : readMeta ((clusterReads refs s').metadata path) = .ok fields := by
    show readMeta (((Sharded.getMetadata refs path).exec s').1.mapError _) = _
    rw [hdata]
    exact hfields
  refine ⟨⟨?_, ⟨fields, hmetadata⟩, fun start stop _ _ => ?_⟩, fields, hmetadata, hsame⟩
  · obtain ⟨k, hk⟩ := @exec_headWithMetaFrom refs (s'.counted n) path x rest _ o hst href hhead
    have hheads : ((Sharded.headWithMeta refs path).exec s').1 = .ok (o, k) := by
      unfold Sharded.headWithMeta
      rw [if_neg hvisible, Proc.exec_bind, hn, hfirst]
      exact hk
    refine ⟨⟨UInt64.ofNat o.body.length, o.lastModified⟩, ?_, ?_⟩
    · show ((((Sharded.headWithMeta refs path).exec s').1.map _).mapError _) = _
      rw [hheads]
      rfl
    · rw [hbody]
      exact UInt64.toNat_ofNat_of_lt' (by unfold u64Max at hsize; simp only [UInt64.size]; omega)
  · show ((((Sharded.get path).exec s').1.map _).mapError _) = _
    rw [hread, ← hbody]
    rfl

/-- The listing asks the shards that are attached, each of which it sees in its own way. -/
def clusterListing (s : Sys) (view : ShardId → ListedShard) : Backend :=
  .sharded (((List.range s.cluster.shards.length).filter fun x => (s.cluster.storeRef x).isSome).map view)

/-- A shard is seen as what its store has. -/
structure Sees (refs : RawRefRegistry) (s : Sys) (x : ShardId) (shard : ListedShard) : Prop where
  locations : ∀ path, path ∈ shard.locations ↔ path ∈ (s.storeAt x).objects
  hides : ∀ path, shard.hides path = (decide (refs.kind x = .sidecar) && isSidecar path)

def pathObjects (st : Sharded.Store) (hpaths : ∀ path ∈ st.objects, Path.IsPath path) : List PathObject :=
  st.objects.entries.attach.map fun e =>
    ⟨⟨e.1.1, e.1.2.lastModified, e.1.2.body.length⟩, hpaths e.1.1 (List.mem_keys_of_mem e.2)⟩

omit [Crates] in
/-- A store that lists its own objects is seen so. -/
theorem sees_own (hpaths : ∀ path ∈ (s.storeAt x).objects, Path.IsPath path) :
    Sees refs s x (.store (Sample.store (refs.kind x) (pathObjects (s.storeAt x) hpaths))) := by
  refine ⟨fun path => ?_, fun _ => rfl⟩
  show path ∈ (pathObjects _ hpaths).map (fun o => o.info.location) ↔ _
  unfold pathObjects
  rw [List.map_map]
  constructor
  · intro h
    obtain ⟨e, -, rfl⟩ := List.mem_map.mp h
    exact List.mem_keys_of_mem e.2
  · intro h
    obtain ⟨o, ho⟩ := Option.isSome_iff_exists.mp (AList.lookup_isSome.mpr h)
    exact List.mem_map.mpr ⟨⟨⟨path, o⟩, AList.mem_lookup_iff.mp ho⟩, List.mem_attach _ _, rfl⟩

variable {view : ShardId → ListedShard} {pre : Key}

omit [Crates] in
/-- What a cluster lists is what the store of a shard has. -/
theorem clusterListing_lists_iff (hlist : Listable path) (hpre : Path.prefixMatches path pre = true) (hne : path ≠ pre)
    (hview : ∀ x, (s.cluster.storeRef x).isSome → Sees refs s x (view x)) :
    (clusterListing s view).Lists (some pre) path ↔ ∃ x, (s.cluster.storeRef x).isSome ∧ path ∈ (s.storeAt x).objects := by
  unfold clusterListing
  rw [Backend.lists_sharded_iff]
  constructor
  · intro h
    obtain ⟨shard, hshard, hitem⟩ := h
    obtain ⟨x, hx, rfl⟩ := List.mem_map.mp hshard
    have hattached := (List.mem_filter.mp hx).2
    have hhas := (ListedShard.mem_items_iff hlist.isPath hpre hne hlist.notReserved hlist.notMarker).mp hitem
    exact ⟨x, hattached, ((hview x hattached).locations path).mp hhas.1⟩
  · intro h
    obtain ⟨x, hattached, hhas⟩ := h
    have hlt : x < s.cluster.shards.length := by
      obtain ⟨st, hst⟩ := Option.isSome_iff_exists.mp hattached
      exact (Cluster.storeRef_eq_some hst).2
    refine ⟨view x, List.mem_map_of_mem (List.mem_filter.mpr ⟨List.mem_range.mpr hlt, hattached⟩), ?_⟩
    refine (ListedShard.mem_items_iff hlist.isPath hpre hne hlist.notReserved hlist.notMarker).mpr
      ⟨((hview x hattached).locations path).mpr hhas, ?_⟩
    rw [(hview x hattached).hides, hlist.notSidecar, Bool.and_false]

theorem Stored.shown (h : Stored refs path body metadata.bytes s s' e) (hlist : Listable path) (hsize : body.length ≤ u64Max)
    (ha : Answers refs path (.withMeta body metadata) s s' x)
    (hview : ∀ x, (s'.cluster.storeRef x).isSome → Sees refs s' x (view x)) :
    Shown (clusterReads refs s') (clusterListing s' view) path body metadata.fields := by
  obtain ⟨hserves, hfields⟩ := h.serves hlist.notMarker hsize ha
  refine ⟨hserves, hfields, fun pre hpre hne => ?_⟩
  obtain ⟨rest, hfirst⟩ := ha.first
  have hx := h.mem_readIds hfirst
  obtain ⟨o, -, hget, -⟩ := h.answers hx ha
  refine (clusterListing_lists_iff hlist hpre hne hview).mpr ⟨x, ?_, ?_⟩
  · rw [h.same.storeRef, h.attached x hx]
    rfl
  · have hobject := (Store.putMeta_lookups (by rw [h.did x hx])).1
    rw [h.did x hx] at hobject
    exact AList.lookup_isSome.mp (by rw [hobject]; rfl)

/-- A write from a file that succeeds is shown by the reads and the listings that follow it. -/
theorem cluster_shown (hr : refs.Matches s.cluster) (now : DateTime) (io : FileIo) (hlen : metadata.bytes.length = metaLen.toNat)
    (hwrite : (StoreBackend.sharded refs s).putWithMetaFromFile now io path (body ++ metadata.bytes) metaLen =
      (true, .sharded refs s'))
    (hlist : Listable path) (hsize : body.length ≤ u64Max) (ha : Answers refs path (.withMeta body metadata) s s' x)
    (hview : ∀ x, (s'.cluster.storeRef x).isSome → Sees refs s' x (view x)) :
    Shown (clusterReads refs s') (clusterListing s' view) path body metadata.fields := by
  have hwritten : Written refs path body metadata.bytes metaLen (s.fileRounds refs path body metadata.bytes) s _ _ :=
    written_putWithMetaFromFile hr hlen
  unfold StoreBackend.putWithMetaFromFile at hwrite
  dsimp only at hwrite
  by_cases hfails : (io.read (body ++ metadata.bytes)).fails = true
  · rw [if_pos hfails] at hwrite
    cases hwrite
  rw [if_neg hfails] at hwrite
  rcases hexec : (Sharded.putWithMetaFromFile refs path (body ++ metadata.bytes) metaLen).exec s with ⟨err | _, s1⟩
  · rw [hexec] at hwrite
    cases hwrite
  · rw [hexec] at hwrite hwritten
    cases hwrite
    obtain ⟨e, hstored⟩ := stored_of_written hr (Sys.fileRounds_spec hr) hwritten
    exact hstored.shown hlist hsize ha hview

end Cluster

end ObjStr.S3
