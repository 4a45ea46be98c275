/-
  ObjStr.Sharded.FileWrites — a write with metadata, from a file or from memory, run alone, exactly.

  The file is streamed if all targets are raw shards; otherwise it is read, and body and metadata are written as
  `put_with_meta` writes them. Either way the write is sent to some shards, the store of each does its part
  (`Store.putMeta`), and some take it (`Sys.fileRounds`). If they are enough the write is recorded; if not, nothing else
  happens to a key that has an entry, and one that has none is deleted from the shards that took it.
  - `written_putWithMeta`, `written_putWithMetaFromFile`: both end as `Written` says.
  - `Written.sameAt_iff`: when a write that fails leaves the object and its metadata as they were on every store.
-/

import ObjStr.Sharded.WritePaths

namespace ObjStr.Sharded

open ObjStr.Lib ObjStr.Raw Proc

variable {s s' : Sys} {k : Key} {body metadata : Bytes} {refs : RawRefRegistry}

/-! ## The clean-up -/

/-- The kind that the clean-up takes a shard for. -/
def Cluster.cleanKind (c : Cluster) (x : ShardId) : ShardKind := (c.config.rawRefs.map (·.kind x)).getD .sidecar

def Store.cleanup (kind : ShardKind) (location : Key) (st : Store) : Except StoreError Unit × Store :=
  ((st.delete location).1, if kind = .sidecar then ((st.delete location).2.delete (metaSidecarPath location)).2 else (st.delete location).2)

def CleanedUp (location : Key) (placed : List ShardId) (s s' : Sys) : Prop :=
  RanAll placed s.cluster.storeRef (fun x => Store.cleanup (s.cluster.cleanKind x) location) s s'

theorem cleanedUp_nowhere (location : Key) (s : Sys) : CleanedUp location [] s s :=
  ⟨rfl, rfl, fun _ _ => rfl, fun x hx => by cases hx⟩

theorem wp_deleteClean (x : ShardId) (location : Key) (kind : ShardKind) :
    (do
      let r ← StoreRef.delete (s.cluster.storeRef x) location
      cleanupSidecar (s.cluster.storeRef x) location kind
      pure (x, r) : ClusterM (ShardId × Except StoreError Unit)).wp
      (fun o s' _ => o = (x, s.answerOf (s.cluster.storeRef x) (Store.cleanup kind location) (.backend false)) ∧
        s' = s.ranOn (s.cluster.storeRef x) (Store.cleanup kind location)) s := by
  unfold cleanupSidecar Store.cleanup
  cases s.cluster.storeRef x with
  | none =>
    rw [wp_bind]
    simp only [StoreRef.delete, StoreRef.call]
    rw [wp_pure, wp_bind]
    by_cases hkind : kind = .sidecar
    · simp only [if_pos hkind, wp_bind, wp_pure, Sys.answerOf, Sys.ranOn]
      exact ⟨trivial, trivial⟩
    · simp only [if_neg hkind, wp_pure, Sys.answerOf, Sys.ranOn]
      exact ⟨trivial, trivial⟩
  | some st =>
    rw [wp_bind]
    simp only [StoreRef.delete, StoreRef.call, onStore, wp_step]
    rw [wp_bind]
    by_cases hkind : kind = .sidecar
    · simp only [if_pos hkind, wp_bind, wp_step, wp_pure, Sys.answerOf, Sys.ranOn, Function.update_self, Function.update_idem]
      exact ⟨trivial, trivial⟩
    · simp only [if_neg hkind, wp_pure, Sys.answerOf, Sys.ranOn]
      exact ⟨trivial, trivial⟩

theorem wp_cleanupOrphanedWrites_exact {location : Key} {placed : List ShardId} (hnone : s.cluster.catalog.get location = none)
    (hnd : placed.Nodup) :
    (cleanupOrphanedWrites location placed).wp (fun _ s' _ => CleanedUp location placed s s') s := by
  have hinj : ∀ x ∈ placed.filter (fun x => x < s.cluster.shards.length), ∀ y ∈ placed.filter (fun x => x < s.cluster.shards.length),
      ∀ st, s.cluster.storeRef x = some st → s.cluster.storeRef y = some st → x = y := fun x _ y _ st hx hy =>
    s.cluster.config.storeOf.injective ((Cluster.storeRef_eq_some hx).1.symm.trans (Cluster.storeRef_eq_some hy).1)
  unfold cleanupOrphanedWrites
  rw [wp_bind, catalogGet, wp_look, hnone, if_neg (by simp), wp_bind, rawRefs, wp_look, wp_bind, storesOf, wp_look, wp_bind,
    List.map_map]
  refine wp_mono (wp_eachStore (hnd.filter _) s.cluster.storeRef (fun x => Store.cleanup (s.cluster.cleanKind x) location)
    (fun _ => .backend false) hinj fun x _ s1 h1 => ?_) fun os s' t h2 => ?_
  · simp only [Function.comp_apply]
    rw [← h1]
    exact wp_deleteClean x location _
  · rw [wp_pure]
    refine ⟨h2.2.cluster, h2.2.clock, fun st hst => h2.2.kept st fun x hx => hst x (List.mem_filter.mp hx).1, fun x hx st hst => ?_⟩
    exact h2.2.ran x (List.mem_filter.mpr ⟨hx, by simpa using (Cluster.storeRef_eq_some hst).2⟩) st hst

/-! ## What a write ends in -/

/-- What a write leaves when it was sent to `rounds.1` and `rounds.2` took it. -/
structure Written (refs : RawRefRegistry) (k : Key) (body metadata : Bytes) (metaLen : UInt16)
    (rounds : List ShardId × List ShardId) [Crates] (s : Sys) (r : Except Error Unit) (s' : Sys) : Prop where
  ran : ∃ mid, SameRefs s.cluster mid.cluster ∧ mid.cluster.catalog = s.cluster.catalog ∧
    MetaRan refs k body metadata rounds.1 s mid ∧
    (s.cluster.config.minWrites ≤ rounds.2.length → r = .ok () ∧
      s' = mid.tick.withCatalog (mid.cluster.catalog.put k rounds.2 body.length (some (crc32c body)) metaLen mid.now)) ∧
    (rounds.2.length < s.cluster.config.minWrites → (∃ e, r = .error e) ∧ s'.cluster = mid.cluster ∧
      ((s.cluster.catalog.get k).isSome → s' = mid) ∧
      (s.cluster.catalog.get k = none → rounds.2.Nodup → CleanedUp k rounds.2 mid s'))

section Writes

variable [Crates] {metaLen : UInt16}

omit [Crates] in
theorem wp_finishWithMeta_exact (placed : List ShardId) (o : Outcomes) (size : Nat) (crc : UInt32) :
    (finishWithMeta k placed o size crc metaLen).wp (fun r s' _ =>
      (s.cluster.config.minWrites ≤ placed.length → r = .ok () ∧
        s' = s.tick.withCatalog (s.cluster.catalog.put k placed size (some crc) metaLen s.now)) ∧
      (placed.length < s.cluster.config.minWrites → (∃ e, r = .error e) ∧ s'.cluster = s.cluster ∧
        ((s.cluster.catalog.get k).isSome → s' = s) ∧
        (s.cluster.catalog.get k = none → placed.Nodup → CleanedUp k placed s s'))) s := by
  have hmin := s.cluster.config.one_le_minWrites
  unfold finishWithMeta
  by_cases hne : placed.isEmpty = true
  · rw [if_pos hne, wp_pure]
    rw [List.isEmpty_iff] at hne
    subst hne
    exact ⟨fun h => absurd (hmin.trans h) (by simp), fun _ => ⟨⟨_, rfl⟩, rfl, fun _ => rfl, fun _ _ => cleanedUp_nowhere k s⟩⟩
  · rw [if_neg hne, wp_bind, minWrites, wp_look]
    by_cases hle : placed.length < s.cluster.config.minWrites
    · rw [if_pos hle, wp_bind]
      have hexact : (cleanupOrphanedWrites k placed).wp (fun _ s' _ => s.cluster.catalog.get k = none → placed.Nodup →
          CleanedUp k placed s s') s := by
        by_cases hclean : s.cluster.catalog.get k = none ∧ placed.Nodup
        · exact wp_mono (wp_cleanupOrphanedWrites_exact hclean.1 hclean.2) fun _ _ _ h _ _ => h
        · exact wp_mono wp_cleanupOrphanedWrites fun _ _ _ _ hnone hnd => absurd ⟨hnone, hnd⟩ hclean
      refine wp_mono (wp_and wp_cleanupOrphanedWrites hexact) fun _ s1 t hc => ?_
      obtain ⟨⟨-, hcluster, -, hkept, -⟩, hcleaned⟩ := hc
      rw [wp_pure]
      exact ⟨fun h => absurd hle (Nat.not_lt.mpr h), fun _ => ⟨⟨_, rfl⟩, hcluster, hkept, hcleaned⟩⟩
    · rw [if_neg hle, wp_bind, catalogPut, wp_step, wp_pure]
      exact ⟨fun _ => ⟨rfl, rfl⟩, fun h => absurd h hle⟩

/-- The end of the write, behind its rounds. -/
theorem written_of_finish {rounds : List ShardId × List ShardId} {mid : Sys} {r : Except Error Unit}
    (hsame : SameRefs s.cluster mid.cluster) (hcatalog : mid.cluster.catalog = s.cluster.catalog)
    (hran : MetaRan refs k body metadata rounds.1 s mid)
    (hfinish : (mid.cluster.config.minWrites ≤ rounds.2.length → r = .ok () ∧
        s' = mid.tick.withCatalog (mid.cluster.catalog.put k rounds.2 body.length (some (crc32c body)) metaLen mid.now)) ∧
      (rounds.2.length < mid.cluster.config.minWrites → (∃ e, r = .error e) ∧ s'.cluster = mid.cluster ∧
        ((mid.cluster.catalog.get k).isSome → s' = mid) ∧
        (mid.cluster.catalog.get k = none → rounds.2.Nodup → CleanedUp k rounds.2 mid s'))) :
    Written refs k body metadata metaLen rounds s r s' := by
  rw [hsame.config, hcatalog] at hfinish
  refine ⟨mid, hsame, hcatalog, hran, ?_, hfinish.2⟩
  rw [hcatalog]
  exact hfinish.1

/-! ## From memory -/

/-- The shards that `put_with_meta` sends to, and those that take it; a cluster that is read-only sends to none. -/
def Sys.memoryRounds (s : Sys) (refs : RawRefRegistry) (k : Key) (body metadata : Bytes) : List ShardId × List ShardId :=
  if s.cluster.config.readOnly then ([], []) else s.metaRounds refs k body metadata

/-- Nothing is sent, and the write fails. -/
theorem written_nowhere (e : Error) : Written refs k body metadata metaLen ([], []) s (.error e) s := by
  refine ⟨s, .refl _, rfl, ⟨fun _ _ => rfl, fun x hx => nomatch hx⟩, fun h => ?_, fun _ => ?_⟩
  · exact absurd (s.cluster.config.one_le_minWrites.trans h) (by simp)
  · exact ⟨⟨e, rfl⟩, rfl, fun _ => rfl, fun _ _ => cleanedUp_nowhere k s⟩

theorem written_putWithMeta (hf : refs.Fits s.cluster) :
    Written refs k body metadata (UInt16.ofNat metadata.length) (s.memoryRounds refs k body metadata) s
      ((putWithMeta refs k body metadata).exec s).1 ((putWithMeta refs k body metadata).exec s).2 := by
  have h : (putWithMeta refs k body metadata).wp (fun r s' _ =>
      Written refs k body metadata (UInt16.ofNat metadata.length) (s.memoryRounds refs k body metadata) s r s') s := by
    unfold putWithMeta Sys.memoryRounds
    rw [wp_bind, readOnly, wp_look]
    split
    · rw [wp_pure]
      exact written_nowhere _
    · rw [wp_bind, selectTargets, wp_look]
      exact wp_metaRounds hf
        (fun placed o => finishWithMeta k placed o body.length (crc32c body) (UInt16.ofNat metadata.length))
        (Q := fun r s' => Written refs k body metadata (UInt16.ofNat metadata.length) (s.metaRounds refs k body metadata) s r s')
        fun o mid hplaced hran => wp_mono (wp_finishWithMeta_exact _ o _ _) fun r s' t hfinish =>
          written_of_finish hplaced.same hplaced.catalog hran hfinish
  exact h

/-! ## From a file -/

omit [Crates] in
theorem RawRefRegistry.Matches.fits (h : refs.Matches s.cluster) : refs.Fits s.cluster :=
  fun x st hw hst => (h.only x st hw hst).2

/-- The shards that `put_with_meta_from_file` sends to, and those that take it. -/
def Sys.fileRounds (s : Sys) (refs : RawRefRegistry) (k : Key) (body metadata : Bytes) : List ShardId × List ShardId :=
  if s.cluster.streams refs k then
    (s.cluster.sentTo (fun x => refs.kind x = .raw) (fun x => s.accepts x) k (s.cluster.selectTargets k),
      s.takers (fun x => refs.kind x = .raw) k)
  else s.memoryRounds refs k body metadata

/-- A streamed write is sent to raw shards. -/
theorem raw_of_mem_sentTo (hraw : s.cluster.streams refs k = true) {x : ShardId}
    (hx : x ∈ s.cluster.sentTo (fun x => refs.kind x = .raw) (fun x => s.accepts x) k (s.cluster.selectTargets k)) :
    refs.kind x = .raw ∧ s.cluster.writable x = true := by
  have htarget : x ∈ s.cluster.selectTargets k → refs.kind x = .raw ∧ s.cluster.writable x = true := fun h =>
    ⟨by simpa using List.all_eq_true.mp hraw x h, Cluster.writable_of_mem_selectTargets h⟩
  unfold Cluster.sentTo at hx
  split at hx
  · rcases List.mem_append.mp hx with hx | hx
    · exact htarget hx
    · obtain ⟨hx, hk⟩ := List.mem_filter.mp hx
      exact ⟨by simpa using hk, (Cluster.mem_others hx).1⟩
  · exact htarget hx

/-- Two rounds of a streamed write, store by store. -/
theorem metaRan_of_twoRounds (hr : refs.Matches s.cluster) (hraw : s.cluster.streams refs k = true) {w : List ShardId × Sys}
    (h : TwoRounds s (fun x => refs.kind x = .raw) k { body, metadata } (s.cluster.selectTargets k) w) :
    MetaRan refs k body metadata
      (s.cluster.sentTo (fun x => refs.kind x = .raw) (fun x => s.accepts x) k (s.cluster.selectTargets k)) s w.2 := by
  have hstores := h.stores
  set sent := s.cluster.sentTo (fun x => refs.kind x = .raw) (fun x => s.accepts x) k (s.cluster.selectTargets k) with hsent
  have href : ∀ x ∈ sent, s.cluster.metaRef refs x = s.cluster.storeRef x := by
    intro x hx
    obtain ⟨hk, hw⟩ := raw_of_mem_sentTo hraw hx
    unfold Cluster.metaRef
    rw [if_pos hk, hr.get hw hk]
  constructor
  · intro st hst
    have hnot : ¬ some st ∈ sent.map s.cluster.storeRef := by
      intro hm
      obtain ⟨x, hx, hxs⟩ := List.mem_map.mp hm
      exact hst x hx ((href x hx).trans hxs)
    rw [hstores]
    simp only [Sys.written, if_neg hnot]
  · intro x hx st hst
    have hmem : some st ∈ sent.map s.cluster.storeRef := List.mem_map.mpr ⟨x, hx, by rw [← href x hx, hst]⟩
    rw [hstores, (raw_of_mem_sentTo hraw hx).1]
    simp only [Sys.written, if_pos hmem]
    rfl

theorem written_streamed (hr : refs.Matches s.cluster) (hraw : s.cluster.streams refs k = true) :
    let p : ClusterM (Except Error Unit) := do
      let outcomes ← streamToShards refs k body metadata (s.cluster.selectTargets k)
      let retryIds ← markWriteFailures outcomes.accepted outcomes.rejected (s.cluster.selectTargets k) k
      let retried ← if outcomes.accepted.isEmpty then streamToShards refs k body metadata retryIds else pure []
      finishWithMeta k (outcomes.accepted ++ retried.accepted) (outcomes ++ retried) body.length (crcOfChunks body) metaLen
    Written refs k body metadata metaLen
      (s.cluster.sentTo (fun x => refs.kind x = .raw) (fun x => s.accepts x) k (s.cluster.selectTargets k),
        s.takers (fun x => refs.kind x = .raw) k) s (p.exec s).1 (p.exec s).2 := by
  intro p
  have hw := twoRounds_wrote s k { body, metadata } (fun x => refs.kind x = .raw) (s.cluster.selectTargets k)
  have hplaced : (s.wrote (fun x => refs.kind x = .raw) k { body, metadata } (s.cluster.selectTargets k)).1 =
      s.takers (fun x => refs.kind x = .raw) k := hw.placed
  obtain ⟨o, ho⟩ := exec_rounds (fun placed o => finishWithMeta k placed o body.length (crcOfChunks body) metaLen)
    (sends_streamed (p := body) (m := metadata) hr)
    (List.filter_eq_self.mpr fun x hx => List.all_eq_true.mp hraw x hx)
  rw [show p.exec s = _ from ho, hplaced, crcOfChunks_eq]
  exact written_of_finish hw.refs hw.catalog (metaRan_of_twoRounds hr hraw hw) (wp_finishWithMeta_exact _ o _ _)

theorem written_putWithMetaFromFile (hr : refs.Matches s.cluster) (hlen : metadata.length = metaLen.toNat) :
    Written refs k body metadata metaLen (s.fileRounds refs k body metadata) s
      ((putWithMetaFromFile refs k (body ++ metadata) metaLen).exec s).1
      ((putWithMetaFromFile refs k (body ++ metadata) metaLen).exec s).2 := by
  have hbody : (body ++ metadata).length - metaLen.toNat = body.length := by simp [← hlen]
  have hof : metaLen = UInt16.ofNat metadata.length := by rw [hlen, UInt16.ofNat_toNat]
  unfold Sys.fileRounds putWithMetaFromFile
  dsimp only
  rw [hbody, List.take_left, List.drop_left, exec_bind]
  show Written _ _ _ _ _ _ _ ((if s.cluster.streams refs k = true then _ else _ : ClusterM _).exec s).1
    ((if s.cluster.streams refs k = true then _ else _ : ClusterM _).exec s).2
  by_cases hraw : s.cluster.streams refs k = true
  · rw [if_pos hraw, if_pos hraw, if_neg (by simp [← hlen])]
    exact written_streamed hr hraw
  · rw [if_neg hraw, if_neg hraw, hof]
    exact written_putWithMeta hr.fits

end Writes

/-! ## What a store's part changes -/

def uploadOf (kind : ShardKind) (body metadata : Bytes) : Upload :=
  match kind with
  | .raw => { body, metadata }
  | .s3Like => { body, attributes := Tlv.metaToAttributes (Tlv.decodeMetadata metadata) }
  | .sidecar => { body }

/-- The store holds just what it would hold after this put. -/
def Store.HasAlready (k : Key) (up : Upload) (now : DateTime) (st : Store) : Prop :=
  st.objects.lookup k = some ⟨up.body, up.metadata, up.attributes, now⟩

/-- The store refuses the put, or has the object already; on a sidecar shard also the metadata, unless its put is refused. -/
def Store.Unmoved (kind : ShardKind) (k : Key) (body metadata : Bytes) (st : Store) : Prop :=
  st.outcome .put ≠ none ∨
    st.HasAlready k (uploadOf kind body metadata) (st.clock.headD 0) ∧
      (kind = .sidecar → metadata ≠ [] → (st.outcomes .put).tail.head?.join ≠ none ∨
        st.HasAlready (metaSidecarPath k) { body := metadata } (st.clock.tail.headD 0))

/-- Both objects of a key on a store: the body, and the metadata that a sidecar shard keeps. -/
def Store.SameAt (k : Key) (st st' : Store) : Prop :=
  st'.objects.lookup k = st.objects.lookup k ∧ st'.objects.lookup (metaSidecarPath k) = st.objects.lookup (metaSidecarPath k)

theorem Store.clock_put {st : Store} {key : Key} {up : Upload} (h : st.outcome .put = none) : (st.put key up).2.clock = st.clock.tail := by
  unfold Store.put
  rw [h]

/-- One put of the key. -/
theorem Store.put_sameAt_iff (st : Store) (k : Key) (up : Upload) :
    st.SameAt k (st.put k up).2 ↔ st.outcome .put ≠ none ∨ st.HasAlready k up (st.clock.headD 0) := by
  rcases st.put_cases k up with ⟨e, h1, -, h3⟩ | ⟨h1, -, h3⟩
  · unfold Store.SameAt
    rw [h1, h3]
    simp
  · unfold Store.SameAt Store.HasAlready
    rw [h1, h3, AList.lookup_insert, AList.lookup_insert_ne (sidecar_ne k)]
    simp [eq_comm]

/-- A store's part of a write leaves what it has of the key just if it is unmoved. -/
theorem Store.putMeta_sameAt_iff (st : Store) (kind : ShardKind) :
    st.SameAt k (st.putMeta kind k body metadata).2 ↔ st.Unmoved kind k body metadata := by
  unfold Store.Unmoved
  cases kind with
  | raw => simpa [uploadOf, Store.putMeta] using st.put_sameAt_iff k { body, metadata }
  | s3Like => simpa [uploadOf, Store.putMeta] using st.put_sameAt_iff k (uploadOf .s3Like body metadata)
  | sidecar =>
    have hbody := st.put_sameAt_iff k { body := body }
    unfold Store.putMeta
    rcases st.put_cases k { body := body } with ⟨e, h1, h2, h3⟩ | ⟨h1, h2, h3⟩
    · rw [show st.put k { body := body } = (.error e, (st.put k { body := body }).2) from Prod.ext h2 rfl]
      simp [Store.SameAt, h1, h3]
    · rw [show st.put k { body := body } = (.ok (), (st.put k { body := body }).2) from Prod.ext h2 rfl]
      dsimp only
      by_cases hm : metadata = []
      · rw [if_pos (by simp [hm]), hbody]
        simp [uploadOf, hm]
      · rw [if_neg (by simpa using hm)]
        have hsecond := st.outcome_of_put k { body := body }
        have hclock : (st.put k { body := body }).2.clock = st.clock.tail := Store.clock_put h1
        generalize (st.put k { body := body }).2 = st1 at h3 hsecond hclock ⊢
        rcases st1.put_cases (metaSidecarPath k) { body := metadata } with ⟨e, h4, -, h6⟩ | ⟨h4, -, h6⟩
        · rw [hsecond] at h4
          unfold Store.SameAt Store.HasAlready uploadOf
          rw [h6, h3, AList.lookup_insert, AList.lookup_insert_ne (sidecar_ne k), h1, h4]
          simp [hm, eq_comm]
        · rw [hsecond] at h4
          unfold Store.SameAt Store.HasAlready uploadOf
          rw [h6, AList.lookup_insert, AList.lookup_insert_ne (sidecar_ne k).symm, h3, AList.lookup_insert, h1, h4, hclock]
          simp [hm, eq_comm]

/-- A write ends well just if enough shards take it; otherwise the catalog stays. -/
theorem Written.ok_iff [Crates] {metaLen : UInt16} {rounds : List ShardId × List ShardId} {r : Except Error Unit}
    (h : Written refs k body metadata metaLen rounds s r s') :
    (r = .ok () ↔ s.cluster.config.minWrites ≤ rounds.2.length) ∧ (r ≠ .ok () → s'.cluster.catalog = s.cluster.catalog) := by
  obtain ⟨mid, -, hcatalog, -, henough, hfailed⟩ := h
  by_cases hle : s.cluster.config.minWrites ≤ rounds.2.length
  · have hok := (henough hle).1
    exact ⟨iff_of_true hok hle, fun hn => absurd hok hn⟩
  · obtain ⟨⟨e, rfl⟩, hcluster, -⟩ := hfailed (Nat.lt_of_not_le hle)
    exact ⟨iff_of_false (by simp) hle, fun _ => by rw [hcluster, hcatalog]⟩

/-- The store has nothing of the key, and gives back what it is sent; or it does not, and has that already. On a sidecar shard also
    for the metadata, and where the clean-up takes the shard for one it deletes the metadata object too. -/
def Store.TakenBack (kind clean : ShardKind) (k : Key) (body metadata : Bytes) (st : Store) : Prop :=
  (if st.outcome .delete = none then st.objects.lookup k = none
    else st.HasAlready k (uploadOf kind body metadata) (st.clock.headD 0)) ∧
  if clean = .sidecar ∧ (st.outcomes .delete).tail.head?.join = none then st.objects.lookup (metaSidecarPath k) = none
  else kind = .sidecar → metadata ≠ [] → st.HasAlready (metaSidecarPath k) { body := metadata } (st.clock.tail.headD 0)

/-- What a write that was taken leaves of both objects. -/
theorem Store.putMeta_lookups {st : Store} {kind : ShardKind} (hok : (st.putMeta kind k body metadata).1 = .ok ()) :
    (st.putMeta kind k body metadata).2.objects.lookup k = some ⟨(uploadOf kind body metadata).body,
        (uploadOf kind body metadata).metadata, (uploadOf kind body metadata).attributes, st.clock.headD 0⟩ ∧
      (st.putMeta kind k body metadata).2.objects.lookup (metaSidecarPath k) =
        if kind = .sidecar ∧ metadata ≠ [] then some ⟨metadata, [], ∅, st.clock.tail.headD 0⟩
        else st.objects.lookup (metaSidecarPath k) := by
  have hplain : ∀ up : Upload, (st.put k up).1 = .ok () →
      (st.put k up).2.objects = st.objects.insert k ⟨up.body, up.metadata, up.attributes, st.clock.headD 0⟩ ∧
        st.outcome .put = none := by
    intro up hput
    rcases st.put_cases k up with ⟨e, -, h2, -⟩ | ⟨h1, -, h3⟩
    · rw [h2] at hput
      cases hput
    · exact ⟨h3, h1⟩
  cases kind with
  | raw =>
    obtain ⟨hobjects, -⟩ := hplain { body, metadata } hok
    refine ⟨?_, ?_⟩
    · show (st.put k { body, metadata }).2.objects.lookup k = _
      rw [hobjects, AList.lookup_insert]
      rfl
    · rw [if_neg (by simp)]
      show (st.put k { body, metadata }).2.objects.lookup _ = _
      rw [hobjects, AList.lookup_insert_ne (sidecar_ne k)]
  | s3Like =>
    obtain ⟨hobjects, -⟩ := hplain (uploadOf .s3Like body metadata) hok
    refine ⟨?_, ?_⟩
    · show (st.put k (uploadOf .s3Like body metadata)).2.objects.lookup k = _
      rw [hobjects, AList.lookup_insert]
    · rw [if_neg (by simp)]
      show (st.put k (uploadOf .s3Like body metadata)).2.objects.lookup _ = _
      rw [hobjects, AList.lookup_insert_ne (sidecar_ne k)]
  | sidecar =>
    unfold Store.putMeta at hok ⊢
    rcases st.put_cases k { body := body } with ⟨e, -, h2, -⟩ | ⟨hout, h2, h3⟩
    · rw [show st.put k { body := body } = (.error e, (st.put k { body := body }).2) from Prod.ext h2 rfl] at hok
      cases hok
    rw [show st.put k { body := body } = (.ok (), (st.put k { body := body }).2) from Prod.ext h2 rfl] at hok ⊢
    dsimp only at hok ⊢
    have hclock : (st.put k { body := body }).2.clock = st.clock.tail := Store.clock_put hout
    generalize (st.put k { body := body }).2 = st1 at h3 hclock hok ⊢
    by_cases hm : metadata = []
    · have hnone : ¬ (ShardKind.sidecar = .sidecar ∧ metadata ≠ []) := fun h => h.2 hm
      rw [if_neg hnone, if_pos (by rw [hm]; rfl)]
      rw [h3]
      exact ⟨AList.lookup_insert _, AList.lookup_insert_ne (sidecar_ne k)⟩
    · have hsome : ShardKind.sidecar = .sidecar ∧ metadata ≠ [] := ⟨rfl, hm⟩
      have hnil : ¬ metadata.isEmpty = true := by simpa using hm
      rw [if_neg hnil] at hok
      rw [if_pos hsome, if_neg hnil]
      rcases st1.put_cases (metaSidecarPath k) { body := metadata } with ⟨e, -, h5, -⟩ | ⟨-, -, h6⟩
      · rw [h5] at hok
        cases hok
      rw [h6, AList.lookup_insert, AList.lookup_insert_ne (sidecar_ne k).symm, h3, AList.lookup_insert, hclock]
      exact ⟨rfl, rfl⟩

theorem Store.cleanup_lookups (st : Store) (clean : ShardKind) :
    (st.cleanup clean k).2.objects.lookup k = (if st.outcome .delete = none then none else st.objects.lookup k) ∧
      (st.cleanup clean k).2.objects.lookup (metaSidecarPath k) =
        if clean = .sidecar ∧ (st.outcomes .delete).tail.head?.join = none then none else st.objects.lookup (metaSidecarPath k) := by
  have hsecond : (st.delete k).2.outcome .delete = (st.outcomes .delete).tail.head?.join := by
    unfold Store.outcome
    rw [Store.outcomes_delete, if_pos rfl]
  have hobject : (st.delete k).2.objects.lookup k = if st.outcome .delete = none then none else st.objects.lookup k := by
    rw [Store.lookup_delete]
    simp only [true_and]
  have hother : (st.delete k).2.objects.lookup (metaSidecarPath k) = st.objects.lookup (metaSidecarPath k) := by
    rw [Store.lookup_delete, if_neg fun h => sidecar_ne k h.1]
  unfold Store.cleanup
  dsimp only
  by_cases hclean : clean = .sidecar
  · have hlast : (((st.delete k).2.delete (metaSidecarPath k)).2.objects.lookup (metaSidecarPath k)) =
        if (st.outcomes .delete).tail.head?.join = none then none else st.objects.lookup (metaSidecarPath k) := by
      rw [Store.lookup_delete, hsecond, hother]
      simp only [true_and]
    rw [if_pos hclean, hlast]
    refine ⟨?_, ?_⟩
    · rw [Store.lookup_delete, if_neg fun h => sidecar_ne k h.1.symm]
      exact hobject
    · simp only [hclean, true_and]
  · rw [if_neg hclean, hother]
    exact ⟨hobject, (if_neg fun h => hclean h.1).symm⟩

/-- A store that takes a write and cleans up has what it had just if the write is taken back. -/
theorem Store.cleanup_sameAt_iff {st : Store} {kind : ShardKind} (clean : ShardKind)
    (hok : (st.putMeta kind k body metadata).1 = .ok ()) :
    st.SameAt k ((st.putMeta kind k body metadata).2.cleanup clean k).2 ↔ st.TakenBack kind clean k body metadata := by
  obtain ⟨hbody, hmeta⟩ := Store.putMeta_lookups hok
  have houtcomes : (st.putMeta kind k body metadata).2.outcomes .delete = st.outcomes .delete := Store.outcomes_putMeta st kind (by decide)
  have houtcome : (st.putMeta kind k body metadata).2.outcome .delete = st.outcome .delete := by
    unfold Store.outcome
    rw [houtcomes]
  obtain ⟨h1, h2⟩ := (st.putMeta kind k body metadata).2.cleanup_lookups (k := k) clean
  unfold Store.SameAt Store.TakenBack Store.HasAlready
  rw [h1, h2, houtcome, houtcomes, hbody, hmeta]
  refine and_congr ?_ ?_
  · split
    · exact eq_comm
    · exact eq_comm
  · split
    · exact eq_comm
    · by_cases hside : kind = .sidecar ∧ metadata ≠ []
      · rw [if_pos hside, eq_comm]
        exact ⟨fun h _ _ => h, fun h => h hside.1 hside.2⟩
      · rw [if_neg hside]
        exact iff_of_true rfl fun hk hm => absurd ⟨hk, hm⟩ hside

/-! ## What a write that fails leaves -/

/-- A write in rounds: it is sent to writable shards, no shard takes it twice, and those that take it are sent it. -/
structure Sys.Rounds [Crates] (s : Sys) (refs : RawRefRegistry) (k : Key) (body metadata : Bytes)
    (rounds : List ShardId × List ShardId) : Prop where
  nodup : rounds.2.Nodup
  sent : ∀ x ∈ rounds.1, s.cluster.writable x = true ∧ s.cluster.metaRef refs x = s.cluster.storeRef x
  took : ∀ x ∈ rounds.2, x ∈ rounds.1 ∧
    ∃ st, s.cluster.metaRef refs x = some st ∧ ((s.stores st).putMeta (refs.kind x) k body metadata).1 = .ok ()

theorem Sys.rounds_nowhere [Crates] : s.Rounds refs k body metadata ([], []) :=
  ⟨List.nodup_nil, fun _ hx => (List.not_mem_nil hx).elim, fun _ hx => (List.not_mem_nil hx).elim⟩

theorem RawRefRegistry.Matches.metaRef (hr : refs.Matches s.cluster) {x : ShardId} (hw : s.cluster.writable x = true) :
    s.cluster.metaRef refs x = s.cluster.storeRef x := by
  unfold Cluster.metaRef
  split
  · next hk => exact hr.get hw hk
  · rfl

/-- A shard that takes a write has a store, which has done it. -/
theorem Sys.took_of_takesMeta {x : ShardId} (h : s.takesMeta refs k body metadata x = true) :
    ∃ st, s.cluster.metaRef refs x = some st ∧ ((s.stores st).putMeta (refs.kind x) k body metadata).1 = .ok () := by
  unfold Sys.takesMeta Sys.answerOf at h
  cases hst : s.cluster.metaRef refs x with
  | none =>
    rw [hst] at h
    cases h
  | some st =>
    rw [hst] at h
    dsimp only at h
    cases hput : ((s.stores st).putMeta (refs.kind x) k body metadata).1 with
    | ok => exact ⟨st, rfl, hput⟩
    | error e =>
      rw [hput] at h
      cases h

theorem Sys.memoryRounds_spec [Crates] (hr : refs.Matches s.cluster) :
    s.Rounds refs k body metadata (s.memoryRounds refs k body metadata) := by
  have htargets : ∀ x ∈ s.cluster.selectTargets k, s.cluster.writable x = true := fun x hx =>
    Cluster.writable_of_mem_selectTargets hx
  unfold Sys.memoryRounds
  by_cases hro : s.cluster.config.readOnly = true
  · rw [if_pos hro]
    exact Sys.rounds_nowhere
  rw [if_neg hro]
  unfold Sys.metaRounds
  dsimp only
  by_cases hnone : (s.cluster.selectTargets k).filter (fun x => s.takesMeta refs k body metadata x) = []
  · rw [if_pos hnone]
    refine ⟨(s.cluster.nodup_others k (s.cluster.selectTargets k)).filter _, fun x hx => ?_, fun x hx => ?_⟩
    · rcases List.mem_append.mp hx with hx | hx
      · exact ⟨htargets x hx, hr.metaRef (htargets x hx)⟩
      · have hw := (Cluster.mem_others hx).1
        exact ⟨hw, hr.metaRef hw⟩
    · obtain ⟨hmem, htakes⟩ := List.mem_filter.mp hx
      exact ⟨List.mem_append_right _ hmem, Sys.took_of_takesMeta htakes⟩
  · rw [if_neg hnone]
    refine ⟨(s.cluster.nodup_selectTargets k).filter _, fun x hx => ⟨htargets x hx, hr.metaRef (htargets x hx)⟩, fun x hx => ?_⟩
    obtain ⟨hmem, htakes⟩ := List.mem_filter.mp hx
    exact ⟨hmem, Sys.took_of_takesMeta htakes⟩

theorem Sys.fileRounds_spec [Crates] (hr : refs.Matches s.cluster) :
    s.Rounds refs k body metadata (s.fileRounds refs k body metadata) := by
  unfold Sys.fileRounds
  by_cases hraw : s.cluster.streams refs k = true
  · rw [if_pos hraw]
    have htakes : ∀ x, x ∈ s.takers (fun x => refs.kind x = .raw) k →
        x ∈ s.cluster.sentTo (fun x => refs.kind x = .raw) (fun x => s.accepts x) k (s.cluster.selectTargets k) ∧ s.accepts x = true := by
      intro x hx
      unfold Sys.takers Cluster.takers at hx
      unfold Cluster.sentTo
      split at hx
      · next hnone =>
        rw [if_pos hnone]
        obtain ⟨hmem, hacc⟩ := List.mem_filter.mp hx
        exact ⟨List.mem_append_right _ hmem, hacc⟩
      · next hsome =>
        rw [if_neg hsome]
        obtain ⟨hmem, hacc⟩ := List.mem_filter.mp hx
        exact ⟨hmem, hacc⟩
    refine ⟨?_, fun x hx => ?_, fun x hx => ⟨(htakes x hx).1, ?_⟩⟩
    · show (s.cluster.takers _ _ k _).Nodup
      unfold Cluster.takers
      split
      · exact ((s.cluster.nodup_others k (s.cluster.selectTargets k)).filter _).filter _
      · exact (s.cluster.nodup_selectTargets k).filter _
    · have hw := (raw_of_mem_sentTo hraw hx).2
      exact ⟨hw, hr.metaRef hw⟩
    · obtain ⟨hkind, hw⟩ := raw_of_mem_sentTo hraw (htakes x hx).1
      have hacc := (htakes x hx).2
      cases hst : s.cluster.storeRef x with
      | none =>
        rw [Sys.accepts_none hst] at hacc
        cases hacc
      | some st =>
        refine ⟨st, (hr.metaRef hw).trans hst, ?_⟩
        rw [Sys.accepts_some hst, Option.isNone_iff_eq_none] at hacc
        rw [hkind]
        rcases (s.stores st).put_cases k { body, metadata } with ⟨e, h1, -⟩ | ⟨-, h2, -⟩
        · rw [hacc] at h1
          cases h1
        · exact h2
  · rw [if_neg hraw]
    exact Sys.memoryRounds_spec hr

/-- Every store that is sent the write is as it was: it is unmoved, or for a key without an entry the write is taken back. -/
def Sys.Undone [Crates] (s : Sys) (refs : RawRefRegistry) (k : Key) (body metadata : Bytes) (rounds : List ShardId × List ShardId) : Prop :=
  ∀ x ∈ rounds.1, ∀ st, s.cluster.metaRef refs x = some st →
    if s.cluster.catalog.get k = none ∧ x ∈ rounds.2 then
      (s.stores st).TakenBack (refs.kind x) (s.cluster.cleanKind x) k body metadata
    else (s.stores st).Unmoved (refs.kind x) k body metadata

/-- Without enough takers, what the stores have of the key stays just if the write is undone everywhere. -/
theorem Written.sameAt_iff [Crates] {metaLen : UInt16} {r : Except Error Unit} (hr : refs.Matches s.cluster)
    (h : Written refs k body metadata metaLen (s.fileRounds refs k body metadata) s r s')
    (hfew : (s.fileRounds refs k body metadata).2.length < s.cluster.config.minWrites) :
    (∀ st, (s.stores st).SameAt k (s'.stores st)) ↔ s.Undone refs k body metadata (s.fileRounds refs k body metadata) := by
  have hspec : s.Rounds refs k body metadata (s.fileRounds refs k body metadata) := Sys.fileRounds_spec hr
  generalize s.fileRounds refs k body metadata = rounds at *
  have hnd := hspec.nodup
  have href : ∀ x ∈ rounds.1, s.cluster.metaRef refs x = s.cluster.storeRef x := fun x hx => (hspec.sent x hx).2
  have htook : ∀ x ∈ rounds.2, x ∈ rounds.1 ∧
      ∀ st, s.cluster.metaRef refs x = some st → ((s.stores st).putMeta (refs.kind x) k body metadata).1 = .ok () := by
    intro x hx
    obtain ⟨hsent, st, hst, hok⟩ := hspec.took x hx
    refine ⟨hsent, fun st' hst' => ?_⟩
    obtain rfl := Option.some.inj (hst.symm.trans hst')
    exact hok
  obtain ⟨mid, hsame, -, hran, -, hfailed⟩ := h
  obtain ⟨-, -, hmid, hcleaned⟩ := hfailed hfew
  have hkind : ∀ x, mid.cluster.cleanKind x = s.cluster.cleanKind x := fun x => by
    unfold Cluster.cleanKind
    rw [hsame.config]
  -- What the write leaves on the store of a shard it is sent to.
  have hleft : ∀ x ∈ rounds.1, ∀ st, s.cluster.metaRef refs x = some st →
      ((s.stores st).SameAt k (s'.stores st) ↔ if s.cluster.catalog.get k = none ∧ x ∈ rounds.2 then
        (s.stores st).TakenBack (refs.kind x) (s.cluster.cleanKind x) k body metadata
      else (s.stores st).Unmoved (refs.kind x) k body metadata) := by
    intro x hx st hst
    have hmidst := hran.ran x hx st hst
    by_cases hback : s.cluster.catalog.get k = none ∧ x ∈ rounds.2
    · rw [if_pos hback]
      have hcl := (hcleaned hback.1 hnd).ran x hback.2 st (by rw [hsame.storeRef, ← href x hx, hst])
      rw [hcl, hmidst, hkind, Store.cleanup_sameAt_iff _ ((htook x hback.2).2 st hst)]
    · rw [if_neg hback, ← Store.putMeta_sameAt_iff, ← hmidst]
      have hstays : s'.stores st = mid.stores st := by
        by_cases hentry : (s.cluster.catalog.get k).isSome
        · rw [hmid hentry]
        · have hnone := Option.not_isSome_iff_eq_none.mp hentry
          refine (hcleaned hnone hnd).kept st fun y hy hys => hback ⟨hnone, ?_⟩
          rw [hsame.storeRef] at hys
          have hyx := s.cluster.config.storeOf.injective ((Cluster.storeRef_eq_some hys).1.symm.trans
            (Cluster.storeRef_eq_some ((href x hx).symm.trans hst)).1)
          rwa [← hyx]
      rw [hstays]
  constructor
  · intro hall x hx st hst
    exact (hleft x hx st hst).mp (hall st)
  · intro hundone st
    by_cases hst : ∃ x ∈ rounds.1, s.cluster.metaRef refs x = some st
    · obtain ⟨x, hx, hst⟩ := hst
      exact (hleft x hx st hst).mpr (hundone x hx st hst)
    · have hmidst : mid.stores st = s.stores st := hran.kept st fun x hx hxs => hst ⟨x, hx, hxs⟩
      have hstays : s'.stores st = mid.stores st := by
        by_cases hentry : (s.cluster.catalog.get k).isSome
        · rw [hmid hentry]
        · have hnone := Option.not_isSome_iff_eq_none.mp hentry
          refine (hcleaned hnone hnd).kept st fun y hy hys => hst ⟨y, (htook y hy).1, ?_⟩
          rw [hsame.storeRef] at hys
          rw [href y (htook y hy).1, hys]
      rw [hstays, hmidst]
      exact ⟨rfl, rfl⟩

end ObjStr.Sharded
