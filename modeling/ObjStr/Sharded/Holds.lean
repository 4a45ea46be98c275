/-
  ObjStr.Sharded.Holds — a shard that is held out of service by hand.

  `hold_offline` leaves a shard Detached, on the placeholder. Whatever chooses its shards by their health
  then passes it over; but the health of a shard is also written on what was read before.
  - `hold_is_honoured`: the shard stays as it is, in every interleaving of client calls, passes of the
    recovery task, rescans and syncs, if these begin during the hold and no rescan or sync is of the
    shard itself, and those under way when the hold began have nothing left that writes its
    health (`Unconcerned`).
  - `task_unconcerned_iff`: of the tasks that begin during the hold, exactly a rescan and a sync of
    the shard itself do not leave it alone.
  - `a_write_in_flight_ends_the_hold`: a put has chosen the shard; it is held; the put's write fails on
    the placeholder, and the shard is marked Offline, from where the recovery task puts it back.
-/

import ObjStr.Sharded.Service
import ObjStr.Sharded.Multipart
import ObjStr.Sharded.BadRequests

namespace ObjStr.Sharded

open ObjStr.Lib ObjStr.Raw Proc

variable {α β : Type} {s s' : Sys} {x y : ShardId}

/-! ## The hold -/

structure Sys.Held (x : ShardId) (s : Sys) : Prop where
  health : s.cluster.healthOf x = some .detached
  store : s.cluster.storeRef x = none

theorem InService.held (h : InService s s') (hs : s.Held x) : s'.Held x :=
  ⟨(h.health x).trans hs.health, (h.refs x).trans hs.store⟩

/-- What leaves every shard in its service leaves the shard held. -/
theorem keeps_of_serving {p : ClusterM α} (h : Serving p) : Keeps (Sys.Held x) p fun _ => True :=
  h.keeps fun _ _ _ hstep hs => hstep.held hs

theorem keeps_look {g : Sys → α} {S : α → Prop} (h : ∀ s, s.Held x → S (g s)) : Keeps (Sys.Held x) (look g) S :=
  keeps_step fun s hs => ⟨hs, h s hs⟩

theorem Sys.Held.not_available (h : s.Held x) : s.cluster.available x = false := by
  rw [Cluster.available, h.health]
  rfl

theorem Sys.Held.not_writable (h : s.Held x) : s.cluster.writable x = false := by
  rw [Cluster.writable, h.health]
  rfl

theorem healthOf_onShard (c : Cluster) (f : ShardInfo → ShardInfo) (hne : y ≠ x) : (c.onShard y f).healthOf x = c.healthOf x := by
  simp [Cluster.healthOf, Cluster.onShard, hne]

theorem storeRef_onShard (c : Cluster) (f : ShardInfo → ShardInfo) (hne : y ≠ x) : (c.onShard y f).storeRef x = c.storeRef x := by
  simp [Cluster.storeRef, Cluster.onShard, hne]

theorem Sys.Held.onShard (h : s.Held x) (f : ShardInfo → ShardInfo) (hne : y ≠ x) :
    Sys.Held x { s with cluster := s.cluster.onShard y f } :=
  ⟨(healthOf_onShard _ f hne).trans h.health, (storeRef_onShard _ f hne).trans h.store⟩

/-- What is done to another shard. -/
theorem keeps_changeShard (hne : y ≠ x) (f : DateTime → ShardInfo → ShardInfo) :
    Keeps (Sys.Held x) (changeShard y f) fun _ => True :=
  keeps_step fun s hs => ⟨Sys.Held.onShard (s := s.tick) ⟨hs.health, hs.store⟩ (f s.now) hne, trivial⟩

theorem keeps_setShardHealth (hne : y ≠ x) (h : ShardHealth) : Keeps (Sys.Held x) (setShardHealth y h) fun _ => True :=
  keeps_changeShard hne fun now i => i.setHealth h now

theorem keeps_shardHealth : Keeps (Sys.Held x) (shardHealth y) fun h => y = x → h = some .detached :=
  keeps_look fun s hs => by
    rintro rfl
    exact hs.health

/-- A hold of the shard, or of another one. -/
theorem keeps_holdOffline (suppress : Bool) (reason : DetachReason) :
    Keeps (Sys.Held x) (holdOffline y suppress reason) fun _ => True := by
  by_cases hne : y = x
  · subst hne
    refine keeps_step fun s hs => ⟨?_, trivial⟩
    have hsome : ∃ i, s.cluster.shards[y]? = some i := by
      have hh := hs.health
      unfold Cluster.healthOf at hh
      cases hi : s.cluster.shards[y]? with
      | none => simp [hi] at hh
      | some i => exact ⟨i, rfl⟩
    obtain ⟨i, hi⟩ := hsome
    constructor
    · simp [Cluster.healthOf, Cluster.onShard, hi, ShardInfo.detach]
    · simp [Cluster.storeRef, Cluster.onShard, hi, ShardInfo.detach]
  · exact keeps_changeShard hne _

/-! ## Writes -/

/-- The outcomes are of these shards. -/
abbrev Outcomes.Of (ids : List ShardId) (o : Outcomes) : Prop := ∀ a ∈ o, a.1 ∈ ids

theorem Outcomes.Of.rejected {ids : List ShardId} {o : Outcomes} (h : o.Of ids) (hx : x ∉ ids) : x ∉ o.rejected := by
  intro hmem
  unfold Outcomes.rejected at hmem
  obtain ⟨a, ha, hax⟩ := List.mem_map.mp hmem
  exact hx (hax ▸ h a (List.mem_filter.mp ha).1)

/-- Processes side by side, one for each of the shards. -/
theorem keeps_outcomes {κ : Type} {f : κ → ClusterM (Except StoreError Unit)} (shard : κ → ShardId) {l : List κ} {ids : List ShardId}
    (hf : ∀ a, Serving (f a)) (hl : ∀ a ∈ l, shard a ∈ ids) :
    Keeps (Sys.Held x) (joinAll (l.map fun a => do
      let r ← f a
      pure (shard a, r))) (Outcomes.Of ids) := by
  refine (keeps_joinAll (R := fun a o => o.1 = shard a) fun a _ => ?_).mono fun os hos => ?_
  · exact keeps_bind (keeps_of_serving (hf a)) fun r _ => keeps_pure rfl
  · induction hos with
    | nil => simp
    | cons hhead _ ih =>
      intro o ho
      rcases List.mem_cons.mp ho with rfl | ho
      · exact hhead ▸ hl _ List.mem_cons_self
      · exact ih (fun a ha => hl a (List.mem_cons_of_mem _ ha)) o ho

theorem keeps_fanOut {stores : List (ShardId × StoreRef)} {ids : List ShardId} (h : ∀ a ∈ stores, a.1 ∈ ids) (key : Key) (up : Upload) :
    Keeps (Sys.Held x) (fanOut stores key up) (Outcomes.Of ids) :=
  keeps_outcomes Prod.fst (fun _ => serving_call _ _ _ _) h

theorem keeps_storesOf (ids : List ShardId) : Keeps (Sys.Held x) (storesOf ids) fun l => ∀ a ∈ l, a.1 ∈ ids :=
  keeps_look fun s _ a ha => by
    obtain ⟨id, hid, rfl⟩ := List.mem_map.mp ha
    exact (List.mem_filter.mp hid).1

section Writes

variable [Crates]

theorem keeps_selectTargets (key : Key) : Keeps (Sys.Held x) (selectTargets key) fun ids => x ∉ ids :=
  keeps_look fun s hs hmem => by
    have hw := Cluster.writable_of_mem_selectTargets hmem
    rw [hs.not_writable] at hw
    exact Bool.false_ne_true hw

omit [Crates] in
theorem keeps_setEach {ids : List ShardId} (hx : x ∉ ids) (h : ShardHealth) :
    Keeps (Sys.Held x) (ids.forM fun y => setShardHealth y h) fun _ => True :=
  keeps_forM fun y hy => keeps_setShardHealth (fun hyx : y = x => hx (hyx ▸ hy)) h

/-- Only shards that a write went to are marked. -/
theorem keeps_markWriteFailures {failed : List ShardId} (hx : x ∉ failed) (placed tried : List ShardId) (key : Key) :
    Keeps (Sys.Held x) (markWriteFailures placed failed tried key) fun ids => x ∉ ids := by
  unfold markWriteFailures
  split
  · refine keeps_bind (keeps_setEach hx .offline) fun _ _ => keeps_bind (keeps_selectTargets key) fun ids hids => ?_
    exact keeps_pure fun hmem => hids (List.mem_filter.mp hmem).1
  split
  · refine keeps_bind (keeps_forM fun y hy => ?_) fun _ _ => keeps_pure (by simp)
    refine keeps_bind keeps_shardHealth fun h hh => ?_
    have hne : y ≠ x := fun hyx => hx (hyx ▸ hy)
    split
    · exact keeps_setShardHealth hne _
    · exact keeps_pure trivial
  · exact keeps_pure (by simp)

theorem keeps_writeToShardsInner {targets : List ShardId} (hx : x ∉ targets) (key : Key) (data : Bytes) (required : Nat)
    (cleanup : Bool) : Keeps (Sys.Held x) (writeToShardsInner key data targets required cleanup) fun _ => True := by
  refine keeps_bind (keeps_storesOf targets) fun stores hstores => keeps_bind (keeps_fanOut hstores key _) fun o ho => ?_
  have hfailed : x ∉ o.rejected := ho.rejected hx
  split
  · refine keeps_bind (keeps_markWriteFailures hfailed _ _ key) fun ids hids => keeps_bind (keeps_storesOf ids) fun again hagain =>
      keeps_bind (keeps_fanOut hagain key _) fun o' _ => ?_
    dsimp only
    split
    · exact keeps_pure trivial
    · exact keeps_of_serving (serving_requireWrites _ _ _ _ _)
  · exact keeps_bind (keeps_markWriteFailures hfailed _ _ key) fun _ _ => keeps_of_serving (serving_requireWrites _ _ _ _ _)

theorem keeps_writeToShards {targets : List ShardId} (hx : x ∉ targets) (key : Key) (data : Bytes) :
    Keeps (Sys.Held x) (writeToShards key data targets) fun _ => True :=
  keeps_bind (keeps_of_serving (serving_look _)) fun _ _ => keeps_writeToShardsInner hx _ _ _ _

theorem keeps_retryTargets {targets : List ShardId} (hx : x ∉ targets) (key : Key) :
    Keeps (Sys.Held x) (retryTargets key targets) fun others => ∀ ids ∈ others, x ∉ ids := by
  refine keeps_bind (keeps_setEach hx .offline) fun _ _ => keeps_bind (keeps_selectTargets key) fun others hothers => ?_
  refine keeps_pure fun ids hids => ?_
  split at hids
  · cases hids
  · cases hids
    exact hothers

/-- A write, and again on other shards when all of the first failed. -/
theorem keeps_writeTwice {targets : List ShardId} (hx : x ∉ targets) (key : Key) (data : Bytes)
    {fail : Error → ClusterM (Except Error Unit)} (hfail : ∀ e, Serving (fail e)) :
    Keeps (Sys.Held x) (do
      match ← writeToShards key data targets with
      | .ok placed => recordPut key data placed
      | .error firstErr =>
        if firstErr.isInsufficientWrites then fail firstErr
        else do
          match ← retryTargets key targets with
          | none => fail .noShards
          | some others => do
            match ← writeToShards key data others with
            | .ok placed => recordPut key data placed
            | .error e => fail e) fun _ => True := by
  refine keeps_bind (keeps_writeToShards hx key data) fun r _ => ?_
  cases r with
  | ok placed => exact keeps_of_serving (serving_recordPut _ _ _)
  | error e =>
    dsimp only
    split
    · exact keeps_of_serving (hfail e)
    refine keeps_bind (keeps_retryTargets hx key) fun others hothers => ?_
    cases others with
    | none => exact keeps_of_serving (hfail _)
    | some ids =>
      refine keeps_bind (keeps_writeToShards (hothers ids rfl) key data) fun r _ => ?_
      cases r with
      | ok placed => exact keeps_of_serving (serving_recordPut _ _ _)
      | error e => exact keeps_of_serving (hfail e)

theorem keeps_put (key : Key) (payload : Bytes) : Keeps (Sys.Held x) (put key payload) fun _ => True := by
  refine keeps_bind (keeps_of_serving (serving_look _)) fun ro _ => ?_
  split
  · exact keeps_pure trivial
  refine keeps_bind (keeps_selectTargets key) fun targets hx => ?_
  split
  · exact keeps_pure trivial
  · exact keeps_writeTwice hx key payload fun e => only_pure (Except.error e)

theorem keeps_putCreate (key : Key) (payload : Bytes) : Keeps (Sys.Held x) (putCreate key payload) fun _ => True := by
  refine keeps_bind (keeps_selectTargets key) fun targets hx => ?_
  split
  · exact keeps_pure trivial
  refine keeps_bind (keeps_of_serving (serving_catalogTryInsert _ _ _)) fun done _ => ?_
  split
  · exact keeps_pure trivial
  · exact keeps_writeTwice hx key payload fun e => only_bind (serving_dropPlaceholder key) fun _ => only_pure (Except.error e)

theorem keeps_putOpts (key : Key) (payload : Bytes) (mode : PutMode) : Keeps (Sys.Held x) (putOpts key payload mode) fun _ => True := by
  refine keeps_bind (keeps_of_serving (serving_look _)) fun ro _ => ?_
  split
  · exact keeps_pure trivial
  cases mode with
  | create => exact keeps_putCreate key payload
  | overwrite => exact keeps_put key payload
  | update eTag version =>
    dsimp only
    split
    · exact keeps_pure trivial
    · exact keeps_put key payload

theorem keeps_putDeleteMarker [Chrono] (key : Key) : Keeps (Sys.Held x) (putDeleteMarker key) fun _ => True := by
  have hrecord : ∀ (body : Bytes) (written : Except Error (List ShardId)),
      Keeps (Sys.Held x) (recordMarker key body.length written) fun _ => True := fun body written => by
    cases written with
    | error e => exact keeps_pure trivial
    | ok placed => exact keeps_bind (keeps_of_serving (serving_catalogPut _ _ _ _ _)) fun _ _ => keeps_pure trivial
  refine keeps_bind (keeps_of_serving (only_step fun _ => inService_of_shards rfl rfl)) fun now _ => ?_
  have hreach : Keeps (Sys.Held x)
      (look fun s => (List.range s.cluster.shards.length).filter fun id => s.cluster.available id) fun ids => x ∉ ids :=
    keeps_look fun s hs hmem => by
      have hav := (List.mem_filter.mp hmem).2
      rw [hs.not_available] at hav
      exact Bool.false_ne_true hav
  refine keeps_bind hreach fun reachable hx => ?_
  split
  · exact keeps_pure trivial
  refine keeps_bind (keeps_of_serving (serving_look _)) fun strict _ => ?_
  generalize Path.fromStr (deleteMarkerKey key) = path
  cases strict with
  | true => exact keeps_bind (keeps_writeToShards hx path _) fun written _ => hrecord _ written
  | false => exact keeps_bind (keeps_writeToShardsInner hx path _ 1 false) fun written _ => hrecord _ written

theorem keeps_delete [Chrono] (key : Key) : Keeps (Sys.Held x) (delete key) fun _ => True := by
  refine keeps_bind (keeps_of_serving (serving_look _)) fun ro _ => ?_
  split
  · exact keeps_pure trivial
  split
  · exact keeps_of_serving (serving_deleteRaw _)
  refine keeps_bind (keeps_putDeleteMarker key) fun r _ => ?_
  cases r with
  | error e => exact keeps_pure trivial
  | ok _ => exact keeps_of_serving (serving_deleteRaw _)

/-! ## Writes with metadata, and copies -/

omit [Crates] in
theorem keeps_fanOutWithMeta (refs : RawRefRegistry) (key : Key) (payload metadata : Bytes) (ids : List ShardId) :
    Keeps (Sys.Held x) (fanOutWithMeta refs key payload metadata ids) (Outcomes.Of ids) :=
  keeps_outcomes id (fun y => serving_tryPutShard refs y key payload metadata) fun _ h => h

omit [Crates] in
theorem keeps_streamToShards (refs : RawRefRegistry) (key : Key) (body metadata : Bytes) (ids : List ShardId) :
    Keeps (Sys.Held x) (streamToShards refs key body metadata ids) (Outcomes.Of ids) := by
  unfold streamToShards
  suffices h : ∀ (rest : List ShardId) (done : Outcomes), done.Of ids → rest ⊆ ids →
      Keeps (Sys.Held x) (rest.foldlM (streamToShard refs key body metadata) done) (Outcomes.Of ids) from
    h ids [] (by simp) (List.Subset.refl ids)
  intro rest
  induction rest with
  | nil =>
    intro done hdone _
    exact keeps_pure hdone
  | cons y rest ih =>
    intro done hdone hrest
    rw [List.foldlM_cons, streamToShard]
    have hy : y ∈ ids := hrest List.mem_cons_self
    have hrest' : rest ⊆ ids := fun z hz => hrest (List.mem_cons_of_mem y hz)
    cases refs.get y with
    | none => exact ih done hdone hrest'
    | some raw =>
      refine keeps_bind (keeps_bind (keeps_of_serving (serving_call (some raw) _ _ _)) fun r _ => keeps_pure ?_)
        fun done' (h : done'.Of ids) => ih done' h hrest'
      intro a ha
      rcases List.mem_append.mp ha with ha | ha
      · exact hdone a ha
      · rw [List.mem_singleton.mp ha]
        exact hy

/-- Two rounds of writes, then the end of the write. -/
theorem keeps_rounds {write : List ShardId → ClusterM Outcomes} (hwrite : ∀ ids, Keeps (Sys.Held x) (write ids) (Outcomes.Of ids))
    {targets : List ShardId} (hx : x ∉ targets) (key : Key) {finish : Outcomes → Outcomes → ClusterM (Except Error Unit)}
    (hfinish : ∀ o o', Serving (finish o o')) :
    Keeps (Sys.Held x) (do
      let outcomes ← write targets
      let retryIds ← markWriteFailures outcomes.accepted outcomes.rejected targets key
      let retried ← if outcomes.accepted.isEmpty then write retryIds else pure []
      finish outcomes retried) fun _ => True := by
  refine keeps_bind (hwrite targets) fun o ho => keeps_bind (keeps_markWriteFailures (ho.rejected hx) _ _ key) fun ids _ => ?_
  dsimp only
  split
  · exact keeps_bind (hwrite ids) fun o' _ => keeps_of_serving (hfinish o o')
  · exact keeps_of_serving (hfinish o [])

theorem keeps_putWithMeta (refs : RawRefRegistry) (key : Key) (payload metadata : Bytes) :
    Keeps (Sys.Held x) (putWithMeta refs key payload metadata) fun _ => True := by
  refine keeps_bind (keeps_of_serving (serving_look _)) fun ro _ => ?_
  split
  · exact keeps_pure trivial
  refine keeps_bind (keeps_selectTargets key) fun targets hx => ?_
  exact keeps_rounds (keeps_fanOutWithMeta refs key payload metadata) hx key
    fun o o' => serving_finishWithMeta key (o.accepted ++ o'.accepted) (o ++ o') _ _ _

theorem keeps_putWithMetaFromFile (refs : RawRefRegistry) (key : Key) (file : Bytes) (metaLen : UInt16) :
    Keeps (Sys.Held x) (putWithMetaFromFile refs key file metaLen) fun _ => True := by
  refine keeps_bind (keeps_selectTargets key) fun targets hx => ?_
  split
  · split
    · exact keeps_pure trivial
    · exact keeps_rounds (keeps_streamToShards refs key _ _) hx key
        fun o o' => serving_finishWithMeta key (o.accepted ++ o'.accepted) (o ++ o') _ _ _
  · exact keeps_putWithMeta refs key _ _

theorem keeps_copy (src dst : Key) : Keeps (Sys.Held x) (copy src dst) fun _ => True := by
  refine keeps_bind (keeps_of_serving (serving_look _)) fun ro _ => ?_
  split
  · exact keeps_pure trivial
  refine keeps_bind (keeps_of_serving (serving_get src)) fun got _ => ?_
  cases got with
  | error e => exact keeps_pure trivial
  | ok o =>
    refine keeps_bind (keeps_of_serving (serving_readObjectMetadata _ _)) fun metaBytes _ =>
      keeps_bind (keeps_of_serving (serving_look _)) fun refs _ => ?_
    split
    · exact keeps_putWithMeta _ dst _ _
    · exact keeps_put dst _

theorem keeps_copyIfNotExists (src dst : Key) : Keeps (Sys.Held x) (copyIfNotExists src dst) fun _ => True := by
  have hdrop : ∀ e : Error, Serving (do
      let _ ← catalogRemove dst
      pure (.error e) : ClusterM (Except Error Unit)) := fun e => only_bind (serving_catalogRemove dst) fun _ => only_pure _
  refine keeps_bind (keeps_of_serving (serving_look _)) fun ro _ => ?_
  split
  · exact keeps_pure trivial
  refine keeps_bind (keeps_of_serving (serving_look _)) fun entry _ => ?_
  split
  · exact keeps_pure trivial
  refine keeps_bind (keeps_of_serving (serving_get src)) fun got _ => ?_
  cases got with
  | error e => exact keeps_pure trivial
  | ok o =>
    refine keeps_bind (keeps_selectTargets dst) fun targets hx =>
      keeps_bind (keeps_of_serving (serving_catalogTryInsert _ _ _)) fun done _ => ?_
    split
    · exact keeps_pure trivial
    refine keeps_bind (keeps_of_serving (serving_readObjectMetadata _ _)) fun metaBytes _ =>
      keeps_bind (keeps_of_serving (serving_look _)) fun refs _ => ?_
    split
    · refine keeps_bind (keeps_putWithMeta _ dst _ _) fun r _ => ?_
      cases r with
      | ok _ => exact keeps_pure trivial
      | error e => exact keeps_of_serving (hdrop e)
    · refine keeps_bind (keeps_writeToShards hx dst _) fun r _ => ?_
      cases r with
      | ok placed => exact keeps_bind (keeps_of_serving (serving_catalogPut _ _ _ _ _)) fun _ _ => keeps_pure trivial
      | error e => exact keeps_of_serving (hdrop e)

/-! ## The recovery task -/

omit [Crates] in
theorem keeps_invalidateShard (hne : y ≠ x) : Keeps (Sys.Held x) (invalidateShard y) fun _ => True := by
  refine keeps_bind (keeps_of_serving (serving_look _)) fun known _ => ?_
  split
  · exact keeps_pure trivial
  refine keeps_bind (keeps_changeShard hne _) fun _ _ => keeps_bind (keeps_of_serving (serving_look _)) fun old _ =>
    keeps_bind (keeps_of_serving (serving_catalogRemoveAllForShard y)) fun purged _ =>
    keeps_bind (keeps_of_serving (serving_rebuildCatalogForShard y)) fun scanned _ =>
    keeps_bind (keeps_of_serving (serving_look _)) fun new _ => ?_
  dsimp only
  split
  · exact keeps_bind (keeps_changeShard hne _) fun _ _ => keeps_pure trivial
  · exact keeps_pure trivial

omit [Crates] in
theorem keeps_attachShard (hne : y ≠ x) (force : Bool) : Keeps (Sys.Held x) (attachShard y force) fun _ => True := by
  have hfinish : ∀ result : Except Error Nat, Keeps (Sys.Held x) (do
      changeShard y fun now i =>
        if result.toOption.isSome then { i with health := .healthy } else { i with health := .offline, offlineSince := some now }
      pure result) fun _ => True := fun result => keeps_bind (keeps_changeShard hne _) fun _ _ => keeps_pure trivial
  refine keeps_bind (S := fun _ => True) (keeps_step fun s hs => ⟨hs.onShard _ hne, trivial⟩) fun known _ => ?_
  split
  · exact keeps_pure trivial
  dsimp only
  split
  · exact keeps_bind (keeps_of_serving (serving_rebuildCatalogForShard y)) fun result _ => hfinish result
  · exact keeps_bind (keeps_invalidateShard hne) fun report _ => hfinish _

section Recovery

variable [Chrono]

theorem keeps_syncAndReattach (hne : y ≠ x) (d : Daemon) : Keeps (Sys.Held x) (syncAndReattach d y) fun _ => True := by
  have hattach : ∀ (synced : Bool) (original : StoreRef), Keeps (Sys.Held x) (if !synced || original.isNone then setShardHealth y .offline
      else do
        let attached ← attachShard y true
        if attached.toOption.isSome then pure () else setShardHealth y .offline) fun _ => True := fun synced original => by
    split
    · exact keeps_setShardHealth hne _
    refine keeps_bind (keeps_attachShard hne true) fun attached _ => ?_
    split
    · exact keeps_pure trivial
    · exact keeps_setShardHealth hne _
  refine keeps_bind (keeps_setShardHealth hne _) fun _ _ => keeps_bind (keeps_of_serving (serving_look _)) fun isMirror _ =>
    keeps_bind (keeps_of_serving (serving_look _)) fun original _ => ?_
  dsimp only
  split
  · exact keeps_bind (keeps_of_serving (serving_mirrorSync original y d.rawRefs)) fun r _ => hattach _ original
  · exact keeps_bind (keeps_of_serving (serving_partitionedSync original y d.rawRefs)) fun r _ => hattach _ original

omit [Crates] [Chrono] in
theorem serving_probeStore (r : StoreRef) : Serving (probeStore r) :=
  only_bind (serving_call _ _ _ _) fun _ => only_pure _

omit [Crates] [Chrono] in
theorem keeps_detach (hne : y ≠ x) (reason : DetachReason) (n : Nat) : Keeps (Sys.Held x) (do
    detachShard y
    setDetachReason y reason
    pure n) fun _ => True :=
  keeps_bind (keeps_changeShard hne _) fun _ _ => keeps_bind (keeps_changeShard hne _) fun _ _ => keeps_pure trivial

/-- A pass does nothing with a shard that it sees Detached. -/
theorem keeps_recoverShard (d : Daemon) (seen : Sighting) (y : ShardId) (fails : Nat) :
    Keeps (Sys.Held x) (recoverShard d seen y fails) fun _ => True := by
  refine keeps_bind keeps_shardHealth fun h hh => ?_
  cases h with
  | none => exact keeps_pure trivial
  | some health =>
    dsimp only
    by_cases hd : health = .detached
    · subst hd
      exact keeps_pure trivial
    have hne : y ≠ x := fun hyx => hd (Option.some.inj (hh hyx))
    split
    · split
      · exact keeps_detach hne _ 0
      refine keeps_bind (keeps_of_serving (serving_look _)) fun store _ => ?_
      cases store with
      | none => exact keeps_pure trivial
      | some store =>
        refine keeps_bind (keeps_of_serving (serving_probeStore store)) fun found _ => ?_
        split
        · exact keeps_pure trivial
        split
        · exact keeps_detach hne _ 0
        · exact keeps_pure trivial
    split
    · split
      · exact keeps_pure trivial
      refine keeps_bind (keeps_of_serving (serving_look _)) fun original _ => ?_
      split
      · exact keeps_pure trivial
      refine keeps_bind (keeps_of_serving (serving_probeStore original)) fun found _ => ?_
      split
      · exact keeps_bind (keeps_syncAndReattach hne d) fun _ _ => keeps_pure trivial
      · exact keeps_pure trivial
    · exact keeps_pure trivial

theorem keeps_recoveryPass (d : Daemon) (seen : Sighting) (fails : List Nat) :
    Keeps (Sys.Held x) (recoveryPass d seen fails) fun _ => True := by
  refine keeps_bind (keeps_of_serving (serving_look _)) fun ids _ => keeps_bind (keeps_foldlM fun counts y _ => ?_) fun counts _ => ?_
  · exact keeps_bind (keeps_recoverShard d seen y _) fun _ _ => keeps_pure trivial
  split
  · exact keeps_pure trivial
  refine keeps_bind (keeps_of_serving (serving_reReplicationSweep _ _)) fun swept _ => ?_
  split
  · exact keeps_bind (keeps_of_serving (serving_reReplicateUnder _ _)) fun _ _ =>
      keeps_bind (keeps_of_serving (serving_overReplicationTrim _)) fun _ _ => keeps_pure trivial
  · exact keeps_bind (keeps_of_serving (serving_overReplicationTrim _)) fun _ _ => keeps_pure trivial

theorem keeps_recoveryLoop (d : Daemon) (seen : List Sighting) (fails : List Nat) :
    Keeps (Sys.Held x) (recoveryLoop d seen fails) fun _ => True := by
  induction seen generalizing fails with
  | nil => exact keeps_pure trivial
  | cons seen rest ih => exact keeps_bind (keeps_recoveryPass d seen fails) fun counts _ => ih counts

end Recovery

/-! ## Uploads -/

abbrev Front.Held (x : ShardId) (f : Front) : Prop := f.sys.Held x

omit [Crates] in
theorem keeps_onCluster {p : ClusterM α} {S : α → Prop} (h : Keeps (Sys.Held x) p S) : Keeps (Front.Held x) (onCluster p) S :=
  h.within fun _ _ => rfl

omit [Crates] in
theorem keeps_frontStep {g : Front → β × Front} {l : β → Event}
    (h : ∀ f, (g f).2.sys.cluster = f.sys.cluster) : Keeps (Front.Held x) (Proc.step g l) fun _ => True :=
  keeps_step fun f hf => ⟨⟨by rw [h f, hf.health], by rw [h f, hf.store]⟩, trivial⟩

omit [Crates] in
theorem keeps_startOn (location : Key) (attributes : FMap String) (primaryId : ShardId) (replicas : List ShardId) :
    Keeps (Front.Held x) (startOn location attributes primaryId replicas) fun _ => True := by
  refine keeps_bind (keeps_onCluster (keeps_of_serving (serving_look _))) fun stores _ => ?_
  obtain ⟨primaryStore, replicaStores⟩ := stores
  have hstart : Keeps (Front.Held x) primaryStore.startUpload fun _ => True := by
    cases primaryStore with
    | none => exact keeps_pure trivial
    | some id => exact keeps_frontStep fun _ => rfl
  refine keeps_bind hstart fun r _ => ?_
  cases r with
  | error e => exact keeps_pure trivial
  | ok _ => exact keeps_bind (keeps_frontStep fun _ => rfl) fun _ _ => keeps_pure trivial

theorem keeps_putMultipartOpts (location : Key) (attributes : FMap String) :
    Keeps (Front.Held x) (putMultipartOpts location attributes) fun _ => True := by
  refine keeps_bind (keeps_onCluster (keeps_of_serving (serving_look _))) fun ro _ => ?_
  split
  · exact keeps_pure trivial
  refine keeps_bind (keeps_onCluster (keeps_selectTargets location)) fun targets hx => ?_
  cases targets with
  | nil => exact keeps_pure trivial
  | cons primaryId replicas =>
    refine keeps_bind (keeps_startOn _ _ _ _) fun r _ => ?_
    cases r with
    | ok u => exact keeps_pure trivial
    | error e =>
      have hne : primaryId ≠ x := fun h => hx (h ▸ List.mem_cons_self)
      refine keeps_bind (keeps_onCluster (keeps_setShardHealth hne _)) fun _ _ =>
        keeps_bind (keeps_onCluster (keeps_of_serving (serving_look _))) fun targets _ => ?_
      cases targets with
      | nil => exact keeps_pure trivial
      | cons primaryId replicas =>
        refine keeps_bind (keeps_startOn _ _ _ _) fun r _ => ?_
        cases r with
        | ok u => exact keeps_pure trivial
        | error e => exact keeps_pure trivial

omit [Crates] in
theorem serving_sendCopy (refs : Option RawRefRegistry) (location : Key) (data metadata : Bytes) (r : ShardId × StoreRef) :
    Serving (sendCopy refs location data metadata r) := by
  unfold sendCopy
  split
  · exact serving_writeWithMetaToShard _ _ _ _ _ _
  · exact serving_call _ _ _ _

omit [Crates] in
theorem serving_discardUpload (location : Key) (primaryStore : StoreRef) (replicas : List (ShardId × StoreRef))
    (placed : List ShardId) : Serving (discardUpload location primaryStore replicas placed) := by
  refine only_bind (only_forM fun r => ?_) fun _ => serving_deleteAnyway _ _
  split
  · exact serving_deleteAnyway _ _
  · exact only_pure _

theorem serving_publish (u : ShardedMultipartUpload) : Serving u.publish := by
  refine only_bind (serving_look _) fun refs => only_bind (serving_look _) fun required =>
    only_bind (serving_call _ _ _ _) fun got => ?_
  cases got with
  | error e => exact only_pure _
  | ok o =>
    have hlen : Serving (u.singleMetaLen refs) := by
      unfold ShardedMultipartUpload.singleMetaLen
      split
      · exact only_pure _
      · exact only_bind (serving_call _ _ _ _) fun _ => only_pure _
    have hmeta : Serving (u.metaBytes refs o.attributes) := by
      unfold ShardedMultipartUpload.metaBytes
      cases refs with
      | none => exact only_pure _
      | some refs => exact only_bind (serving_readMetadataFromShard _ _ _ _ _) fun _ => only_pure _
    dsimp only
    split
    · exact only_bind hlen fun _ => only_bind (serving_catalogPut _ _ _ _ _) fun _ => only_pure _
    refine only_bind hmeta fun metaBytes => only_bind (only_joinAll fun p hp => ?_) fun outcomes => ?_
    · obtain ⟨r, _, rfl⟩ := List.mem_map.mp hp
      exact only_bind (serving_sendCopy _ _ _ _ _) fun _ => only_pure _
    split
    · exact only_bind (serving_discardUpload _ _ _ _) fun _ => only_pure _
    · exact only_bind (serving_catalogPut _ _ _ _ _) fun _ => only_pure _

theorem keeps_complete (u : ShardedMultipartUpload) : Keeps (Front.Held x) u.complete fun _ => True := by
  have hcomplete : Keeps (Front.Held x) (u.primaryStore.completeUpload u.location u.assembled) fun _ => True := by
    cases u.primaryStore with
    | none => exact keeps_pure trivial
    | some id =>
      refine keeps_frontStep fun f => ?_
      split <;> rfl
  refine keeps_bind hcomplete fun r _ => ?_
  cases r with
  | error e => exact keeps_pure trivial
  | ok _ =>
    exact keeps_bind (keeps_frontStep fun _ => rfl) fun _ _ => keeps_onCluster (keeps_of_serving (serving_publish u))

omit [Crates] in
theorem keeps_purge : Keeps (Front.Held x) purgeStaleMultiparts fun _ => True := by
  refine keeps_bind (keeps_frontStep fun _ => rfl) fun stale _ => keeps_foldlM fun n u _ => ?_
  refine keeps_bind (keeps_onCluster (keeps_of_serving (serving_look _))) fun store _ => ?_
  cases store with
  | none => exact keeps_bind (keeps_frontStep fun _ => rfl) fun _ _ => keeps_pure trivial
  | some store =>
    exact keeps_bind (keeps_onCluster (keeps_of_serving (serving_call _ _ _ _))) fun _ _ =>
      keeps_bind (keeps_frontStep fun _ => rfl) fun _ _ => keeps_pure trivial

/-! ## Tasks -/

/-- What runs on a cluster: the calls of clients, the recovery task, and what an operator does. -/
inductive Task where
  | get (key : Key)
  | head (key : Key)
  | put (key : Key) (payload : Bytes) (mode : PutMode)
  | putWithMeta (refs : RawRefRegistry) (key : Key) (payload metadata : Bytes)
  | putWithMetaFromFile (refs : RawRefRegistry) (key : Key) (file : Bytes) (metaLen : UInt16)
  | delete (key : Key)
  | copy (src dst : Key)
  | copyIfNotExists (src dst : Key)
  | upload (key : Key) (attributes : FMap String) (parts : List Bytes) (finish : Bool)
  | purge
  | recovery (d : Daemon) (seen : List Sighting) (fails : List Nat)
  | invalidate (shard : ShardId)
  | sync (d : Daemon) (shard : ShardId)
  | hold (shard : ShardId) (suppressReplication : Bool) (reason : DetachReason)
  | release (shard : ShardId)
  | attach (shard : ShardId) (force : Bool)

def finishUpload (parts : List Bytes) (finish : Bool) (u : ShardedMultipartUpload) : FrontM Unit :=
  let u := parts.foldl ShardedMultipartUpload.putPart u
  if finish then do
    let _ ← u.complete
    pure ()
  else u.abort

variable [Chrono]

def Task.process : Task → FrontM Unit
  | .get key => do let _ ← onCluster (Sharded.get key)
  | .head key => do let _ ← onCluster (Sharded.head key)
  | .put key payload mode => do let _ ← onCluster (putOpts key payload mode)
  | .putWithMeta refs key payload metadata => do let _ ← onCluster (Sharded.putWithMeta refs key payload metadata)
  | .putWithMetaFromFile refs key file metaLen => do let _ ← onCluster (Sharded.putWithMetaFromFile refs key file metaLen)
  | .delete key => do let _ ← onCluster (Sharded.delete key)
  | .copy src dst => do let _ ← onCluster (Sharded.copy src dst)
  | .copyIfNotExists src dst => do let _ ← onCluster (Sharded.copyIfNotExists src dst)
  | .upload key attributes parts finish => do
    match ← putMultipartOpts key attributes with
    | .error _ => pure ()
    | .ok u => finishUpload parts finish u
  | .purge => do let _ ← purgeStaleMultiparts
  | .recovery d seen fails => onCluster (recoveryLoop d seen fails)
  | .invalidate shard => do let _ ← onCluster (invalidateShard shard)
  | .sync d shard => onCluster (syncAndReattach d shard)
  | .hold shard suppressReplication reason => onCluster (holdOffline shard suppressReplication reason)
  | .release shard => onCluster (releaseHold shard)
  | .attach shard force => do let _ ← onCluster (attachShard shard force)

/-- It is not a rescan, a sync, a release or an attach of the shard. -/
def Task.Spares (x : ShardId) : Task → Prop
  | .invalidate y | .sync _ y | .release y | .attach y _ => y ≠ x
  | _ => True

/-- A task that begins during the hold. -/
theorem keeps_process {t : Task} (h : t.Spares x) : Keeps (Front.Held x) t.process fun _ => True := by
  have hthen : ∀ {γ : Type} {p : ClusterM γ}, Keeps (Sys.Held x) p (fun _ => True) →
      Keeps (Front.Held x) (do let _ ← onCluster p) fun _ => True := fun hp => keeps_bind (keeps_onCluster hp) fun _ _ => keeps_pure trivial
  cases t with
  | get key => exact hthen (keeps_of_serving (serving_get key))
  | head key => exact hthen (keeps_of_serving (serving_head key))
  | put key payload mode => exact hthen (keeps_putOpts key payload mode)
  | putWithMeta refs key payload metadata => exact hthen (keeps_putWithMeta refs key payload metadata)
  | putWithMetaFromFile refs key file metaLen => exact hthen (keeps_putWithMetaFromFile refs key file metaLen)
  | delete key => exact hthen (keeps_delete key)
  | copy src dst => exact hthen (keeps_copy src dst)
  | copyIfNotExists src dst => exact hthen (keeps_copyIfNotExists src dst)
  | upload key attributes parts finish =>
    refine keeps_bind (keeps_putMultipartOpts key attributes) fun r _ => ?_
    cases r with
    | error e => exact keeps_pure trivial
    | ok u =>
      dsimp only [finishUpload]
      split
      · exact keeps_bind (keeps_complete _) fun _ _ => keeps_pure trivial
      · exact keeps_frontStep fun _ => rfl
  | purge => exact keeps_bind keeps_purge fun _ _ => keeps_pure trivial
  | recovery d seen fails => exact keeps_onCluster (keeps_recoveryLoop d seen fails)
  | invalidate y => exact hthen (keeps_invalidateShard h)
  | sync d y => exact keeps_onCluster (keeps_syncAndReattach h d)
  | hold y suppress reason => exact keeps_onCluster (keeps_holdOffline suppress reason)
  | release y => exact keeps_onCluster (keeps_changeShard h _)
  | attach y force => exact hthen (keeps_attachShard h force)

/-! ## The hold is honoured -/

omit [Crates] [Chrono] in
/-- No step that the process may still come to, from a state in which the shard is held, ends the hold. -/
def Unconcerned (x : ShardId) (p : FrontM α) : Prop :=
  ∀ q, Amid (Front.Held x) p q → ∀ f l q' f', f.Held x → Proc.Step q f l q' f' → f'.Held x

omit [Crates] [Chrono] in
theorem unconcerned_iff {p : FrontM α} (hheld : ∃ f : Front, f.Held x) :
    Unconcerned x p ↔ Keeps (Front.Held x) p fun _ => True := by
  constructor
  · intro h
    exact (keeps_of_amid hheld h).mono fun _ _ => trivial
  · intro h q hq f l q' f' hf hstep
    exact ((h.amid hq).step hf hstep).1

omit [Crates] [Chrono] in
theorem Sys.Held.lt (h : s.Held x) : x < s.cluster.shards.length := by
  by_contra hge
  have hh := h.health
  rw [Cluster.healthOf, List.getElem?_eq_none (Nat.le_of_not_lt hge)] at hh
  cases hh

omit [Crates] [Chrono] in
/-- The shard itself is given another health. -/
theorem not_held_onShard {f : ShardInfo → ShardInfo} (hs : s.Held x) (hf : ∀ i, i.health = .detached → (f i).health ≠ .detached)
    (hc : s'.cluster = s.cluster.onShard x f) : ¬ s'.Held x := by
  intro h
  have hh := h.health
  rw [hc] at hh
  have hd := hs.health
  unfold Cluster.healthOf at hd
  cases hi : s.cluster.shards[x]? with
  | none => simp [hi] at hd
  | some i =>
    rw [hi] at hd
    simp only [Cluster.healthOf, Cluster.onShard, List.getElem?_modify_eq, hi] at hh
    exact hf i (Option.some.inj hd) (Option.some.inj hh)

omit [Crates] [Chrono] in
/-- A process that begins with such a change. -/
theorem not_keeps_changeShard {g : DateTime → ShardInfo → ShardInfo} {k : Unit → ClusterM α} (hs : s.Held x)
    (hg : ∀ now i, i.health = .detached → (g now i).health ≠ .detached) :
    ¬ Keeps (Sys.Held x) (changeShard x g >>= k) fun _ => True := fun h =>
  not_held_onShard hs (hg s.now) rfl (h.of_bind.exec hs).2

/-- Of the tasks that begin during the hold, the others leave the shard alone, and these do not. -/
theorem task_unconcerned_iff (t : Task) (hheld : ∃ f : Front, f.Held x) : Unconcerned x t.process ↔ t.Spares x := by
  rw [unconcerned_iff hheld]
  refine ⟨fun h => ?_, keeps_process⟩
  obtain ⟨f, hf⟩ := hheld
  have hcluster : ∀ {γ : Type} {p : ClusterM γ}, Keeps (Front.Held x) (onCluster p) (fun _ => True) →
      Keeps (Sys.Held x) p fun _ => True := fun hp => hp.of_within (fun _ _ => rfl) f
  have hcall : ∀ {γ : Type} {p : ClusterM γ}, Keeps (Front.Held x) (do let _ ← onCluster p) (fun _ => True) →
      Keeps (Sys.Held x) p fun _ => True := fun hp => hcluster (hp.of_bind.mono fun _ _ => trivial)
  cases t with
  | invalidate y =>
    intro hyx
    subst hyx
    have hrest := ((hcall h).of_bind.exec hf).1
    have hknown : (!decide (y < f.sys.cluster.shards.length)) = false := by simp [hf.lt]
    simp only [look, exec_step, hknown, Bool.false_eq_true, if_false] at hrest
    exact not_keeps_changeShard hf (fun _ _ _ => by simp) hrest
  | sync d y =>
    intro hyx
    subst hyx
    refine not_keeps_changeShard (g := fun now i => i.setHealth .syncing now) hf (fun now i _ => ?_) (hcluster h)
    simp [ShardInfo.setHealth, ShardHealth.isUnavailable]
  | release y =>
    intro hyx
    subst hyx
    have hrelease := ((hcluster h).exec hf).2
    exact not_held_onShard hf (fun i hi => by simp [hi]) rfl hrelease
  | attach y force =>
    intro hyx
    subst hyx
    have hattach := ((hcall h).of_bind.exec hf).2
    exact not_held_onShard hf (fun i _ => by simp) rfl hattach
  | _ => trivial

omit [Chrono] in
/-- A write under way that has chosen its targets, and not yet asked them. -/
theorem write_unconcerned_iff {f : Front} (hf : f.Held x) {targets : List ShardId} (hnd : targets.Nodup)
    (hlt : ∀ y ∈ targets, y < f.sys.cluster.shards.length) (key : Key) (data : Bytes) :
    Unconcerned x (onCluster (writeToShards key data targets)) ↔ x ∉ targets := by
  rw [unconcerned_iff ⟨f, hf⟩]
  refine ⟨fun h hx => ?_, fun hx => keeps_onCluster (keeps_writeToShards hx key data)⟩
  -- every store fails the write
  let s : Sys := { f.sys with stores := fun st => { f.sys.stores st with outcomes := fun _ => [some (.backend false)] } }
  have hs : s.Held x := ⟨hf.health, hf.store⟩
  have hnobody : ∀ y, s.accepts y = false := fun y => by
    rw [Sys.accepts, Option.isNone_eq_false_iff]
    unfold Sys.answer
    cases s.cluster.storeRef y with
    | none => rfl
    | some st => rfl
  have hw := twoRounds_wrote s key { body := data } every targets
  have htook : targets.filter (fun y => s.accepts y) = [] := List.filter_eq_nil_iff.mpr fun y _ => by simp [hnobody y]
  have hnone : (s.wrote every key { body := data } targets).1 = [] := hw.placed.trans (takers_of_nobody hnobody)
  obtain ⟨errors, hr⟩ := (wroteAs_writeToShards (s := s) (k := key) (p := data) hnd hlt (List.ne_nil_of_mem hx)).nowhere hnone
  have hafter := ((h.of_within (fun _ _ => rfl) f).exec hs).2
  rw [hr] at hafter
  have hhealth := hw.offline htook x
  rw [hafter.health, Cluster.healthOf_offline, hs.health, Option.map_some, if_pos (by simpa using hx)] at hhealth
  cases hhealth

/-- What is left of the task under way leaves the shard alone, and so do the tasks to come. -/
def Sparing (x : ShardId) (p : FrontM Unit) : Prop :=
  ∃ (rest : FrontM Unit) (tasks : List Task), p = (do rest; tasks.forM Task.process) ∧ Unconcerned x rest ∧ ∀ t ∈ tasks, t.Spares x

theorem keeps_tasks {tasks : List Task} (h : ∀ t ∈ tasks, t.Spares x) :
    Keeps (Front.Held x) (tasks.forM Task.process) fun _ => True :=
  keeps_forM fun t ht => keeps_process (h t ht)

omit [Crates] [Chrono] in
theorem held_holdOffline (hx : x < s.cluster.shards.length) (suppress : Bool) (reason : DetachReason) :
    ((holdOffline x suppress reason).exec s).2.Held x := by
  have hi : s.cluster.shards[x]? = some s.cluster.shards[x] := List.getElem?_eq_getElem hx
  constructor
  · simp [holdOffline, changeShard, Cluster.healthOf, Cluster.onShard, Sys.tick, hi, ShardInfo.detach]
  · simp [holdOffline, changeShard, Cluster.storeRef, Cluster.onShard, Sys.tick, hi, ShardInfo.detach]

/-- Whatever else runs: if it is begun later and spares the shard, or has nothing left that concerns it, the
    shard stays held. -/
theorem hold_is_honoured {ι : Type} [DecidableEq ι] {p q : Pool ι Event Front Unit} {h : ι} {suppress : Bool} {reason : DetachReason}
    {later : List Task} {l : Option Event} {r : FrontM Unit} {f : Front} (hx : x < p.state.sys.cluster.shards.length)
    (hhold : p.procs h = (do onCluster (holdOffline x suppress reason); later.forM Task.process)) (hlater : ∀ t ∈ later, t.Spares x)
    (hothers : ∀ i, i ≠ h → Sparing x (p.procs i)) (hstep : Proc.Step (p.procs h) p.state l r f)
    (hruns : Pool.Runs ⟨Function.update p.procs h r, f, p.trace ++ (l.map (h, ·)).toList⟩ q) : q.state.sys.Held x := by
  rw [hhold] at hstep
  have hafter : r = later.forM Task.process ∧ f = p.state.withSys ((holdOffline x suppress reason).exec p.state.sys).2 := by
    cases hstep with
    | act f l k s => exact ⟨rfl, rfl⟩
  obtain ⟨rfl, rfl⟩ := hafter
  have hheld : Front.Held x (p.state.withSys ((holdOffline x suppress reason).exec p.state.sys).2) := held_holdOffline hx suppress reason
  refine (Pool.keeps (P := Front.Held x) (R := fun _ _ => True) hruns hheld fun i => ?_).1
  by_cases hi : i = h
  · subst hi
    simpa using keeps_tasks hlater
  · obtain ⟨rest, tasks, hp, hrest, htasks⟩ := hothers i hi
    simp only [ne_eq, hi, not_false_eq_true, Function.update_of_ne]
    rw [hp]
    exact keeps_bind ((unconcerned_iff ⟨_, hheld⟩).mp hrest) fun _ _ => keeps_tasks htasks

end Writes

section Sample

open Sample Raw.Sample

def oneShard : Front where
  sys := sys 1 (config 1 1) fun _ => fresh
  multipartUploads := []
  nextUploadId := 1
  multipartExpiry := 1
  instants := []
  starts _ := []
  completes _ := []

def afterHold : List Task := [.put "k" [1] .overwrite, .recovery ⟨fun _ => true, none, 1, 10⟩ [⟨fun _ => none, false⟩] [0]]

def holdFirst : Pool Bool Event Front Unit where
  procs second :=
    if second then (do onCluster (holdOffline 0 false .manual); [].forM Task.process) else (do pure (); afterHold.forM Task.process)
  state := oneShard
  trace := []

def heldThen (steps : Nat) : Pool Bool Event Front Unit :=
  Pool.sched (List.replicate steps false) ⟨Function.update holdFirst.procs true (pure ()),
    oneShard.withSys ((holdOffline 0 false .manual).exec oneShard.sys).2, [(true, .other)]⟩

theorem a_shard_that_is_held_stays_held :
    (heldThen 60).state.sys.Held 0 ∧ ((heldThen 60).procs false).result = some () := by
  have hlt : 0 < oneShard.sys.cluster.shards.length := by decide +kernel
  have hheld : ∃ f : Front, f.Held 0 :=
    ⟨oneShard.withSys ((holdOffline 0 false .manual).exec oneShard.sys).2, held_holdOffline hlt false .manual⟩
  have hholds : holdFirst.procs true = (do onCluster (holdOffline 0 false .manual); ([] : List Task).forM Task.process) := rfl
  refine ⟨?_, by decide +kernel⟩
  refine hold_is_honoured hlt hholds (by simp) (fun i hi => ?_)
    (Proc.step_of_advance rfl) (Pool.runs_sched _ _)
  exact ⟨pure (), afterHold, by simp [holdFirst, hi], (unconcerned_iff hheld).mpr (keeps_pure trivial),
    by simp [afterHold, Task.Spares]⟩

def putAndHold (second : Bool) : Task := if second then .hold 0 false .manual else .put "k" [1] .overwrite

def heldMidway : Pool Bool Event Front Unit :=
  Pool.sched (List.replicate 3 false ++ [true] ++ List.replicate 20 false) ⟨fun i => (putAndHold i).process, oneShard, []⟩

/-- The write of the put fails on the placeholder, and the shard that is held is marked Offline. -/
theorem a_write_in_flight_ends_the_hold : ¬ ∀ (f : Front) (tasks : Bool → Task) (x : ShardId) (suppress : Bool)
    (reason : DetachReason) (q : Pool Bool Event Front Unit), x < f.sys.cluster.shards.length → tasks true = .hold x suppress reason →
    (∀ i y, tasks i ≠ .release y ∧ ∀ force, tasks i ≠ .attach y force) → Pool.Runs ⟨fun i => (tasks i).process, f, []⟩ q →
    (q.procs true).result = some () → q.state.sys.Held x := by
  intro h
  have hheld := h oneShard putAndHold 0 false .manual heldMidway (by decide +kernel) rfl (fun i y => by cases i <;> simp [putAndHold])
    (Pool.runs_sched _ _) (by decide +kernel)
  have hoffline : heldMidway.state.sys.cluster.healthOf 0 = some .offline := by decide +kernel
  rw [hheld.health] at hoffline
  cases hoffline

end Sample

end ObjStr.Sharded
