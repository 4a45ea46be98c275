/-
  ObjStr.Sharded.Service — what leaves every shard in its service.

  Reads, deletes, copies and the sweeps change neither the health of a shard nor the store it is attached
  to, whatever the stores answer (`Serving`). What does is the marking after a failed write, and what
  takes shards out and puts them back.
-/

import ObjStr.Sharded.Recovery
import ObjStr.Sharded.Aside

namespace ObjStr.Sharded

open ObjStr.Lib ObjStr.Raw Proc

variable {α β : Type} {s s' s'' : Sys}

/-! ## Steps that leave the service -/

/-- Every shard has the health it had, and the store it was attached to. -/
structure InService (s s' : Sys) : Prop where
  config : s'.cluster.config = s.cluster.config
  length : s'.cluster.shards.length = s.cluster.shards.length
  health : ∀ x, s'.cluster.healthOf x = s.cluster.healthOf x
  refs : ∀ x, s'.cluster.storeRef x = s.cluster.storeRef x

abbrev Serving (p : ClusterM α) : Prop := Only (fun s _ s' => InService s s') p

theorem inService_of_shards (hcfg : s'.cluster.config = s.cluster.config) (hsh : s'.cluster.shards = s.cluster.shards) : InService s s' :=
  ⟨hcfg, by rw [hsh], fun x => by rw [Cluster.healthOf, Cluster.healthOf, hsh],
    fun x => by rw [Cluster.storeRef, Cluster.storeRef, hsh, hcfg]⟩

theorem serving_look (f : Sys → α) : Serving (look f) := only_step fun _ => inService_of_shards rfl rfl

theorem serving_call (r : StoreRef) (kind : Call) (path : Key) (f : Store → Except StoreError α × Store) :
    Serving (r.call kind path f) :=
  only_call fun _ => only_step fun _ => inService_of_shards rfl rfl

theorem serving_catalogPut (k : Key) (shards : List ShardId) (size : Nat) (crc : Option UInt32) (ml : UInt16) :
    Serving (catalogPut k shards size crc ml) := only_step fun _ => inService_of_shards rfl rfl

theorem serving_catalogAddReplica (k : Key) (x : ShardId) (size : Nat) (ml : UInt16) : Serving (catalogAddReplica k x size ml) :=
  only_step fun _ => inService_of_shards rfl rfl

theorem serving_catalogTryInsert (k : Key) (shards : List ShardId) (size : Nat) : Serving (catalogTryInsert k shards size) :=
  only_step fun _ => inService_of_shards rfl rfl

theorem serving_catalogRemove (k : Key) : Serving (catalogRemove k) := only_step fun _ => inService_of_shards rfl rfl

theorem serving_catalogRemoveShard (k : Key) (x : ShardId) : Serving (catalogRemoveShard k x) :=
  only_step fun _ => inService_of_shards rfl rfl

theorem serving_catalogRemoveAllForShard (x : ShardId) : Serving (catalogRemoveAllForShard x) :=
  only_step fun _ => inService_of_shards rfl rfl

theorem only_foldlM {A : Sys → Event → Sys → Prop} {f : β → α → ClusterM β} {l : List α} {b : β} (h : ∀ b x, Only A (f b x)) :
    Only A (l.foldlM f b) := by
  induction l generalizing b with
  | nil => exact only_pure _
  | cons x l ih =>
    rw [List.foldlM_cons]
    exact only_bind (h b x) fun b => ih

/-- Marking a CRC error keeps the shard in service. -/
theorem serving_countError (x : ShardId) : Serving (Proc.step
      (fun s => (decide (x < s.cluster.shards.length),
        { s with cluster := { s.cluster with
          shards := s.cluster.shards.modify x fun i => { i with crcErrorCount := i.crcErrorCount + 1 } } }))
      fun _ => Event.other : ClusterM Bool) := by
  refine only_step fun s => ⟨rfl, by simp, fun y => ?_, fun y => ?_⟩
  · unfold Cluster.healthOf
    dsimp only
    rw [List.getElem?_modify]
    cases s.cluster.shards[y]? with
    | none => rfl
    | some i =>
      by_cases h : x = y
      · simp [h]
      · simp [h]
  · unfold Cluster.storeRef
    dsimp only
    rw [List.getElem?_modify]
    cases s.cluster.shards[y]? with
    | none => rfl
    | some i =>
      by_cases h : x = y
      · simp [h]
      · simp [h]

/-! ## Reads -/

theorem serving_balancedShardOrder (ids : List ShardId) : Serving (balancedShardOrder ids) := by
  unfold balancedShardOrder
  split
  · exact only_pure _
  · exact only_step fun _ => inService_of_shards rfl rfl

theorem serving_scheduleReadRepair (key : Key) (good bad : ShardId) : Serving (scheduleReadRepair key good bad) := by
  refine only_step fun s => ?_
  dsimp only
  split <;> exact inService_of_shards rfl rfl

theorem serving_handleReadError (x : ShardId) (key : Key) (e : StoreError) : Serving (handleReadError x key e) := by
  unfold handleReadError
  split
  · exact only_pure _
  · refine only_bind (serving_countError x) fun known => ?_
    cases known with
    | false => exact only_pure _
    | true => exact only_bind (serving_catalogRemoveShard _ _) fun _ => only_pure _

theorem serving_foundOnShard (store : StoreRef) (x : ShardId) (key : Key) (refs : Option RawRefRegistry) :
    Serving (foundOnShard store x key refs) := by
  have hfinish : ∀ hit : Option Object, Serving (sizesFound store key hit) := fun hit => by
    cases hit with
    | some o => exact only_pure _
    | none => exact only_bind (serving_call _ _ _ _) fun _ => only_pure _
  unfold foundOnShard
  dsimp only
  cases refs.bind (·.get x) with
  | none => exact hfinish none
  | some raw => exact only_bind (serving_call _ _ _ _) fun _ => hfinish _

section Reads

variable [Crates]

theorem serving_resolveShards (key : Key) : Serving (resolveShards key) := by
  refine only_bind (serving_look _) fun entry => only_bind (serving_look _) fun raw => only_bind (serving_look _) fun pref => ?_
  cases pref with
  | ordered => exact only_pure _
  | roundRobin => exact only_bind (serving_balancedShardOrder _) fun _ => only_pure _

theorem serving_readOrder (key : Key) : Serving (readOrder key) :=
  only_bind (serving_resolveShards key) fun _ => only_bind (serving_look _) fun _ => only_pure _

theorem serving_get (key : Key) : Serving (get key) := by
  unfold get
  split
  · exact only_pure _
  refine only_bind (serving_readOrder key) fun order => only_bind (serving_look _) fun refs => ?_
  obtain ⟨stores, isFallback⟩ := order
  dsimp only
  generalize (if isFallback then refs else none) = refs
  generalize ([] : List ShardId) = corrupted
  generalize (none : Option StoreError) = last
  induction stores generalizing corrupted last with
  | nil => exact only_pure _
  | cons x l ih =>
    unfold readReplicas
    refine only_bind (serving_call _ _ _ _) fun r => ?_
    cases r with
    | error e => exact only_bind (serving_handleReadError _ _ _) fun _ => ih _ _
    | ok o =>
      have hrest : Serving (do
          corrupted.forM fun bad => scheduleReadRepair key x.1 bad
          pure (.ok o) : ClusterM (Except Error Object)) :=
        only_bind (only_forM fun _ => serving_scheduleReadRepair _ _ _) fun _ => only_pure _
      dsimp only
      split
      · exact only_bind (serving_foundOnShard _ _ _ _) fun _ => only_bind (serving_catalogAddReplica _ _ _ _) fun _ => hrest
      · exact hrest

theorem serving_head (key : Key) : Serving (head key) := by
  unfold head
  split
  · exact only_pure _
  refine only_bind (serving_readOrder key) fun order => only_bind (serving_look _) fun refs => ?_
  obtain ⟨stores, isFallback⟩ := order
  dsimp only
  generalize (if isFallback then refs else none) = refs
  generalize (none : Option StoreError) = last
  induction stores generalizing last with
  | nil => exact only_pure _
  | cons x l ih =>
    unfold headReplicas
    refine only_bind (serving_call _ _ _ _) fun r => ?_
    cases r with
    | error e => exact ih _
    | ok o =>
      have hfinish : ∀ ml : UInt16, Serving (do
          catalogAddReplica key x.1 o.body.length ml
          pure (.ok o) : ClusterM (Except Error Object)) := fun ml =>
        only_bind (serving_catalogAddReplica _ _ _ _) fun _ => only_pure _
      dsimp only
      split
      · cases refs.bind (·.get x.1) with
        | none => exact hfinish 0
        | some raw => exact only_bind (serving_call _ _ _ _) fun _ => hfinish _
      · exact only_pure _

omit [Crates] in
theorem serving_rawReplicas {read : StoreRef → ClusterM (Except StoreError α)} {found : ShardId → StoreRef → α → ClusterM Unit}
    (hread : ∀ r, Serving (read r)) (hfound : ∀ x r a, Serving (found x r a)) (key : Key) (stores : List (ShardId × StoreRef))
    (last : Option StoreError) : Serving (rawReplicas read found key stores last) := by
  induction stores generalizing last with
  | nil => exact only_pure _
  | cons x l ih =>
    unfold rawReplicas
    refine only_bind (hread _) fun r => ?_
    cases r with
    | error e => exact ih _
    | ok a => exact only_bind (hfound _ _ _) fun _ => only_pure _

theorem serving_getRaw (key : Key) : Serving (getRaw key) := by
  refine only_bind (serving_readOrder key) fun order => serving_rawReplicas (fun _ => serving_call _ _ _ _) (fun _ _ _ => ?_) _ _ _
  split
  · exact only_bind (serving_call _ _ _ _) fun _ => serving_catalogAddReplica _ _ _ _
  · exact only_pure _

theorem serving_getDeleteMarker [Chrono] (key : Key) : Serving (getDeleteMarker key) :=
  only_bind (serving_getRaw _) fun _ => only_pure _

theorem serving_listDeleteMarkers [Chrono] : Serving listDeleteMarkers := by
  refine only_bind (serving_look _) fun keys => only_bind (only_joinAll fun p hp => ?_) fun _ => only_pure _
  obtain ⟨key, -, rfl⟩ := List.mem_map.mp hp
  exact serving_getDeleteMarker key

omit [Crates] in
theorem serving_metadataFrom (refs : RawRefRegistry) (key : Key) (ids : List ShardId) : Serving (metadataFrom refs key ids) := by
  induction ids with
  | nil => exact only_pure _
  | cons x ids ih =>
    unfold metadataFrom
    cases refs.get x with
    | some raw =>
      refine only_bind (serving_call _ _ _ _) fun r => ?_
      cases r with
      | ok o => exact only_pure _
      | error e => exact ih
    | none =>
      refine only_bind (serving_look _) fun store => ?_
      cases store with
      | none => exact ih
      | some store =>
        dsimp only
        cases refs.kind x with
        | raw => exact only_pure _
        | s3Like =>
          refine only_bind (serving_call _ _ _ _) fun r => ?_
          cases r with
          | ok o => exact only_pure _
          | error e => exact ih
        | sidecar =>
          refine only_bind (serving_call _ _ _ _) fun r => ?_
          cases r with
          | ok o => exact only_pure _
          | error e => exact ih

theorem serving_getMetadata (refs : RawRefRegistry) (key : Key) : Serving (getMetadata refs key) := by
  unfold getMetadata
  split
  · exact only_pure _
  · exact only_bind (serving_resolveShards key) fun _ => serving_metadataFrom _ _ _

theorem serving_readObjectMetadata (key : Key) (attributes : FMap String) : Serving (readObjectMetadata key attributes) := by
  refine only_bind (serving_look _) fun refs => ?_
  cases refs with
  | none => exact only_pure _
  | some refs =>
    refine only_bind (serving_look _) fun entry => ?_
    split
    · exact only_pure _
    · refine only_bind (serving_getMetadata _ _) fun r => ?_
      cases r with
      | ok b => exact only_pure _
      | error e => exact only_pure _

end Reads

/-! ## Copies and deletes -/

theorem serving_readMetadataFromShard (store : StoreRef) (x : ShardId) (key : Key) (attributes : FMap String)
    (refs : RawRefRegistry) : Serving (readMetadataFromShard store x key attributes refs) := by
  unfold readMetadataFromShard
  cases refs.kind x with
  | raw =>
    cases refs.get x with
    | none => exact only_pure _
    | some raw => exact only_bind (serving_call _ _ _ _) fun _ => only_pure _
  | s3Like => exact only_pure _
  | sidecar => exact only_bind (serving_call _ _ _ _) fun _ => only_pure _

theorem serving_writeWithMetaToShard (refs : RawRefRegistry) (x : ShardId) (store : StoreRef) (key : Key)
    (data metadata : Bytes) : Serving (writeWithMetaToShard refs x store key data metadata) := by
  unfold writeWithMetaToShard
  split
  · exact serving_call _ _ _ _
  · cases refs.kind x with
    | raw =>
      cases refs.get x with
      | none => exact serving_call _ _ _ _
      | some raw => exact serving_call _ _ _ _
    | s3Like => exact serving_call _ _ _ _
    | sidecar =>
      refine only_bind (serving_call _ _ _ _) fun r => ?_
      cases r with
      | error e => exact only_pure _
      | ok _ => exact serving_call _ _ _ _

theorem serving_replicateObject (key : Key) (src dst : ShardId) (refs : Option RawRefRegistry) :
    Serving (replicateObject key src dst refs) := by
  unfold replicateObject
  refine only_bind (serving_look _) fun stores => ?_
  cases stores with
  | none => exact only_pure _
  | some stores =>
    refine only_bind (serving_call _ _ _ _) fun r => ?_
    cases r with
    | error e => exact only_pure _
    | ok o =>
      have hwrite : ∀ (m : Option Bytes) (w : ClusterM (Except StoreError Unit)), Serving w →
          Serving (w >>= listCopy key dst o.body.length (UInt16.ofNat (m.getD []).length)) := fun m w hw => by
        refine only_bind hw fun r => ?_
        cases r with
        | error e => exact only_pure _
        | ok _ => exact only_bind (serving_catalogAddReplica _ _ _ _) fun _ => only_pure _
      cases refs with
      | none => exact hwrite none _ (serving_call _ _ _ _)
      | some refs =>
        refine only_bind (serving_readMetadataFromShard _ _ _ _ _) fun m => ?_
        cases m with
        | none => exact hwrite none _ (serving_call _ _ _ _)
        | some m => exact hwrite (some m) _ (serving_writeWithMetaToShard _ _ _ _ _ _)

theorem serving_cleanupSidecar (store : StoreRef) (key : Key) (kind : ShardKind) : Serving (cleanupSidecar store key kind) := by
  unfold cleanupSidecar
  split
  · exact only_bind (serving_call _ _ _ _) fun _ => only_pure _
  · exact only_pure _

theorem serving_removeReplica (key : Key) (x : ShardId) : Serving (removeReplica key x) := by
  refine only_bind (serving_look _) fun store => ?_
  cases store with
  | none => exact only_pure _
  | some store =>
    refine only_bind (serving_look _) fun refs => only_bind (serving_cleanupSidecar _ _ _) fun _ =>
      only_bind (serving_call _ _ _ _) fun r => ?_
    cases r with
    | error e => exact only_pure _
    | ok _ => exact only_bind (serving_catalogRemoveShard _ _) fun _ => only_pure _

theorem serving_overReplicationTrim (batchSize : Nat) : Serving (overReplicationTrim batchSize) := by
  refine only_bind (serving_look _) fun keys => only_foldlM fun n key => ?_
  have hpick : Serving (pickExcessShard key.1) := by
    refine only_bind (serving_look _) fun entry => ?_
    cases entry with
    | none => exact only_pure _
    | some e => exact serving_look _
  refine only_bind hpick fun shard => ?_
  cases shard with
  | none => exact only_pure _
  | some x =>
    refine only_bind (serving_removeReplica _ _) fun r => ?_
    cases r with
    | error e => exact only_pure _
    | ok _ => exact only_pure _

theorem serving_deleteRaw (key : Key) : Serving (deleteRaw key) := by
  refine only_bind (serving_look _) fun entry => only_bind (serving_look _) fun stores => only_bind (serving_look _) fun refs =>
    only_bind (only_joinAll fun p hp => ?_) fun outcomes => ?_
  · obtain ⟨x, -, rfl⟩ := List.mem_map.mp hp
    exact only_bind (serving_cleanupSidecar _ _ _) fun _ => only_bind (serving_call _ _ _ _) fun _ => only_pure _
  dsimp only
  split
  · exact only_bind (serving_catalogRemove _) fun _ => only_pure _
  · refine only_bind (serving_look _) fun config => only_bind (only_forM fun _ => serving_catalogRemoveShard _ _) fun _ => ?_
    split <;> exact only_pure _

theorem serving_cleanupOrphanedWrites (key : Key) (placed : List ShardId) : Serving (cleanupOrphanedWrites key placed) := by
  refine only_bind (serving_look _) fun entry => ?_
  split
  · exact only_pure _
  refine only_bind (serving_look _) fun refs => only_bind (serving_look _) fun stores =>
    only_bind (only_joinAll fun p hp => ?_) fun _ => only_pure _
  obtain ⟨x, -, rfl⟩ := List.mem_map.mp hp
  exact only_bind (serving_call _ _ _ _) fun _ => only_bind (serving_cleanupSidecar _ _ _) fun _ => only_pure _

theorem serving_requireWrites (key : Key) (placed : List ShardId) (errors : List WriteFailure) (required : Nat) (cleanup : Bool) :
    Serving (requireWrites key placed errors required cleanup) := by
  unfold requireWrites
  split
  · cases cleanup with
    | false => exact only_pure _
    | true => exact only_bind (serving_cleanupOrphanedWrites _ _) fun _ => only_pure _
  · exact only_pure _

section Writes

variable [Crates]

theorem serving_recordPut (key : Key) (payload : Bytes) (placed : List ShardId) : Serving (recordPut key payload placed) :=
  only_bind (serving_catalogPut _ _ _ _ _) fun _ => only_bind (serving_deleteRaw _) fun _ => only_pure _

omit [Crates] in
theorem serving_dropPlaceholder (key : Key) : Serving (dropPlaceholder key) := by
  refine only_bind (serving_look _) fun entry => ?_
  cases entry with
  | none => exact only_pure _
  | some e =>
    dsimp only
    split
    · exact only_bind (serving_catalogRemove _) fun _ => only_pure _
    · exact only_pure _

omit [Crates] in
theorem serving_tryPutShard (refs : RawRefRegistry) (x : ShardId) (key : Key) (payload metadata : Bytes) :
    Serving (tryPutShard refs x key payload metadata) := by
  unfold tryPutShard
  cases refs.kind x with
  | raw =>
    cases refs.get x with
    | none => exact only_pure _
    | some raw => exact serving_call _ _ _ _
  | s3Like =>
    refine only_bind (serving_look _) fun store => ?_
    cases store with
    | none => exact only_pure _
    | some store => exact serving_call _ _ _ _
  | sidecar =>
    refine only_bind (serving_look _) fun store => ?_
    cases store with
    | none => exact only_pure _
    | some store =>
      refine only_bind (serving_call _ _ _ _) fun r => ?_
      cases r with
      | error e => exact only_pure _
      | ok _ =>
        dsimp only
        split
        · exact only_pure _
        · exact serving_call _ _ _ _

omit [Crates] in
theorem serving_finishWithMeta (key : Key) (placed : List ShardId) (tried : Outcomes) (size : Nat) (crc : UInt32) (ml : UInt16) :
    Serving (finishWithMeta key placed tried size crc ml) := by
  unfold finishWithMeta
  split
  · exact only_pure _
  refine only_bind (serving_look _) fun required => ?_
  split
  · exact only_bind (serving_cleanupOrphanedWrites _ _) fun _ => only_pure _
  · exact only_bind (serving_catalogPut _ _ _ _ _) fun _ => only_pure _

end Writes

/-! ## Syncs and sweeps -/

theorem serving_scanShard (refs : Option RawRefRegistry) (x : ShardId) (store : StoreRef) : Serving (scanShard refs x store) := by
  unfold scanShard
  cases refs.bind (·.get x) with
  | none => exact only_bind (serving_call _ _ _ _) fun _ => only_pure _
  | some raw => exact serving_look _

theorem serving_rebuildCatalogForShard (x : ShardId) : Serving (rebuildCatalogForShard x) := by
  refine only_bind (serving_look _) fun store => ?_
  cases store with
  | none => exact only_pure _
  | some store =>
    refine only_bind (serving_catalogRemoveAllForShard _) fun _ => only_bind (serving_look _) fun refs =>
      only_bind (serving_scanShard _ _ _) fun r => ?_
    cases r with
    | error e => exact only_pure _
    | ok items => exact only_bind (only_forM fun _ => serving_catalogAddReplica _ _ _ _) fun _ => only_pure _

theorem serving_firstHealthy (ids : List ShardId) : Serving (firstHealthy ids) := by
  induction ids with
  | nil => exact only_pure _
  | cons x ids ih =>
    refine only_bind (serving_look _) fun h => ?_
    split
    · exact only_pure _
    · exact ih

section Sync

variable [Crates]

theorem serving_writeCopy (refs : Option RawRefRegistry) (x : ShardId) (store : StoreRef) (key : Key) (data : Bytes) :
    Serving (writeCopy refs x store key data) := by
  cases refs with
  | none => exact serving_call _ _ _ _
  | some refs =>
    refine only_bind (only_bind (serving_look _) fun entry => ?_) fun _ => serving_writeWithMetaToShard _ _ _ _ _ _
    split
    · exact only_pure _
    · exact only_bind (serving_getMetadata _ _) fun _ => only_pure _

theorem serving_mirrorCopies (refs : Option RawRefRegistry) (x : ShardId) (source store : StoreRef)
    (targetObjects sourceObjects : List (Key × Object)) (stats : MirrorSyncReport) :
    Serving (mirrorCopies refs x source store targetObjects sourceObjects stats) := by
  induction sourceObjects generalizing stats with
  | nil => exact only_pure _
  | cons item rest ih =>
    obtain ⟨key, o⟩ := item
    unfold mirrorCopies
    dsimp only
    split
    · refine only_bind (serving_call _ _ _ _) fun r => ?_
      cases r with
      | error e => exact only_pure _
      | ok data =>
        refine only_bind (serving_writeCopy _ _ _ _ _) fun r => ?_
        cases r with
        | error e => exact only_pure _
        | ok _ => exact ih _
    · exact ih _

omit [Crates] in
theorem serving_mirrorDeletes (store : StoreRef) (keys : List Key) (objects : List (Key × Object)) (stats : MirrorSyncReport) :
    Serving (mirrorDeletes store keys objects stats) := by
  induction objects generalizing stats with
  | nil => exact only_pure _
  | cons item rest ih =>
    obtain ⟨key, o⟩ := item
    unfold mirrorDeletes
    split
    · exact ih _
    · refine only_bind (serving_call _ _ _ _) fun r => ?_
      cases r with
      | error e => exact only_pure _
      | ok _ => exact ih _

theorem serving_mirrorSync (original : StoreRef) (x : ShardId) (given : Option RawRefRegistry) :
    Serving (mirrorSync original x given) := by
  refine only_bind (serving_look _) fun own => only_bind (serving_look _) fun ids => only_bind (serving_firstHealthy _) fun source => ?_
  cases source with
  | none => exact only_pure _
  | some sourceShard =>
    refine only_bind (serving_look _) fun store => ?_
    cases store with
    | none => exact only_pure _
    | some source =>
      dsimp only
      split
      · exact only_pure _
      refine only_bind (serving_call _ _ _ _) fun r => ?_
      cases r with
      | error e => exact only_pure _
      | ok sourceObjects =>
        refine only_bind (serving_call _ _ _ _) fun r => ?_
        cases r with
        | error e => exact only_pure _
        | ok targetObjects =>
          refine only_bind (serving_mirrorCopies _ _ _ _ _ _ _) fun r => ?_
          cases r with
          | error e => exact only_pure _
          | ok stats => exact only_bind (serving_mirrorDeletes _ _ _ _) fun _ => only_pure _

omit [Crates] in
/-- A delete whose outcome does not matter. -/
theorem serving_deleteAnyway (r : StoreRef) (key : Key) : Serving (do
    let _ ← r.delete key
    pure () : ClusterM Unit) := only_bind (serving_call _ _ _ _) fun _ => only_pure _

theorem serving_syncKey (refs : Option RawRefRegistry) (x : ShardId) (original : StoreRef) (key : Key) :
    Serving (syncKey refs x original key) := by
  refine only_bind (serving_look _) fun entry => ?_
  cases entry with
  | none => exact only_pure _
  | some e =>
    refine only_bind (serving_firstHealthy _) fun source => ?_
    cases source with
    | none => exact only_pure _
    | some sourceShard =>
      refine only_bind (serving_look _) fun store => ?_
      cases store with
      | none => exact only_pure _
      | some source =>
        refine only_bind (serving_call _ _ _ _) fun r => ?_
        cases r with
        | error e => exact only_pure _
        | ok o => exact only_bind (serving_writeCopy _ _ _ _ _) fun _ => only_pure _

omit [Crates] in
theorem serving_replayMarker (original : StoreRef) (marker : Key × DateTime) : Serving (replayMarker original marker) := by
  refine only_bind (serving_call _ _ _ _) fun r => ?_
  cases r with
  | error e => exact only_pure _
  | ok o =>
    dsimp only
    split
    · exact serving_deleteAnyway _ _
    · exact only_pure _

theorem serving_refreshObject (refs : Option RawRefRegistry) (x : ShardId) (original : StoreRef) (item : Key × Object) :
    Serving (refreshObject refs x original item) := by
  unfold refreshObject
  split
  · exact only_pure _
  refine only_bind (serving_look _) fun entry => ?_
  cases entry with
  | none => exact serving_deleteAnyway _ _
  | some e =>
    dsimp only
    split
    · refine only_bind (serving_firstHealthy _) fun source => ?_
      cases source with
      | none => exact serving_deleteAnyway _ _
      | some sourceShard =>
        refine only_bind (serving_look _) fun store => ?_
        cases store with
        | none => exact only_pure _
        | some source =>
          refine only_bind (serving_call _ _ _ _) fun r => ?_
          cases r with
          | error e => exact serving_deleteAnyway _ _
          | ok o => exact only_bind (serving_writeCopy _ _ _ _ _) fun _ => only_pure _
    · exact only_pure _

theorem serving_refreshMarker [Chrono] (original : StoreRef) (item : Key × Object) : Serving (refreshMarker original item) := by
  unfold refreshMarker
  cases markedKey item.1 with
  | none => exact only_pure _
  | some key =>
    refine only_bind (serving_call _ _ _ _) fun found => ?_
    split
    · exact only_pure _
    refine only_bind (serving_getDeleteMarker _) fun marker => ?_
    cases marker with
    | none => exact serving_deleteAnyway original item.1
    | some t =>
      generalize Path.fromStr key = path
      dsimp only
      refine only_bind (serving_head path) fun r => ?_
      cases r with
      | error e => exact only_pure _
      | ok live =>
        dsimp only
        split
        · exact serving_deleteAnyway _ _
        · exact only_pure _

theorem serving_partitionedSync [Chrono] (original : StoreRef) (x : ShardId) (given : Option RawRefRegistry) :
    Serving (partitionedSync original x given) := by
  refine only_bind (serving_look _) fun own => ?_
  split
  · exact only_pure _
  refine only_bind (serving_look _) fun under => only_bind (only_foldlM fun n k => ?_) fun replicated => ?_
  · exact only_bind (serving_syncKey _ _ _ _) fun _ => only_pure _
  refine only_bind serving_listDeleteMarkers fun markers => only_bind (only_forM fun m => serving_replayMarker _ _) fun _ =>
    only_bind (serving_call _ _ _ _) fun listed => only_bind (only_forM fun m => serving_refreshObject _ _ _ _) fun _ =>
    only_bind (only_forM fun m => serving_refreshMarker _ _) fun _ => only_pure _

end Sync

theorem serving_anyEligible (ids : List ShardId) : Serving (anyEligible ids) := by
  induction ids with
  | nil => exact only_pure _
  | cons x ids ih =>
    refine only_bind (serving_look _) fun suppressed => ?_
    split
    · exact ih
    refine only_bind (serving_look _) fun h => ?_
    split
    · exact only_pure _
    · exact ih

theorem serving_reReplicateUnder (batchSize : Nat) (refs : Option RawRefRegistry) : Serving (reReplicateUnder batchSize refs) := by
  refine only_bind (serving_look _) fun under => only_foldlM fun n k => only_bind ?_ fun _ => only_pure _
  refine only_bind (serving_look _) fun entry => ?_
  cases entry with
  | none => exact only_pure _
  | some e =>
    refine only_bind (serving_firstHealthy _) fun source => ?_
    cases source with
    | none => exact only_pure _
    | some source =>
      refine only_bind (only_bind (serving_look _) fun _ => serving_look _) fun target => ?_
      cases target with
      | none => exact only_pure _
      | some target => exact only_bind (serving_replicateObject _ _ _ _) fun _ => only_pure _

theorem serving_reReplicationSweep (batchSize : Nat) (refs : Option RawRefRegistry) : Serving (reReplicationSweep batchSize refs) := by
  refine only_bind (serving_look _) fun ids => only_bind (serving_anyEligible _) fun any => ?_
  split
  · exact serving_reReplicateUnder _ _
  · exact only_pure _

end ObjStr.Sharded
