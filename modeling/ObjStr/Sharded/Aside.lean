/-
  ObjStr.Sharded.Aside — steps that do not concern a key: they change neither what the stores hold
  under it nor its entry, whatever state they find. So are the steps of all that is done for other
  keys (a marker, a sidecar, a source that is read), next to a write of the key itself.

  `Unmarked` steps moreover leave the health of the shards and the outcomes of the next writes.
-/

import ObjStr.Sharded.Looks

namespace ObjStr.Sharded

open ObjStr.Lib ObjStr.Raw Proc

variable {α : Type} {k : Key}

/-! ## Events about a key -/

def Event.About (k : Key) : Event → Prop
  | .call _ kind key _ => key = k ∧ (kind = .put ∨ kind = .delete)
  | .recorded key _ | .inserted key _ | .replicaAdded key _ | .removed key _ | .shardRemoved key _ => key = k
  | .shardPurged _ | .replaced => True
  | .other => False

/-- A step that does not concern `k`. -/
structure Aside (k : Key) (s : Sys) (e : Event) (s' : Sys) : Prop where
  objects : ∀ st, (s'.stores st).objects.lookup k = (s.stores st).objects.lookup k
  entry : s'.cluster.catalog.get k = s.cluster.catalog.get k
  config : s'.cluster.config = s.cluster.config
  label : ¬ e.About k

/-- A step that marks no shard and makes no write. -/
structure Unmarked (s s' : Sys) : Prop where
  config : s'.cluster.config = s.cluster.config
  shards : s'.cluster.shards = s.cluster.shards
  puts : ∀ st, (s'.stores st).outcomes .put = (s.stores st).outcomes .put

theorem Unmarked.refl (s : Sys) : Unmarked s s := ⟨rfl, rfl, fun _ => rfl⟩

/-- Both. -/
def Apart (k : Key) (s : Sys) (e : Event) (s' : Sys) : Prop := Aside k s e s' ∧ Unmarked s s'

theorem Aside.refl (s : Sys) : Aside k s .other s := ⟨fun _ => rfl, rfl, rfl, fun h => h⟩

/-! ## Single steps -/

theorem apart_look (f : Sys → α) : Only (Apart k) (look f) := only_step fun s => ⟨.refl s, .refl s⟩

/-- A store call of another key. -/
theorem aside_onStore {id : StoreId} {kind : Call} {key : Key} {f : Store → Except StoreError α × Store}
    (hf : ∀ st, (f st).2.objects.lookup k = st.objects.lookup k) (hkey : key = k → kind ≠ .put ∧ kind ≠ .delete) :
    Only (Aside k) (onStore id kind key f) := by
  refine only_step fun s => ⟨fun st => ?_, rfl, rfl, fun h => ?_⟩
  · by_cases hst : st = id
    · subst hst
      simp only [Function.update_self]
      exact hf _
    · simp only [Function.update_of_ne hst]
  · rcases h.2 with h1 | h1
    · exact (hkey h.1).1 h1
    · exact (hkey h.1).2 h1

/-- A store call that is no write. -/
theorem unmarked_onStore {id : StoreId} {kind : Call} {key : Key} {f : Store → Except StoreError α × Store}
    (hf : ∀ st, (f st).2.outcomes .put = st.outcomes .put) : Only (fun s _ s' => Unmarked s s') (onStore id kind key f) := by
  refine only_step fun s => ⟨rfl, rfl, fun st => ?_⟩
  by_cases hst : st = id
  · subst hst
    simp only [Function.update_self]
    exact hf _
  · simp only [Function.update_of_ne hst]

/-- A call of a store reference; the placeholder makes none. -/
theorem only_call {A : Sys → Event → Sys → Prop} {r : StoreRef} {kind : Call} {key : Key}
    {f : Store → Except StoreError α × Store} (h : ∀ id, Only A (onStore id kind key f)) : Only A (r.call kind key f) := by
  cases r with
  | none => exact only_pure _
  | some id => exact h id

theorem apart_refGet (r : StoreRef) (key : Key) : Only (Apart k) (r.get key) := by
  refine only_call fun id => only_and (aside_onStore (fun st => ?_) (by simp)) (unmarked_onStore fun st => ?_)
  · rw [st.get_next]
    rfl
  · rw [st.get_next]
    simp [Store.next]

theorem apart_refHead (r : StoreRef) (key : Key) : Only (Apart k) (r.head key) := by
  refine only_call fun id => only_and (aside_onStore (fun st => ?_) (by simp)) (unmarked_onStore fun st => ?_)
  · rw [st.head_next]
    rfl
  · rw [st.head_next]
    simp [Store.next]

theorem Store.lookup_delete_ne (st : Store) {key : Key} (h : k ≠ key) :
    (st.delete key).2.objects.lookup k = st.objects.lookup k := by
  rw [st.lookup_delete, if_neg fun hboth => h hboth.1]

theorem unmarked_refDelete (r : StoreRef) (key : Key) : Only (fun s _ s' => Unmarked s s') (r.delete key) :=
  only_call fun _ => unmarked_onStore fun st => by simp [st.outcomes_delete]

theorem apart_refDelete (r : StoreRef) {key : Key} (h : key ≠ k) : Only (Apart k) (r.delete key) :=
  only_and (only_call fun _ => aside_onStore (fun st => st.lookup_delete_ne h.symm) fun hk => absurd hk h)
    (unmarked_refDelete r key)

theorem aside_refPut (r : StoreRef) {key : Key} (h : key ≠ k) (up : Upload) : Only (Aside k) (r.put key up) :=
  only_call fun _ => aside_onStore (fun st => st.lookup_put_ne key up h.symm) fun hk => absurd hk h

theorem aside_setShardHealth (x : ShardId) (h : ShardHealth) : Only (Aside k) (setShardHealth x h) :=
  only_step fun _ => ⟨fun _ => rfl, rfl, rfl, fun h => h⟩

/-- A method of the catalog on another entry. -/
theorem apart_withCatalog {f : Sys → α × Sys} {l : α → Event} (hl : ∀ a, ¬ (l a).About k)
    (hf : ∀ s, ∃ clock c, (f s).2 = { s with clock, cluster := { s.cluster with catalog := c } } ∧
      c.get k = s.cluster.catalog.get k) : Only (Apart k) (Proc.step f l) := by
  refine only_step fun s => ?_
  obtain ⟨clock, c, h1, h2⟩ := hf s
  rw [h1]
  exact ⟨⟨fun _ => rfl, h2, rfl, hl _⟩, ⟨rfl, rfl, fun _ => rfl⟩⟩

theorem apart_catalogAddReplica {key : Key} (h : key ≠ k) (x : ShardId) (size : Nat) (ml : UInt16) :
    Only (Apart k) (catalogAddReplica key x size ml) :=
  apart_withCatalog (fun _ => h) fun s => ⟨_, _, rfl, by rw [Catalog.get_addReplica, if_neg h.symm]⟩

theorem apart_catalogRemove {key : Key} (h : key ≠ k) : Only (Apart k) (catalogRemove key) :=
  apart_withCatalog (fun _ => h) fun s => ⟨s.clock, _, rfl, by rw [Catalog.get_remove, if_neg h.symm]⟩

theorem apart_catalogRemoveShard {key : Key} (h : key ≠ k) (x : ShardId) : Only (Apart k) (catalogRemoveShard key x) :=
  apart_withCatalog (fun _ => h) fun s => ⟨s.clock, _, rfl, Catalog.get_removeShard_ne _ _ _ _ h.symm⟩

/-- A look, and what the invariant says about what it sees. -/
theorem safe_look {ι : Type} {i : ι} {tr : List (ι × Event)} {I : Sys → List (ι × Event) → Prop} {K : Event → Prop} {f : Sys → α} {Q : α → Prop}
    (hI : ∀ s t, I s t → I s (t ++ [(i, .other)])) (hQ : ∀ s t, I s t → Q (f s)) :
    Safe K I i (look f) (fun a _ => Q a) tr :=
  safe_step fun s t _ h => ⟨hI s t h, fun _ _ => hQ s t h⟩

/-! ## Deletes of other keys -/

theorem apart_cleanupSidecar (store : StoreRef) {location : Key} (kind : ShardKind) (h : metaSidecarPath location ≠ k) :
    Only (Apart k) (cleanupSidecar store location kind) := by
  unfold cleanupSidecar
  split
  · exact only_bind (apart_refDelete store h) fun _ => only_pure _
  · exact only_pure _

theorem apart_deleteRaw {location : Key} (h : location ≠ k) (hm : metaSidecarPath location ≠ k) :
    Only (Apart k) (deleteRaw location) := by
  unfold deleteRaw
  refine only_bind (apart_look _) fun entry => only_bind (apart_look _) fun stores => only_bind (apart_look _) fun refs => ?_
  refine only_bind (only_joinAll fun p hp => ?_) fun os => ?_
  · obtain ⟨st, -, rfl⟩ := List.mem_map.mp hp
    exact only_bind (apart_cleanupSidecar _ _ hm) fun _ => only_bind (apart_refDelete _ h) fun _ => only_pure _
  · dsimp only
    split
    · exact only_bind (apart_catalogRemove h) fun _ => only_pure _
    · refine only_bind (apart_look _) fun cfg => only_bind (only_forM fun x => apart_catalogRemoveShard h x) fun _ => ?_
      split
      · exact only_pure _
      · exact only_pure _

/-- The marker of a key and the marker's sidecar are other keys. -/
theorem apart_removeDeleteMarker (k : Key) : Only (Apart k) (removeDeleteMarker k) :=
  apart_deleteRaw (marker_ne k) (marker_sidecar_ne k)

structure Deletes (s : Sys) (e : Event) (s' : Sys) : Prop where
  cluster : s'.cluster = s.cluster
  puts : ∀ st, (s'.stores st).outcomes .put = (s.stores st).outcomes .put
  label : e = .other ∨ ∃ st key f, e = .call st .delete key f

theorem deletes_look (f : Sys → α) : Only Deletes (look f) := only_step fun _ => ⟨rfl, fun _ => rfl, .inl rfl⟩

theorem deletes_refDelete (r : StoreRef) (key : Key) : Only Deletes (r.delete key) := by
  refine only_call fun id => only_step fun s => ⟨rfl, fun st => ?_, .inr ⟨id, key, _, rfl⟩⟩
  by_cases hst : st = id
  · subst hst
    simp [Store.outcomes_delete]
  · simp only [Function.update_of_ne hst]

theorem deletes_cleanupSidecar (store : StoreRef) (location : Key) (kind : ShardKind) :
    Only Deletes (cleanupSidecar store location kind) := by
  unfold cleanupSidecar
  split
  · exact only_bind (deletes_refDelete store _) fun _ => only_pure _
  · exact only_pure _

theorem deletes_cleanupOrphanedWrites (location : Key) (placed : List ShardId) :
    Only Deletes (cleanupOrphanedWrites location placed) := by
  unfold cleanupOrphanedWrites
  refine only_bind (deletes_look _) fun entry => ?_
  split
  · exact only_pure _
  · refine only_bind (deletes_look _) fun refs => only_bind (deletes_look _) fun stores => ?_
    refine only_bind (only_joinAll fun p hp => ?_) fun _ => only_pure _
    obtain ⟨st, -, rfl⟩ := List.mem_map.mp hp
    exact only_bind (deletes_refDelete _ _) fun _ => only_bind (deletes_cleanupSidecar _ _ _) fun _ => only_pure _

/-! ## Reading another key -/

theorem aside_look (f : Sys → α) : Only (Aside k) (look f) := (apart_look f).mono fun _ _ _ h => h.1

theorem aside_refGet (r : StoreRef) (key : Key) : Only (Aside k) (r.get key) := (apart_refGet r key).mono fun _ _ _ h => h.1

theorem aside_refHead (r : StoreRef) (key : Key) : Only (Aside k) (r.head key) := (apart_refHead r key).mono fun _ _ _ h => h.1

variable {src : Key}

theorem aside_handleReadError (h : src ≠ k) (x : ShardId) (e : StoreError) : Only (Aside k) (handleReadError x src e) := by
  unfold handleReadError
  split
  · exact only_pure _
  · refine only_bind (only_step fun _ => ⟨fun _ => rfl, rfl, rfl, fun h => h⟩) fun known => ?_
    split
    · exact only_bind ((apart_catalogRemoveShard h x).mono fun _ _ _ h => h.1) fun _ => only_pure _
    · exact only_pure _

theorem aside_scheduleReadRepair (key : Key) (good bad : ShardId) : Only (Aside k) (scheduleReadRepair key good bad) := by
  refine only_step fun s => ?_
  dsimp only
  split
  · exact ⟨fun _ => rfl, rfl, rfl, fun h => h⟩
  · exact .refl s

theorem aside_foundOnShard (store : StoreRef) (x : ShardId) (key : Key) (refs : Option RawRefRegistry) :
    Only (Aside k) (foundOnShard store x key refs) := by
  have hend : ∀ hit : Option Object, Only (Aside k) (sizesFound store key hit) := by
    intro hit
    cases hit with
    | some o => exact only_pure _
    | none => exact only_bind (aside_refHead _ _) fun _ => only_pure _
  unfold foundOnShard
  cases refs.bind (·.get x) with
  | none => exact hend none
  | some raw => exact only_bind (aside_refHead _ _) fun r => hend r.toOption

theorem aside_readReplicas (h : src ≠ k) (isFallback : Bool) (refs : Option RawRefRegistry) (l : List (ShardId × StoreRef)) :
    ∀ bad e, Only (Aside k) (readReplicas src isFallback refs l bad e) := by
  induction l with
  | nil => exact fun _ _ => only_pure _
  | cons a l ih =>
    intro bad e
    unfold readReplicas
    refine only_bind (aside_refGet _ _) fun r => ?_
    cases r with
    | ok o =>
      have hend : Only (Aside k) (do
          bad.forM fun b => scheduleReadRepair src a.1 b
          pure (.ok o) : ClusterM (Except Error Object)) :=
        only_bind (only_forM fun b => aside_scheduleReadRepair _ _ _) fun _ => only_pure _
      dsimp only
      split
      · refine only_bind (aside_foundOnShard _ _ _ _) fun r => ?_
        exact only_bind ((apart_catalogAddReplica h _ _ _).mono fun _ _ _ h => h.1) fun _ => hend
      · exact hend
    | error e => exact only_bind (aside_handleReadError h _ _) fun _ => ih _ _

theorem aside_readMetadata (refs : RawRefRegistry) (l : List ShardId) (key : Key) [Crates] :
    Only (Aside k) (metadataFrom refs key l) := by
  induction l with
  | nil => exact only_pure _
  | cons x l ih =>
    have hget : ∀ (r : StoreRef) (path : Key) (f : Object → Except Error Bytes),
        Only (Aside k) (r.get path >>= metadataOr f (metadataFrom refs key l)) := by
      intro r path f
      refine only_bind (aside_refGet _ _) fun r => ?_
      cases r with
      | ok o => exact only_pure _
      | error e => exact ih
    unfold metadataFrom
    cases refs.get x with
    | some raw => exact hget _ _ fun o => .ok o.metadata
    | none =>
      refine only_bind (aside_look _) fun st => ?_
      cases st with
      | none => exact ih
      | some store =>
        cases refs.kind x with
        | raw => exact only_pure _
        | s3Like => exact hget _ _ fun o => .ok ((Tlv.encodeMetadata (Tlv.attributesToMeta o.attributes)).toOption.getD [])
        | sidecar => exact hget _ _ fun o => .ok o.body

section Reads

variable [Crates]

theorem aside_resolveShards (key : Key) : Only (Aside k) (resolveShards key) := by
  unfold resolveShards
  refine only_bind (aside_look _) fun entry => only_bind (aside_look _) fun raw => only_bind (aside_look _) fun pref => ?_
  cases pref with
  | ordered => exact only_pure _
  | roundRobin =>
    refine only_bind ?_ fun _ => only_pure _
    unfold balancedShardOrder
    split
    · exact only_pure _
    · exact only_step fun _ => ⟨fun _ => rfl, rfl, rfl, fun h => h⟩

theorem aside_get (h : src ≠ k) : Only (Aside k) (get src) := by
  unfold get
  split
  · exact only_pure _
  · refine only_bind (only_bind (aside_resolveShards _) fun _ => only_bind (aside_look _) fun _ => only_pure _) fun r => ?_
    exact only_bind (aside_look _) fun refs => aside_readReplicas h _ _ _ _ _

theorem aside_readObjectMetadata (key : Key) (attributes : FMap String) : Only (Aside k) (readObjectMetadata key attributes) := by
  unfold readObjectMetadata
  refine only_bind (aside_look _) fun refs => ?_
  cases refs with
  | none => exact only_pure _
  | some refs =>
    refine only_bind (aside_look _) fun entry => ?_
    split
    · exact only_pure _
    · refine only_bind ?_ fun r => ?_
      · unfold getMetadata
        split
        · exact only_pure _
        · exact only_bind (aside_resolveShards _) fun _ => aside_readMetadata _ _ _
      · cases r with
        | ok b => exact only_pure _
        | error e => exact only_pure _

end Reads

/-! ## Marking shards -/

variable [Crates]

theorem aside_markWriteFailures (placed failed tried : List ShardId) (location : Key) :
    Only (Aside k) (markWriteFailures placed failed tried location) := by
  unfold markWriteFailures
  split
  · exact only_bind (only_forM fun x => aside_setShardHealth x _) fun _ => only_bind (aside_look _) fun _ => only_pure _
  · split
    · refine only_bind (only_forM fun x => only_bind (aside_look _) fun h => ?_) fun _ => only_pure _
      split
      · exact aside_setShardHealth x _
      · exact only_pure _
    · exact only_pure _

theorem aside_retryTargets (location : Key) (targets : List ShardId) : Only (Aside k) (retryTargets location targets) :=
  only_bind (only_forM fun x => aside_setShardHealth x _) fun _ =>
    only_bind (aside_look _) fun _ => only_pure _

end ObjStr.Sharded
