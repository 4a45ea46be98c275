/-
  ObjStr.Sharded.Sweeps — what the maintenance sweeps do to the replicas of an object: the repair
  sweep, the trim and the redistribution.

  A copy lists one more shard in the entry (`Copied`); a removal deletes the object on one shard
  and takes the shard out of the entry (`Removed`). Only these two change the catalog.

  Proved:
  (1) No sweep takes a key below its replication factor (`sweeps_keep_replicas`): at every step
      of every sequence of sweeps the Healthy shards of an entry are at least as many as before
      the call, or as the factor asks for, and a shard leaves an entry only while enough Healthy
      ones stay. An object is deleted from a shard only then too, as long as no key is changed
      by `Path::from` or named like a sidecar: `remove_replica` deletes at `Path::from(key)`, which
      for a key that is already encoded is the path of another key
      (`trimming_one_key_deletes_another`).
-/

import ObjStr.Sharded.Removal
import ObjStr.Sharded.Paths
import ObjStr.Sharded.Sample

namespace ObjStr.Sharded

open ObjStr.Lib ObjStr.Raw Proc

variable {α β : Type} {s s' s'' : Sys} {t t' : Steps Event Sys}

/-! ## Store calls leave the cluster alone -/

/-- The cluster is as it was at every step, and the steps report events in `P`. -/
structure Still (P : Event → Prop) (s s' : Sys) (t : Steps Event Sys) : Prop where
  cluster : s'.cluster = s.cluster
  steps : ∀ e ∈ t, e.1.cluster = s.cluster ∧ e.2.2.cluster = s.cluster ∧ P e.2.1

variable {P : Event → Prop}

theorem Still.nil (s : Sys) : Still P s s [] := ⟨rfl, by simp⟩

theorem Still.look (h : P .other) (s : Sys) : Still P s s [(s, .other, s)] := ⟨rfl, by simp [h]⟩

theorem Still.append (h : Still P s s' t) (h' : Still P s' s'' t') : Still P s s'' (t ++ t') := by
  refine ⟨h'.cluster.trans h.cluster, fun e he => ?_⟩
  rcases List.mem_append.mp he with he | he
  · exact h.steps e he
  · rw [← h.cluster]
    exact h'.steps e he

/-- A write failed, or any call at the key's path. -/
def Failed (key : Key) (es : List Event) : Prop :=
  ∃ st c path e, Event.call st c path (some e) ∈ es ∧ (c = .put ∨ path = Path.fromStr key)

theorem Failed.mono {key : Key} {es es' : List Event} (h : Failed key es) (hs : ∀ e ∈ es, e ∈ es') : Failed key es' := by
  obtain ⟨st, c, path, e, he, hc⟩ := h
  exact ⟨st, c, path, e, hs _ he, hc⟩

theorem Failed.left {key : Key} (h : Failed key (events t)) : Failed key (events (t ++ t')) :=
  h.mono fun e he => by rw [events_append]; exact List.mem_append_left _ he

theorem Failed.right {key : Key} (h : Failed key (events t')) : Failed key (events (t ++ t')) :=
  h.mono fun e he => by rw [events_append]; exact List.mem_append_right _ he

theorem wp_call (r : StoreRef) (kind : Call) (path : Key) (f : Store → Except StoreError α × Store)
    (hP : ∀ st e, P (.call st kind path e)) :
    (r.call kind path f).wp (fun a s' t => Still P s s' t ∧
      ∀ st e, r = some st → failure a = some e → .call st kind path (some e) ∈ events t) s := by
  cases r with
  | none =>
    rw [StoreRef.call, wp_pure]
    exact ⟨.nil s, by simp⟩
  | some id =>
    rw [StoreRef.call, onStore, wp_step]
    refine ⟨⟨rfl, by simp [hP]⟩, fun st e hst he => ?_⟩
    obtain rfl := Option.some.inj hst
    simp [events, he]

/-! ## A copy -/

/-- Not a delete, and no change of the catalog. -/
def Event.Harmless : Event → Prop
  | .call _ kind _ _ => kind ≠ .delete
  | .other => True
  | _ => False

theorem wp_readMetadataFromShard (store : StoreRef) (x : ShardId) (path : Key) (attributes : FMap String)
    (refs : RawRefRegistry) :
    (readMetadataFromShard store x path attributes refs).wp (fun _ s' t => Still Event.Harmless s s' t) s := by
  unfold readMetadataFromShard
  cases refs.kind x with
  | raw =>
    cases refs.get x with
    | none => exact .nil s
    | some raw =>
      dsimp only
      rw [wp_bind]
      refine wp_mono (wp_call (P := Event.Harmless) (some raw) .get path _ (fun _ _ => by simp [Event.Harmless])) fun _ s' t h => ?_
      rw [wp_pure, List.append_nil]
      exact h.1
  | s3Like => exact .nil s
  | sidecar =>
    dsimp only
    rw [wp_bind]
    refine wp_mono (wp_call (P := Event.Harmless) store .get _ _ (fun _ _ => by simp [Event.Harmless])) fun _ s' t h => ?_
    rw [wp_pure, List.append_nil]
    exact h.1

theorem wp_putObject (key : Key) (store : StoreRef) (path : Key) (up : Upload) :
    (store.put path up).wp (fun r s' t => Still Event.Harmless s s' t ∧
      (store ≠ none → (failure r).isSome → Failed key (events t))) s := by
  refine wp_mono (wp_call (P := Event.Harmless) store .put path _ (fun _ _ => by simp [Event.Harmless])) fun r s' t h => ⟨h.1, fun hs hr => ?_⟩
  obtain ⟨st, hst⟩ := Option.ne_none_iff_exists'.mp hs
  obtain ⟨e, he⟩ := Option.isSome_iff_exists.mp hr
  exact ⟨st, .put, path, e, h.2 st e hst he, .inl rfl⟩

theorem wp_writeWithMetaToShard (key : Key) (refs : RawRefRegistry) (x : ShardId) (store : StoreRef) (path : Key)
    (data metadata : Bytes) :
    (writeWithMetaToShard refs x store path data metadata).wp (fun r s' t => Still Event.Harmless s s' t ∧
      (store ≠ none → (failure r).isSome → Failed key (events t))) s := by
  unfold writeWithMetaToShard
  split
  · exact wp_putObject key store path _
  · cases refs.kind x with
    | raw =>
      cases refs.get x with
      | none => exact wp_putObject key store path _
      | some raw =>
        refine wp_mono (wp_putObject key (some raw) path _) fun r s' t h => ⟨h.1, fun _ hr => h.2 (by simp) hr⟩
    | s3Like => exact wp_putObject key store path _
    | sidecar =>
      dsimp only
      rw [wp_bind]
      refine wp_mono (wp_putObject key store path _) fun r s1 t1 h1 => ?_
      cases r with
      | error e =>
        rw [wp_pure, List.append_nil]
        exact h1
      | ok _ =>
        refine wp_mono (wp_putObject key store _ _) fun r s2 t2 h2 => ⟨h1.1.append h2.1, fun hs hr => ?_⟩
        exact (h2.2 hs hr).right

/-- What `replicate_object` does: the copy is listed, or some call failed. -/
def Copied (key : Key) (src dst : ShardId) (s : Sys) (r : Except Error Nat) (s' : Sys) (t : Steps Event Sys) : Prop :=
  ∃ s1 t1, Still Event.Harmless s s1 t1 ∧
    match r with
    | .ok size => ∃ ml, s' = s1.tick.withCatalog (s1.cluster.catalog.addReplica key dst size ml s1.now) ∧
        t = t1 ++ [(s1, .replicaAdded key dst, s')]
    | .error _ => s' = s1 ∧ t = t1 ∧
        (s.cluster.storeRef src ≠ none → s.cluster.storeRef dst ≠ none → Failed key (events t))

theorem wp_replicateObject (key : Key) (src dst : ShardId) (refs : Option RawRefRegistry) :
    (replicateObject key src dst refs).wp (fun r s' t => Copied key src dst s r s' t) s := by
  have hlook : Still Event.Harmless s s [(s, .other, s)] := .look trivial s
  have hlt : ∀ x, s.cluster.storeRef x ≠ none → x < s.cluster.shards.length := fun x hx => by
    obtain ⟨st, hst⟩ := Option.ne_none_iff_exists'.mp hx
    exact (Cluster.storeRef_eq_some hst).2
  unfold replicateObject
  rw [wp_bind, wp_look]
  split
  · next h =>
    rw [wp_pure]
    refine ⟨s, _, hlook, rfl, rfl, fun h1 h2 => ?_⟩
    simp [hlt src h1, hlt dst h2] at h
  · next fromStore toStore h =>
    have hrefs : fromStore = s.cluster.storeRef src ∧ toStore = s.cluster.storeRef dst := by
      split at h
      · simp only [Option.some.injEq, Prod.mk.injEq] at h
        exact ⟨h.1.symm, h.2.symm⟩
      · cases h
    obtain ⟨rfl, rfl⟩ := hrefs
    dsimp only
    rw [wp_bind]
    refine wp_mono (wp_call (P := Event.Harmless) (s.cluster.storeRef src) .get (Path.fromStr key) _
      (fun _ _ => by simp [Event.Harmless])) fun r s1 t1 h1 => ?_
    obtain ⟨h1, hfail1⟩ := h1
    cases r with
    | error e =>
      rw [wp_pure]
      refine ⟨s1, _, hlook.append (h1.append (.nil s1)), rfl, rfl, fun hsrc _ => ?_⟩
      obtain ⟨st, hst⟩ := Option.ne_none_iff_exists'.mp hsrc
      exact Failed.right (Failed.left ⟨st, .get, _, e, hfail1 st e hst rfl, .inr rfl⟩)
    | ok o =>
      dsimp only
      -- the metadata is read, then `w` writes the object, with it or without
      have hfinish : ∀ (m : Option Bytes) s2 t2 (w : ClusterM (Except StoreError Unit)), Still Event.Harmless s1 s2 t2 →
          w.wp (fun r s' t => Still Event.Harmless s2 s' t ∧
            (s.cluster.storeRef dst ≠ none → (failure r).isSome → Failed key (events t))) s2 →
          (w >>= listCopy key dst o.body.length (UInt16.ofNat (m.getD []).length)).wp
            (fun r s' t => Copied key src dst s r s' ([(s, Event.other, s)] ++ (t1 ++ (t2 ++ t)))) s2 := by
        intro m s2 t2 w h2 hw
        rw [wp_bind]
        refine wp_mono hw fun r s3 t3 h3 => ?_
        obtain ⟨h3, hfail3⟩ := h3
        cases r with
        | error e =>
          rw [listCopy, wp_pure]
          refine ⟨s3, _, hlook.append (h1.append (h2.append (h3.append (.nil s3)))), rfl, rfl, fun _ hdst => ?_⟩
          exact Failed.right (Failed.right (Failed.right (Failed.left (hfail3 hdst rfl))))
        | ok _ =>
          rw [listCopy, wp_bind, catalogAddReplica, wp_step, wp_pure]
          refine ⟨s3, _, hlook.append (h1.append (h2.append h3)), _, rfl, ?_⟩
          simp [List.append_assoc]
      cases refs with
      | none => exact hfinish none s1 [] _ (.nil s1) (wp_putObject key _ _ _)
      | some refs =>
        dsimp only
        rw [wp_bind]
        refine wp_mono (wp_readMetadataFromShard _ _ _ _ _) fun m s2 t2 h2 => ?_
        cases m with
        | none => exact hfinish none s2 t2 _ h2 (wp_putObject key _ _ _)
        | some m => exact hfinish (some m) s2 t2 _ h2 (wp_writeWithMetaToShard key _ _ _ _ _ _)

/-! ## A removal -/

def Event.Drops (config : Config) (key : Key) (x : ShardId) (e : Event) : Prop :=
  e = .other ∨ ∃ path f, e = .call (config.storeOf x) .delete path f ∧
    (path = Path.fromStr key ∨ path = metaSidecarPath (Path.fromStr key))

/-- What `remove_replica` does: the shard is taken out of the entry, or some call failed. -/
def Removed (key : Key) (x : ShardId) (s : Sys) (r : Except Error Unit) (s' : Sys) (t : Steps Event Sys) : Prop :=
  ∃ s1 t1, Still (Event.Drops s.cluster.config key x) s s1 t1 ∧
    match r with
    | .ok _ => s' = s1.withCatalog (s1.cluster.catalog.removeShard key x) ∧ t = t1 ++ [(s1, .shardRemoved key x, s')]
    | .error _ => s' = s1 ∧ t = t1 ∧ (s.cluster.storeRef x ≠ none → Failed key (events t))

theorem wp_dropObject {c : Cluster} (key : Key) (x : ShardId) {path : Key}
    (hpath : path = Path.fromStr key ∨ path = metaSidecarPath (Path.fromStr key)) :
    ((c.storeRef x).delete path).wp (fun r s' t => Still (Event.Drops c.config key x) s s' t ∧
      ∀ st e, c.storeRef x = some st → failure r = some e → .call st .delete path (some e) ∈ events t) s := by
  cases hr : c.storeRef x with
  | none =>
    rw [StoreRef.delete, StoreRef.call, wp_pure]
    exact ⟨.nil s, by simp⟩
  | some st =>
    have hst := (Cluster.storeRef_eq_some hr).1
    rw [StoreRef.delete, StoreRef.call, onStore, wp_step]
    refine ⟨⟨rfl, ?_⟩, fun st' e hst' he => ?_⟩
    · intro e he
      rw [List.mem_singleton.mp he]
      exact ⟨rfl, rfl, .inr ⟨path, _, by rw [hst], hpath⟩⟩
    · obtain rfl := Option.some.inj hst'
      simp [events, he]

theorem wp_dropSidecar {c : Cluster} (key : Key) (x : ShardId) (refs : Option RawRefRegistry) :
    (cleanupSidecarMaybe (c.storeRef x) (Path.fromStr key) refs x).wp
      (fun _ s' t => Still (Event.Drops c.config key x) s s' t) s := by
  unfold cleanupSidecarMaybe cleanupSidecar
  split
  · rw [wp_bind]
    refine wp_mono (wp_dropObject key x (.inr rfl)) fun r s1 t1 h1 => ?_
    rw [wp_pure, List.append_nil]
    exact h1.1
  · exact .nil s

theorem wp_removeReplica (key : Key) (x : ShardId) :
    (removeReplica key x).wp (fun r s' t => Removed key x s r s' t) s := by
  have hlook : Still (Event.Drops s.cluster.config key x) s s [(s, .other, s)] := .look (.inl rfl) s
  unfold removeReplica
  rw [wp_bind, shardStore, wp_look]
  split
  · next h =>
    rw [wp_pure]
    refine ⟨s, _, hlook, rfl, rfl, fun hx => ?_⟩
    obtain ⟨st, hst⟩ := Option.ne_none_iff_exists'.mp hx
    rw [if_pos (Cluster.storeRef_eq_some hst).2] at h
    cases h
  · next store h =>
    have hstore : store = s.cluster.storeRef x := by
      split at h
      · exact (Option.some.inj h).symm
      · cases h
    subst hstore
    rw [wp_bind, rawRefs, wp_look, wp_bind]
    refine wp_mono (wp_dropSidecar key x _) fun _ s1 t1 h1 => ?_
    rw [wp_bind]
    refine wp_mono (wp_dropObject key x (.inl rfl)) fun r s2 t2 h2 => ?_
    obtain ⟨h2, hfail⟩ := h2
    cases r with
    | error e =>
      rw [wp_pure]
      refine ⟨s2, _, hlook.append (hlook.append (h1.append (h2.append (.nil s2)))), rfl, rfl, fun hx => ?_⟩
      obtain ⟨st, hst⟩ := Option.ne_none_iff_exists'.mp hx
      exact Failed.right (Failed.right (Failed.right (Failed.left ⟨st, .delete, _, e, hfail st e hst rfl, .inr rfl⟩)))
    | ok _ =>
      dsimp only
      rw [wp_bind, catalogRemoveShard, wp_step, wp_pure]
      refine ⟨s2, _, hlook.append (hlook.append (h1.append h2)), rfl, ?_⟩
      simp [List.append_assoc]

/-! ## Counting the replicas -/

def Cluster.healthyReplicas (c : Cluster) (key : Key) : Nat :=
  ((c.catalog.get key).map fun e => c.countHealth e.shards [.healthy]).getD 0

theorem Cluster.countHealth_healthy (c : Cluster) (l : List ShardId) :
    c.countHealth l [.healthy] = (l.filter fun id => c.isHealthy id).length := by
  unfold countHealth isHealthy
  congr 1
  refine List.filter_congr fun x _ => ?_
  cases c.healthOf x with
  | none => rfl
  | some h => cases h <;> rfl

theorem Cluster.countHealth_congr {c c' : Cluster} (h : c'.shards = c.shards) (l : List ShardId) (states : List ShardHealth) :
    c'.countHealth l states = c.countHealth l states := by
  unfold countHealth healthOf
  rw [h]

theorem Cluster.countHealth_withReplica (c : Cluster) (e : PlacementEntry) (x : ShardId) (ml : UInt16) (states : List ShardHealth) :
    c.countHealth e.shards states ≤ c.countHealth (e.withReplica x ml).shards states := by
  unfold PlacementEntry.withReplica countHealth
  dsimp only
  split
  · exact Nat.le_refl _
  · rw [List.filter_append, List.length_append]
    exact Nat.le_add_right _ _

/-! ## Sweeps do not drop replicas -/

/-- The health of the shards has not changed, no key is new, and every key has as many Healthy
    replicas as before, or as the replication factor asks for. -/
structure Steady (s s' : Sys) : Prop where
  config : s'.cluster.config = s.cluster.config
  shards : s'.cluster.shards = s.cluster.shards
  keys : ∀ k, s.cluster.catalog.get k = none → s'.cluster.catalog.get k = none
  replicas : ∀ k, min s.cluster.config.replicationFactor (s.cluster.healthyReplicas k) ≤ s'.cluster.healthyReplicas k

theorem Steady.of_cluster (h : s'.cluster = s.cluster) : Steady s s' :=
  ⟨by rw [h], by rw [h], by simp [h], by simp [h]⟩

theorem Steady.trans (h : Steady s s') (h' : Steady s' s'') : Steady s s'' where
  config := h'.config.trans h.config
  shards := h'.shards.trans h.shards
  keys := fun k hk => h'.keys k (h.keys k hk)
  replicas := fun k => by
    have h1 := h.replicas k
    have h2 := h'.replicas k
    rw [h.config] at h2
    omega

/-- The keys that `Path::from` leaves as they are, and that are not named like a sidecar. -/
def Catalog.Plain (c : Catalog) : Prop := ∀ k, (c.get k).isSome → Path.fromStr k = k ∧ isSidecar k = false

theorem Steady.plain (h : Steady s s') (hp : s.cluster.catalog.Plain) : s'.cluster.catalog.Plain := by
  intro k hk
  apply hp k
  rw [Option.isSome_iff_ne_none] at hk ⊢
  exact fun hn => hk (h.keys k hn)

/-- A shard leaves an entry only while there are enough other Healthy ones. -/
def SafeListing (s : Sys) (e : Event) : Prop :=
  ∀ key x, e = .shardRemoved key x → ∀ entry, s.cluster.catalog.get key = some entry →
    s.cluster.config.replicationFactor ≤ s.cluster.countHealth (entry.shards.filter (· != x)) [.healthy]

/-- The object of a key is deleted from a store only while there are enough other Healthy shards in
    the key's entry. -/
def SafeDelete (s : Sys) (e : Event) : Prop :=
  ∀ st key, e = .call st .delete key none → ∀ entry, s.cluster.catalog.get key = some entry →
    s.cluster.config.replicationFactor ≤
      s.cluster.countHealth (entry.shards.filter fun y => s.cluster.config.storeOf y != st) [.healthy]

structure Swept (s s' : Sys) (t : Steps Event Sys) : Prop where
  steady : Steady s s'
  steps : ∀ e ∈ t, Steady s e.1 ∧ Steady s e.2.2 ∧ SafeListing e.1 e.2.1 ∧
    (e.1.cluster.catalog.Plain → SafeDelete e.1 e.2.1)

theorem Swept.append (h : Swept s s' t) (h' : Swept s' s'' t') : Swept s s'' (t ++ t') := by
  refine ⟨h.steady.trans h'.steady, fun e he => ?_⟩
  rcases List.mem_append.mp he with he | he
  · exact h.steps e he
  · obtain ⟨h1, h2, h3⟩ := h'.steps e he
    exact ⟨h.steady.trans h1, h.steady.trans h2, h3⟩

/-- Steps that leave the cluster alone and report events that are safe where they happen. -/
theorem Still.swept (h : Still P s s' t)
    (hP : ∀ e s1, P e → s1.cluster = s.cluster → SafeListing s1 e ∧ (s1.cluster.catalog.Plain → SafeDelete s1 e)) :
    Swept s s' t := by
  refine ⟨.of_cluster h.cluster, fun e he => ?_⟩
  obtain ⟨h1, h2, h3⟩ := h.steps e he
  exact ⟨.of_cluster h1, .of_cluster h2, hP _ _ h3 h1⟩

theorem Event.Harmless.safe {e : Event} (h : e.Harmless) (s : Sys) : SafeListing s e ∧ SafeDelete s e := by
  cases e with
  | call st kind key f =>
    refine ⟨fun _ _ he => ?_, fun _ _ he => ?_⟩
    · cases he
    · cases he
      exact absurd rfl h
  | other =>
    refine ⟨fun _ _ he => ?_, fun _ _ he => ?_⟩
    · cases he
    · cases he
  | recorded | inserted | replicaAdded | removed | shardRemoved | shardPurged | replaced => exact h.elim

theorem Swept.nil (s : Sys) : Swept s s [] := ⟨.of_cluster rfl, by simp⟩

theorem Swept.look (s : Sys) : Swept s s [(s, .other, s)] :=
  Still.swept (.look (P := Event.Harmless) trivial s) fun _ s1 h _ => ⟨(h.safe s1).1, fun _ => (h.safe s1).2⟩

/-- A copy of a key that has an entry. -/
theorem Copied.swept {key : Key} {src dst : ShardId} {r : Except Error Nat} (h : Copied key src dst s r s' t)
    (hkey : (s.cluster.catalog.get key).isSome) : Swept s s' t := by
  obtain ⟨s1, t1, h1, hr⟩ := h
  have hsw : Swept s s1 t1 := h1.swept fun _ s2 h _ => ⟨(h.safe s2).1, fun _ => (h.safe s2).2⟩
  cases r with
  | error e =>
    obtain ⟨rfl, rfl, -⟩ := hr
    exact hsw
  | ok size =>
    obtain ⟨ml, rfl, rfl⟩ := hr
    refine hsw.append ?_
    rw [← h1.cluster] at hkey
    obtain ⟨entry, hentry⟩ := Option.isSome_iff_exists.mp hkey
    have hcat : ∀ k, (s1.tick.withCatalog (s1.cluster.catalog.addReplica key dst size ml s1.now)).cluster.catalog.get k =
        if k = key then some (entry.withReplica dst ml) else s1.cluster.catalog.get k := by
      intro k
      show (s1.cluster.catalog.addReplica key dst size ml s1.now).get k = _
      rw [Catalog.get_addReplica, hentry]
      rfl
    have hst : Steady s1 (s1.tick.withCatalog (s1.cluster.catalog.addReplica key dst size ml s1.now)) := by
      refine ⟨rfl, rfl, fun k hk => ?_, fun k => ?_⟩
      · rw [hcat, if_neg (fun hk' => ?_)]
        · exact hk
        · rw [hk', hentry] at hk
          cases hk
      · unfold Cluster.healthyReplicas
        rw [hcat]
        by_cases hk : k = key
        · subst hk
          rw [if_pos rfl, hentry]
          exact (Nat.min_le_right _ _).trans (s1.cluster.countHealth_withReplica entry dst ml _)
        · rw [if_neg hk]
          exact Nat.min_le_right _ _
    refine ⟨hst, fun e he => ?_⟩
    rw [List.mem_singleton.mp he]
    refine ⟨.of_cluster rfl, hst, ?_, fun _ => ?_⟩
    · intro _ _ h
      cases h
    · intro _ _ h
      cases h

/-- The delete goes to the key's own object, and the sidecar is no key. -/
theorem Event.Drops.safe {key : Key} {x : ShardId} {entry : PlacementEntry} {e : Event}
    (hentry : s.cluster.catalog.get key = some entry)
    (hsafe : s.cluster.config.replicationFactor ≤ s.cluster.countHealth (entry.shards.filter (· != x)) [.healthy])
    (h : e.Drops s.cluster.config key x) : SafeListing s e ∧ (s.cluster.catalog.Plain → SafeDelete s e) := by
  rcases h with rfl | ⟨path, f, rfl, hpath⟩
  · refine ⟨fun _ _ he => ?_, fun _ _ _ he => ?_⟩
    · cases he
    · cases he
  · refine ⟨fun _ _ he => ?_, fun hplain _ _ he entry' hentry' => ?_⟩
    · cases he
    · cases he
      have hkey := hplain key (by simp [hentry])
      have hk := hplain path (by simp [hentry'])
      rcases hpath with rfl | rfl
      · rw [hkey.1, hentry] at hentry'
        cases hentry'
        have hcongr : ∀ y ∈ entry.shards, (y != x) = (s.cluster.config.storeOf y != s.cluster.config.storeOf x) := by
          intro y _
          rw [Bool.eq_iff_iff, bne_iff_ne, bne_iff_ne]
          exact s.cluster.config.storeOf.injective.ne_iff.symm
        rwa [List.filter_congr hcongr] at hsafe
      · rw [isSidecar_metaSidecarPath] at hk
        exact absurd hk.2 (by decide)

/-- A removal with enough other Healthy shards in the entry. -/
theorem Removed.swept {key : Key} {x : ShardId} {entry : PlacementEntry} {r : Except Error Unit}
    (h : Removed key x s r s' t) (hentry : s.cluster.catalog.get key = some entry)
    (hsafe : s.cluster.config.replicationFactor ≤ s.cluster.countHealth (entry.shards.filter (· != x)) [.healthy]) :
    Swept s s' t := by
  obtain ⟨s1, t1, h1, hr⟩ := h
  have hsw : Swept s s1 t1 := h1.swept fun e s2 he hs2 => by
    rw [← hs2] at he hentry hsafe
    exact he.safe hentry hsafe
  cases r with
  | error e =>
    obtain ⟨rfl, rfl, -⟩ := hr
    exact hsw
  | ok _ =>
    obtain ⟨rfl, rfl⟩ := hr
    refine hsw.append ?_
    rw [← h1.cluster] at hentry hsafe
    -- what stays is not empty: the factor is at least one
    have hne : ((entry.without x).shards.isEmpty) = false := by
      have h2 := s1.cluster.config.one_le_minWrites
      have h3 := s1.cluster.config.minWrites_le
      rw [PlacementEntry.without]
      cases hl : entry.shards.filter (· != x) with
      | nil =>
        rw [hl] at hsafe
        have h4 : s1.cluster.countHealth [] [.healthy] = 0 := rfl
        omega
      | cons y l => rfl
    have hcat : ∀ k, (s1.cluster.catalog.removeShard key x).get k =
        if k = key then some (entry.without x) else s1.cluster.catalog.get k := by
      intro k
      by_cases hk : k = key
      · subst hk
        rw [Catalog.get_removeShard _ _ hentry, hne]
        simp
      · rw [if_neg hk, Catalog.get_removeShard_ne _ _ _ _ hk]
    have hst : Steady s1 (s1.withCatalog (s1.cluster.catalog.removeShard key x)) := by
      refine ⟨rfl, rfl, fun k hk => ?_, fun k => ?_⟩
      · show (s1.cluster.catalog.removeShard key x).get k = none
        rw [hcat, if_neg (fun hk' => ?_)]
        · exact hk
        · rw [hk', hentry] at hk
          cases hk
      · show _ ≤ (((s1.cluster.catalog.removeShard key x).get k).map _).getD 0
        rw [hcat]
        by_cases hk : k = key
        · rw [if_pos hk]
          exact (Nat.min_le_left _ _).trans hsafe
        · rw [if_neg hk]
          exact Nat.min_le_right _ _
    refine ⟨hst, fun e he => ?_⟩
    rw [List.mem_singleton.mp he]
    refine ⟨.of_cluster rfl, hst, ?_, fun _ => ?_⟩
    · intro k y h entry' hentry'
      cases h
      rw [hentry] at hentry'
      cases hentry'
      exact hsafe
    · intro _ _ h
      cases h

/-- The process, run alone from `s`, drops no replica that is needed. -/
def Sweeps (p : ClusterM α) (s : Sys) : Prop := p.wp (fun _ s' t => Swept s s' t) s

theorem sweeps_pure (a : α) : Sweeps (pure a) s := Swept.nil s

theorem sweeps_look {f : Sys → α} {g : α → ClusterM β} (h : Sweeps (g (f s)) s) : Sweeps (look f >>= g) s := by
  unfold Sweeps
  rw [wp_bind, wp_look]
  exact wp_mono h fun _ s' t h' => (Swept.look s).append h'

/-- What is known of the first part's result helps with the second. -/
theorem sweeps_bind {p : ClusterM α} {g : α → ClusterM β} {Q : α → Sys → Steps Event Sys → Prop} (hp : p.wp Q s)
    (hQ : ∀ a s' t, Q a s' t → Swept s s' t ∧ Sweeps (g a) s') : Sweeps (p >>= g) s := by
  unfold Sweeps
  rw [wp_bind]
  refine wp_mono hp fun a s1 t1 h1 => ?_
  obtain ⟨h2, h3⟩ := hQ a s1 t1 h1
  exact wp_mono h3 fun _ s2 t2 h4 => h2.append h4

/-! ## Choosing shards -/

/-- A fold that keeps one of its elements. -/
theorem foldl_best {step : Option α → α → Option α} (hnone : ∀ x, step none x = some x)
    (hsome : ∀ b x, step (some b) x = some x ∨ step (some b) x = some b) (l : List α) (b : Option α) :
    (∀ x, l.foldl step b = some x → x ∈ l ∨ b = some x) ∧ (l.foldl step b = none → l = [] ∧ b = none) := by
  induction l generalizing b with
  | nil => exact ⟨fun x h => .inr h, fun h => ⟨rfl, h⟩⟩
  | cons y l ih =>
    rw [List.foldl_cons]
    have hstep : step b y = some y ∨ step b y = b ∧ b ≠ none := by
      cases b with
      | none => exact .inl (hnone y)
      | some b =>
        rcases hsome b y with h | h
        · exact .inl h
        · exact .inr ⟨h, by simp⟩
    obtain ⟨h1, h2⟩ := ih (step b y)
    refine ⟨fun x h => ?_, fun h => ?_⟩
    · rcases h1 x h with h3 | h3
      · exact .inl (List.mem_cons_of_mem y h3)
      · rcases hstep with h4 | ⟨h4, -⟩
        · rw [h4] at h3
          cases h3
          exact .inl List.mem_cons_self
        · rw [h4] at h3
          exact .inr h3
    · have h3 := (h2 h).2
      rcases hstep with h4 | ⟨h4, h5⟩
      · rw [h4] at h3
        cases h3
      · rw [h4] at h3
        exact absurd h3 h5

theorem mem_of_maxByKey {f : α → Nat} {l : List α} {x : α} (h : maxByKey f l = some x) : x ∈ l := by
  refine ((foldl_best (fun _ => rfl) (fun b x => ?_) l none).1 x h).resolve_right (by simp)
  dsimp only
  split
  · exact .inl rfl
  · exact .inr rfl

theorem maxByKey_eq_none {f : α → Nat} {l : List α} : maxByKey f l = none ↔ l = [] := by
  refine ⟨fun h => ((foldl_best (fun _ => rfl) (fun b x => ?_) l none).2 h).1, fun h => by rw [h]; rfl⟩
  dsimp only
  split
  · exact .inl rfl
  · exact .inr rfl

theorem minByKey_eq_none {f : α → Nat} {l : List α} : minByKey f l = none ↔ l = [] := by
  refine ⟨fun h => ((foldl_best (fun _ => rfl) (fun b x => ?_) l none).2 h).1, fun h => by rw [h]; rfl⟩
  dsimp only
  split
  · exact .inl rfl
  · exact .inr rfl

theorem mem_of_minByKey {f : α → Nat} {l : List α} {x : α} (h : minByKey f l = some x) : x ∈ l := by
  refine ((foldl_best (fun _ => rfl) (fun b x => ?_) l none).1 x h).resolve_right (by simp)
  dsimp only
  split
  · exact .inl rfl
  · exact .inr rfl

/-- The shard that is picked is Healthy, and enough others are. -/
theorem Cluster.excessShard_safe {c : Cluster} {shards : List ShardId} {x : ShardId} (h : c.excessShard shards = some x) :
    x ∈ shards ∧ c.isHealthy x = true ∧
      c.config.replicationFactor ≤ c.countHealth (shards.filter (· != x)) [.healthy] := by
  unfold excessShard at h
  split at h
  · cases h
  · have h1 := List.mem_filter.mp (mem_of_minByKey h)
    have h2 := List.mem_filter.mp h1.1
    refine ⟨h2.1, h2.2, ?_⟩
    rw [Cluster.countHealth_healthy]
    exact of_decide_eq_true h1.2

/-! ## The three sweeps -/

theorem sweeps_repairKey (refs : Option RawRefRegistry) (key : Key) (rounds n : Nat) :
    Sweeps (repairKey refs key rounds n) s := by
  induction rounds generalizing s n with
  | zero => exact sweeps_pure _
  | succ rounds ih =>
    unfold repairKey
    refine sweeps_look ?_
    cases hentry : s.cluster.catalog.get key with
    | none => exact sweeps_pure _
    | some entry =>
      refine sweeps_look ?_
      split
      · exact sweeps_pure _
      · refine sweeps_look ?_
        cases entry.shards.find? fun id => s.cluster.isHealthy id with
        | none => exact sweeps_pure _
        | some source =>
          dsimp only
          rw [findReplicationTarget, bind_assoc]
          refine sweeps_look (sweeps_look ?_)
          split
          · exact sweeps_pure _
          · refine sweeps_bind (wp_replicateObject _ _ _ _) fun r s1 t1 h1 => ⟨h1.swept (by simp [hentry]), ?_⟩
            cases r with
            | ok _ => exact ih _
            | error _ => exact sweeps_pure _

/-- The excess shard of a key, and what follows once it is known. -/
theorem sweeps_pickExcessShard (key : Key) {g : Option ShardId → ClusterM β}
    (h : ∀ x, (∀ y, x = some y → ∃ entry, s.cluster.catalog.get key = some entry ∧
      s.cluster.config.replicationFactor ≤ s.cluster.countHealth (entry.shards.filter (· != y)) [.healthy]) →
      Sweeps (g x) s) : Sweeps (pickExcessShard key >>= g) s := by
  rw [pickExcessShard, bind_assoc]
  refine sweeps_look ?_
  cases hentry : s.cluster.catalog.get key with
  | none => exact h none (by simp)
  | some entry =>
    refine sweeps_look (h _ fun y hy => ⟨entry, hentry, (Cluster.excessShard_safe hy).2.2⟩)

theorem sweeps_trimKey (key : Key) (rounds n : Nat) : Sweeps (trimKey key rounds n) s := by
  induction rounds generalizing s n with
  | zero => exact sweeps_pure _
  | succ rounds ih =>
    unfold trimKey
    refine sweeps_pickExcessShard key fun x hx => ?_
    cases x with
    | none => exact sweeps_pure _
    | some x =>
      obtain ⟨entry, hentry, hsafe⟩ := hx x rfl
      refine sweeps_bind (wp_removeReplica _ _) fun r s1 t1 h1 => ⟨h1.swept hentry hsafe, ?_⟩
      cases r with
      | ok _ => exact ih _
      | error _ => exact sweeps_pure _

theorem sweeps_foldlM {ι : Type} {f : β → ι → ClusterM β} {l : List ι} {b : β} (h : ∀ b i s, Sweeps (f b i) s) :
    Sweeps (l.foldlM f b) s := by
  induction l generalizing b s with
  | nil => exact sweeps_pure b
  | cons i l ih =>
    rw [List.foldlM_cons]
    exact sweeps_bind (h b i s) fun _ _ _ h1 => ⟨h1, ih⟩

theorem sweeps_forKeys {keys : List (Key × Nat)} {f : Key → Nat → ClusterM (Option Nat)} (h : ∀ k n s, Sweeps (f k n) s) :
    Sweeps (forKeys keys f) s := by
  refine sweeps_foldlM fun acc k s1 => ?_
  cases acc with
  | none => exact sweeps_pure _
  | some n => exact h k.1 n s1

theorem sweeps_repairReplicationSweep (rounds batchSize : Nat) (refs : Option RawRefRegistry) :
    Sweeps (repairReplicationSweep rounds batchSize refs) s := by
  unfold repairReplicationSweep
  refine sweeps_look (sweeps_bind (sweeps_forKeys fun k n s => sweeps_repairKey refs k rounds n) fun _ s1 _ h1 => ⟨h1, ?_⟩)
  refine sweeps_look (sweeps_bind (sweeps_forKeys fun k n s => sweeps_trimKey k rounds n) fun _ s2 _ h2 => ⟨h2, ?_⟩)
  exact sweeps_look (sweeps_look (sweeps_pure _))

theorem sweeps_overReplicationTrim (batchSize : Nat) : Sweeps (overReplicationTrim batchSize) s := by
  unfold overReplicationTrim
  refine sweeps_look (sweeps_foldlM fun trimmed k s1 => sweeps_pickExcessShard k.1 fun x hx => ?_)
  cases x with
  | none => exact sweeps_pure _
  | some x =>
    obtain ⟨entry, hentry, hsafe⟩ := hx x rfl
    refine sweeps_bind (wp_removeReplica _ _) fun r s2 t2 h2 => ⟨h2.swept hentry hsafe, ?_⟩
    cases r with
    | ok _ => exact sweeps_pure _
    | error _ => exact sweeps_pure _

/-- The entries of a shard are the catalog's. -/
theorem Catalog.mem_entriesForShard {c : Catalog} {x : ShardId} {p : Key × PlacementEntry} (h : p ∈ c.entriesForShard x) :
    c.get p.1 = some p.2 ∧ x ∈ p.2.shards := by
  obtain ⟨e, he, rfl⟩ := List.mem_map.mp h
  obtain ⟨h1, h2⟩ := List.mem_filter.mp he
  exact ⟨AList.mem_lookup_iff.mpr h1, by simpa using h2⟩

/-- The move: the copy on the destination makes up for the source. -/
theorem sweeps_moveObject (refs : Option RawRefRegistry) {healthySet : List ShardId} {key : Key} {src dst : ShardId}
    {entry : PlacementEntry} (result : RedistributeResult) (hset : ∀ x, healthySet.contains x = true → s.cluster.isHealthy x = true)
    (hentry : s.cluster.catalog.get key = some entry) (hsrc : src ∈ entry.shards) (hdst : s.cluster.isHealthy dst = true)
    (hmove : movable s.cluster.config.replicationFactor healthySet src dst (key, entry) = true) :
    Sweeps (moveObject refs healthySet key src dst result) s := by
  simp only [movable, Bool.and_eq_true, Bool.not_eq_true', decide_eq_true_eq, List.contains_eq_mem,
    decide_eq_false_iff_not] at hmove
  obtain ⟨hnot, hrf⟩ := hmove
  unfold moveObject
  refine sweeps_bind (wp_replicateObject _ _ _ _) fun r s1 t1 h1 => ⟨h1.swept (by simp [hentry]), ?_⟩
  cases r with
  | error _ => exact sweeps_pure _
  | ok size =>
    refine sweeps_look (sweeps_look ?_)
    split
    · obtain ⟨s2, t2, h2, ml, rfl, rfl⟩ := h1
      have hentry' : (s2.tick.withCatalog (s2.cluster.catalog.addReplica key dst size ml s2.now)).cluster.catalog.get key =
          some (entry.withReplica dst ml) := by
        show (s2.cluster.catalog.addReplica key dst size ml s2.now).get key = _
        rw [Catalog.get_addReplica, if_pos rfl, h2.cluster, hentry]
        rfl
      refine sweeps_bind (wp_removeReplica _ _) fun r s3 t3 h3 => ⟨h3.swept hentry' ?_, ?_⟩
      · show s2.cluster.config.replicationFactor ≤ s2.cluster.countHealth _ _
        rw [h2.cluster, Cluster.countHealth_healthy]
        have hne : dst ≠ src := fun h => hnot (h ▸ hsrc)
        have hshards : (entry.withReplica dst ml).shards = entry.shards ++ [dst] := by
          simp [PlacementEntry.withReplica, hnot]
        have hle : (entry.shards.filter fun x => x != src && healthySet.contains x).length ≤
            ((entry.shards.filter (· != src)).filter fun id => s.cluster.isHealthy id).length := by
          rw [List.filter_filter]
          refine (List.monotone_filter_right entry.shards fun x hx => ?_).length_le
          simp only [Bool.and_eq_true] at hx ⊢
          exact ⟨hset x hx.2, hx.1⟩
        simp only [hshards, List.filter_append, List.length_append]
        have h1 : (([dst].filter (· != src)).filter fun id => s.cluster.isHealthy id).length = 1 := by
          simp [hne, hdst]
        simp only [List.contains_eq_mem] at hle
        omega
      · cases r with
        | ok _ => exact sweeps_pure _
        | error _ => exact sweeps_pure _
    · exact sweeps_pure _

theorem isHealthy_congr {c c' : Cluster} (h : c'.shards = c.shards) (x : ShardId) : c'.isHealthy x = c.isHealthy x := by
  unfold Cluster.isHealthy Cluster.healthOf
  rw [h]

theorem sweeps_redistributeLoop (refs : Option RawRefRegistry) (tolerated : Nat → Bool) (batchSize : Nat)
    {healthySet : List ShardId} (rounds : Nat) {counts : List (ShardId × Nat)} (result : RedistributeResult)
    (hset : ∀ x, healthySet.contains x = true → s.cluster.isHealthy x = true)
    (hcounts : ∀ c ∈ counts, s.cluster.isHealthy c.1 = true) :
    Sweeps (redistributeLoop refs tolerated batchSize healthySet rounds counts result) s := by
  induction rounds generalizing s counts result with
  | zero => exact sweeps_pure _
  | succ rounds ih =>
    unfold redistributeLoop
    split
    · dsimp only
      split
      · next src srcCount dst dstCount hhead hlast =>
        split
        · exact sweeps_pure _
        · refine sweeps_look (sweeps_look ?_)
          split
          · exact sweeps_pure _
          · next key entry hfind =>
            have hmem := Catalog.mem_entriesForShard (List.mem_of_find?_eq_some hfind)
            have hdst : s.cluster.isHealthy dst = true :=
              hcounts (dst, dstCount) (List.mem_mergeSort.mp (List.mem_of_getLast? hlast))
            have hmove := List.find?_some hfind
            refine sweeps_bind (sweeps_moveObject refs result hset hmem.1 hmem.2 hdst hmove) fun r s1 _ h1 => ⟨h1, ?_⟩
            have hh := fun x => isHealthy_congr h1.steady.shards x
            refine ih _ (fun x hx => (hh x).trans (hset x hx)) fun c hc => ?_
            rw [hh]
            split at hc
            · obtain ⟨c', hc', rfl⟩ := List.mem_map.mp hc
              exact hcounts c' (List.mem_mergeSort.mp hc')
            · exact hcounts c (List.mem_mergeSort.mp hc)
      · exact sweeps_pure _
    · exact sweeps_pure _

theorem Cluster.isHealthy_of_mem_counts {c : Cluster} {p : ShardId × Nat} (h : p ∈ c.shardObjectCounts) :
    c.isHealthy p.1 = true := by
  obtain ⟨x, hx, rfl⟩ := List.mem_map.mp h
  exact (List.mem_filter.mp hx).2

theorem sweeps_redistributeSweep (rounds batchSize : Nat) (tolerated : Nat → Nat → Nat → Bool)
    (refs : Option RawRefRegistry) : Sweeps (redistributeSweep rounds batchSize tolerated refs) s := by
  unfold redistributeSweep
  refine sweeps_look (sweeps_look ?_)
  dsimp only
  split
  · exact sweeps_pure _
  · refine sweeps_bind (sweeps_redistributeLoop refs _ _ _ _ (fun x hx => ?_) fun c hc => ?_) fun _ s1 _ h1 => ⟨h1, ?_⟩
    · rw [List.contains_iff_mem, List.mem_map] at hx
      obtain ⟨p, hp, rfl⟩ := hx
      exact Cluster.isHealthy_of_mem_counts hp
    · exact Cluster.isHealthy_of_mem_counts hc
    · exact sweeps_look (sweeps_pure _)

/-! ## Any sequence of sweeps -/

/-- A call of one of the sweeps, with its arguments. -/
inductive Sweep where
  | repair (rounds batchSize : Nat) (refs : Option RawRefRegistry)
  | trim (batchSize : Nat)
  | redistribute (rounds batchSize : Nat) (tolerated : Nat → Nat → Nat → Bool) (refs : Option RawRefRegistry)

def Sweep.run : Sweep → ClusterM Unit
  | .repair rounds batchSize refs => do
    let _ ← repairReplicationSweep rounds batchSize refs
    pure ()
  | .trim batchSize => do
    let _ ← overReplicationTrim batchSize
    pure ()
  | .redistribute rounds batchSize tolerated refs => do
    let _ ← redistributeSweep rounds batchSize tolerated refs
    pure ()

theorem Sweep.sweeps (op : Sweep) (s : Sys) : Sweeps op.run s := by
  cases op with
  | repair rounds batchSize refs =>
    exact sweeps_bind (sweeps_repairReplicationSweep rounds batchSize refs) fun _ _ _ h => ⟨h, sweeps_pure _⟩
  | trim batchSize => exact sweeps_bind (sweeps_overReplicationTrim batchSize) fun _ _ _ h => ⟨h, sweeps_pure _⟩
  | redistribute rounds batchSize tolerated refs =>
    exact sweeps_bind (sweeps_redistributeSweep rounds batchSize tolerated refs) fun _ _ _ h => ⟨h, sweeps_pure _⟩

/-- After a sequence of calls. -/
def Sys.swept (s : Sys) (ops : List Sweep) : Sys := ops.foldl (fun s op => (op.run.exec s).2) s

theorem Sys.steady_swept (s : Sys) (ops : List Sweep) : Steady s (s.swept ops) := by
  induction ops generalizing s with
  | nil => exact .of_cluster rfl
  | cons op ops ih => exact (op.sweeps s).steady.trans (ih _)

/-- At every step of every call, whatever was called before: the Healthy replicas of a key are as
    many as before the call, or enough; a shard leaves an entry only while enough Healthy ones
    stay; and, where the keys are plain, an object is deleted only then. -/
theorem sweeps_keep_replicas (s : Sys) (ops : List Sweep) (op : Sweep) :
    ∀ e ∈ op.run.steps (s.swept ops),
      (∀ k, min s.cluster.config.replicationFactor ((s.swept ops).cluster.healthyReplicas k) ≤ e.1.cluster.healthyReplicas k ∧
        min s.cluster.config.replicationFactor ((s.swept ops).cluster.healthyReplicas k) ≤ e.2.2.cluster.healthyReplicas k) ∧
      SafeListing e.1 e.2.1 ∧ (s.cluster.catalog.Plain → SafeDelete e.1 e.2.1) := by
  intro e he
  have hbefore := s.steady_swept ops
  obtain ⟨h1, h2, h3, h4⟩ := (op.sweeps (s.swept ops)).steps e he
  refine ⟨fun k => ?_, h3, fun hplain => h4 ((hbefore.trans h1).plain hplain)⟩
  rw [← hbefore.config]
  exact ⟨h1.replicas k, h2.replicas k⟩

end ObjStr.Sharded

namespace ObjStr.Sharded

open ObjStr.Lib ObjStr.Raw Proc Sample

/-- Healthy shards that hold what the catalog says, each key with one byte. -/
def Sample.stocked (shards : Nat) (cfg : Config) (keys : List (Key × List ShardId)) : Sys :=
  let cl := cluster shards cfg
  let catalog := keys.foldl (fun c k => c.put k.1 k.2 1 none 0 0) cl.catalog
  ⟨fun st => keys.foldl (fun o k => if k.2.contains st then Store.holding o k.1 [1] else o) fresh,
    { cl with catalog }, []⟩

/-- A key on three shards of a cluster that wants two. -/
def overReplicated : Sys := stocked 3 (config 2 1) [("k", [0, 1, 2])]

theorem plain_overReplicated : overReplicated.cluster.catalog.Plain := by
  intro k hk
  have h1 : overReplicated.cluster.catalog.get k = if k = "k" then some ⟨[0, 1, 2], 1, none, 0, 0⟩ else none :=
    Catalog.get_put ⟨∅, false⟩ "k" k [0, 1, 2] 1 none 0 0
  rw [h1] at hk
  split at hk
  · next hk' =>
    subst hk'
    decide
  · cases hk

/-- A sweep that trims it: the object is deleted from a shard, and that is safe. -/
theorem sweep_trims_third_copy : overReplicated.cluster.catalog.Plain ∧
    ∃ e ∈ (Sweep.trim 1).run.steps (overReplicated.swept []), e.2.1 = .call 0 .delete "k" none ∧ SafeDelete e.1 e.2.1 := by
  refine ⟨plain_overReplicated, ?_⟩
  have hmem : Event.call 0 .delete "k" none ∈ events ((Sweep.trim 1).run.steps (overReplicated.swept [])) := by
    decide +kernel
  obtain ⟨e, he, hev⟩ := List.mem_map.mp hmem
  exact ⟨e, he, hev, (sweeps_keep_replicas overReplicated [] (.trim 1) e he).2.2 plain_overReplicated⟩

/-- Two keys of a cluster that wants one copy: the path of the first, encoded again, is the second. -/
def encodedTwice : Sys := stocked 2 (config 1 1) [("a%7Eb", [0, 1]), ("a%257Eb", [0])]

theorem trimming_one_key_deletes_another : ¬ ∀ (s : Sys) (ops : List Sweep) (op : Sweep),
    (∀ k entry, s.cluster.catalog.get k = some entry → entry.shards.Nodup) →
    ∀ e ∈ op.run.steps (s.swept ops),
      (∀ k, min s.cluster.config.replicationFactor ((s.swept ops).cluster.healthyReplicas k) ≤
        e.2.2.cluster.healthyReplicas k) ∧ SafeDelete e.1 e.2.1 := by
  intro h
  have hcat : ∀ k entry, encodedTwice.cluster.catalog.get k = some entry → entry.shards.Nodup := by
    intro k entry hk
    have h1 : encodedTwice.cluster.catalog.get k = if k = "a%257Eb" then some ⟨[0], 1, none, 0, 0⟩
        else if k = "a%7Eb" then some ⟨[0, 1], 1, none, 0, 0⟩ else none := by
      refine (Catalog.get_put _ "a%257Eb" k [0] 1 none 0 0).trans ?_
      rw [Catalog.get_put]
      rfl
    rw [h1] at hk
    split at hk
    · cases hk
      decide
    · split at hk
      · cases hk
        decide
      · cases hk
  have hrun : ∃ e ∈ (Sweep.trim 1).run.steps (encodedTwice.swept []), e.2.1 = .call 0 .delete "a%257Eb" none ∧
      (e.1.cluster.catalog.get "a%257Eb").map (·.shards) = some [0] ∧ e.1.cluster.config.replicationFactor = 1 ∧
      e.1.cluster.config.storeOf 0 = 0 := by
    decide +kernel
  obtain ⟨e, he, hev, hget, hrf, hst⟩ := hrun
  obtain ⟨entry, hentry, hshards⟩ := Option.map_eq_some_iff.mp hget
  have hsafe := (h encodedTwice [] (.trim 1) hcat e he).2 0 "a%257Eb" hev entry hentry
  have hnone : ([0].filter fun y => e.1.cluster.config.storeOf y != 0) = [] := by simp [hst]
  rw [hrf, hshards, hnone] at hsafe
  exact absurd hsafe (Nat.not_succ_le_zero 0)

end ObjStr.Sharded
