/-
  ObjStr.Sharded.Addressing — which paths the operations on a key go to.

  The catalog's keys are the texts of paths. Listing, markers, copies, removals, read repair and
  vacuum make a path of such a text again with `Path::from`, which encodes it once more:
  - `keys_are_addressed_alike_iff`: a path is the same for all of them if and only if it has no
    character that `Path::from` encodes, and is neither the root nor in the markers' namespace.
  - `an_encoded_key_is_listed_under_another_name`: the key `a%23b` is listed as `a%2523b`.
-/

import ObjStr.Sharded.Vacuum
import ObjStr.Sharded.Repair
import ObjStr.Sharded.Rounds

namespace ObjStr.Sharded

open ObjStr.Lib ObjStr.Raw Proc

variable {α β : Type} {keys : List Key} {k : Key}

/-! ## What a step is about -/

/-- The event is about one of these keys: a store call for its object or sidecar, a change of its entry. -/
def Event.At (keys : List Key) : Event → Prop
  | .call _ _ path _ => ∃ key ∈ keys, path = key ∨ path = metaSidecarPath key
  | .recorded key _ | .inserted key _ | .replicaAdded key _ | .removed key _ | .shardRemoved key _ => key ∈ keys
  | .shardPurged _ | .replaced => False
  | .other => True

/-- All steps are about these keys, from any state. -/
def At (keys : List Key) (p : ClusterM α) : Prop := Only (fun _ e _ => e.At keys) p

theorem at_look (f : Sys → α) : At keys (look f) := only_step fun _ => trivial

theorem at_call {r : StoreRef} {kind : Call} {path : Key} {f : Store → Except StoreError α × Store} (hk : k ∈ keys)
    (h : path = k ∨ path = metaSidecarPath k) : At keys (r.call kind path f) := by
  cases r with
  | none => exact only_pure _
  | some id => exact only_step fun _ => ⟨k, hk, h⟩

theorem at_setShardHealth (x : ShardId) (h : ShardHealth) : At keys (setShardHealth x h) := only_step fun _ => trivial

theorem at_catalogPut (hk : k ∈ keys) (shards : List ShardId) (size : Nat) (crc : Option UInt32) (ml : UInt16) :
    At keys (catalogPut k shards size crc ml) := only_step fun _ => hk

theorem at_catalogAddReplica (hk : k ∈ keys) (x : ShardId) (size : Nat) (ml : UInt16) :
    At keys (catalogAddReplica k x size ml) := only_step fun _ => hk

theorem at_catalogRemove (hk : k ∈ keys) : At keys (catalogRemove k) := only_step fun _ => hk

theorem at_catalogRemoveShard (hk : k ∈ keys) (x : ShardId) : At keys (catalogRemoveShard k x) := only_step fun _ => hk

/-! ## Deleting -/

theorem at_cleanupSidecar (hk : k ∈ keys) (store : StoreRef) (kind : ShardKind) : At keys (cleanupSidecar store k kind) := by
  unfold cleanupSidecar
  split
  · exact only_bind (at_call hk (.inr rfl)) fun _ => only_pure _
  · exact only_pure _

theorem at_deleteRaw (hk : k ∈ keys) : At keys (deleteRaw k) := by
  unfold deleteRaw
  refine only_bind (at_look _) fun _ => only_bind (at_look _) fun stores => only_bind (at_look _) fun _ =>
    only_bind (only_joinAll fun p hp => ?_) fun _ => ?_
  · obtain ⟨st, -, rfl⟩ := List.mem_map.mp hp
    exact only_bind (at_cleanupSidecar hk _ _) fun _ => only_bind (at_call hk (.inl rfl)) fun _ => only_pure _
  · split
    · exact only_bind (at_catalogRemove hk) fun _ => only_pure _
    · refine only_bind (at_look _) fun config => only_bind (only_forM fun x => at_catalogRemoveShard hk x) fun _ => ?_
      split <;> exact only_pure _

/-! ## Writing a marker -/

theorem at_fanOut (hk : k ∈ keys) (stores : List (ShardId × StoreRef)) (up : Upload) : At keys (fanOut stores k up) := by
  refine only_joinAll fun p hp => ?_
  obtain ⟨st, -, rfl⟩ := List.mem_map.mp hp
  exact only_bind (at_call hk (.inl rfl)) fun _ => only_pure _

theorem at_requireWrites (hk : k ∈ keys) (placed : List ShardId) (errors : List WriteFailure) (n : Nat) (cleanup : Bool) :
    At keys (requireWrites k placed errors n cleanup) := by
  have hclean : At keys (cleanupOrphanedWrites k placed) := by
    refine only_bind (at_look _) fun entry => ?_
    split
    · exact only_pure _
    · refine only_bind (at_look _) fun refs => only_bind (at_look _) fun stores =>
        only_bind (only_joinAll fun p hp => ?_) fun _ => only_pure _
      obtain ⟨st, -, rfl⟩ := List.mem_map.mp hp
      exact only_bind (at_call hk (.inl rfl)) fun _ => only_bind (at_cleanupSidecar hk _ _) fun _ => only_pure _
  unfold requireWrites
  split
  · cases cleanup with
    | true => exact only_bind hclean fun _ => only_pure _
    | false => exact only_pure _
  · exact only_pure _

section Operations

variable [Crates]

theorem at_markWriteFailures (placed failed tried : List ShardId) (location : Key) :
    At keys (markWriteFailures placed failed tried location) := by
  unfold markWriteFailures
  split
  · exact only_bind (only_forM fun x => at_setShardHealth x _) fun _ => only_bind (at_look _) fun _ => only_pure _
  · split
    · refine only_bind (only_forM fun x => only_bind (at_look _) fun h => ?_) fun _ => only_pure _
      split
      · exact at_setShardHealth x _
      · exact only_pure _
    · exact only_pure _

theorem at_writeToShardsInner (hk : k ∈ keys) (data : Bytes) (targets : List ShardId) (n : Nat) (cleanup : Bool) :
    At keys (writeToShardsInner k data targets n cleanup) := by
  unfold writeToShardsInner
  refine only_bind (at_look _) fun stores => only_bind (at_fanOut hk _ _) fun outcomes => ?_
  split
  · refine only_bind (at_markWriteFailures _ _ _ _) fun ids => only_bind (at_look _) fun _ =>
      only_bind (at_fanOut hk _ _) fun retried => ?_
    dsimp only
    split
    · exact only_pure _
    · exact at_requireWrites hk _ _ _ _
  · exact only_bind (at_markWriteFailures _ _ _ _) fun _ => at_requireWrites hk _ _ _ _

theorem at_putDeleteMarker [Chrono] {p : Key} (hpath : Path.fromStr (deleteMarkerKey p) = deleteMarkerKey p) :
    At [deleteMarkerKey p] (putDeleteMarker p) := by
  have hk : deleteMarkerKey p ∈ [deleteMarkerKey p] := List.mem_singleton_self _
  unfold putDeleteMarker
  rw [hpath]
  refine only_bind (only_step fun _ => trivial) fun now => only_bind (at_look _) fun reachable => ?_
  split
  · exact only_pure _
  · refine only_bind (at_look _) fun strict => ?_
    -- what was written is recorded under the marker's key
    have hrecord : ∀ (written : Except Error (List ShardId)) (n : Nat),
        At [deleteMarkerKey p] (recordMarker p n written) := fun written n => by
      cases written with
      | error e => exact only_pure _
      | ok placed => exact only_bind (at_catalogPut hk _ _ _ _) fun _ => only_pure _
    dsimp only
    split
    · exact only_bind (only_bind (at_look _) fun _ => at_writeToShardsInner hk _ _ _ _) fun _ => hrecord _ _
    · exact only_bind (at_writeToShardsInner hk _ _ _ _) fun _ => hrecord _ _

/-! ## Reading -/

theorem at_readOrder (location : Key) : At keys (readOrder location) := by
  have horder : At keys (resolveShards location) := by
    refine only_bind (at_look _) fun entry => only_bind (at_look _) fun raw => only_bind (at_look _) fun pref => ?_
    cases pref with
    | ordered => exact only_pure _
    | roundRobin =>
      refine only_bind ?_ fun _ => only_pure _
      unfold balancedShardOrder
      split
      · exact only_pure _
      · exact only_step fun _ => trivial
  exact only_bind horder fun _ => only_bind (at_look _) fun _ => only_pure _

omit [Crates] in
theorem at_rawReplicas {read : StoreRef → ClusterM (Except StoreError α)} {found : ShardId → StoreRef → α → ClusterM Unit}
    (hread : ∀ r, At keys (read r)) (hfound : ∀ x r a, At keys (found x r a)) (location : Key)
    (l : List (ShardId × StoreRef)) (last : Option StoreError) : At keys (rawReplicas read found location l last) := by
  induction l generalizing last with
  | nil => exact only_pure _
  | cons x l ih =>
    unfold rawReplicas
    refine only_bind (hread _) fun r => ?_
    cases r with
    | ok a => exact only_bind (hfound _ _ _) fun _ => only_pure _
    | error e => exact ih _

theorem at_headRaw (hk : k ∈ keys) : At keys (headRaw k) := by
  refine only_bind (at_readOrder k) fun order => at_rawReplicas (fun _ => at_call hk (.inl rfl)) (fun x r o => ?_) _ _ _
  split
  · exact at_catalogAddReplica hk _ _ _
  · exact only_pure _

theorem at_getRaw (hk : k ∈ keys) : At keys (getRaw k) := by
  refine only_bind (at_readOrder k) fun order => at_rawReplicas (fun _ => at_call hk (.inl rfl)) (fun x r o => ?_) _ _ _
  split
  · exact only_bind (at_call hk (.inl rfl)) fun _ => at_catalogAddReplica hk _ _ _
  · exact only_pure _

theorem at_vacuumMarker {p : Key} (hp : Path.fromStr p = p) (hpath : Path.fromStr (deleteMarkerKey p) = deleteMarkerKey p)
    (done : Vacuumed) (t : DateTime) : At [p, deleteMarkerKey p] (vacuumMarker done (p, t)) := by
  have hk : p ∈ [p, deleteMarkerKey p] := List.mem_cons_self
  have hm : At [p, deleteMarkerKey p] (removeDeleteMarker p) := by
    rw [removeDeleteMarker, hpath]
    exact at_deleteRaw (by simp)
  unfold vacuumMarker
  dsimp only
  rw [hp]
  refine only_bind (at_headRaw hk) fun r => ?_
  cases r with
  | ok o =>
    dsimp only
    split
    · exact only_bind hm fun _ => only_pure _
    · exact only_bind (at_deleteRaw hk) fun _ => only_bind hm fun _ => only_pure _
  | error e => exact only_bind hm fun _ => only_pure _

end Operations

/-! ## Copying and removing -/

theorem at_readMetadataFromShard (hk : k ∈ keys) (store : StoreRef) (x : ShardId) (attributes : FMap String)
    (refs : RawRefRegistry) : At keys (readMetadataFromShard store x k attributes refs) := by
  unfold readMetadataFromShard
  cases refs.kind x with
  | raw =>
    cases refs.get x with
    | none => exact only_pure _
    | some raw => exact only_bind (at_call hk (.inl rfl)) fun _ => only_pure _
  | s3Like => exact only_pure _
  | sidecar => exact only_bind (at_call hk (.inr rfl)) fun _ => only_pure _

theorem at_writeWithMetaToShard (hk : k ∈ keys) (refs : RawRefRegistry) (x : ShardId) (store : StoreRef)
    (data metadata : Bytes) : At keys (writeWithMetaToShard refs x store k data metadata) := by
  unfold writeWithMetaToShard
  split
  · exact at_call hk (.inl rfl)
  · cases refs.kind x with
    | raw =>
      cases refs.get x with
      | none => exact at_call hk (.inl rfl)
      | some raw => exact at_call hk (.inl rfl)
    | s3Like => exact at_call hk (.inl rfl)
    | sidecar =>
      refine only_bind (at_call hk (.inl rfl)) fun r => ?_
      cases r with
      | error e => exact only_pure _
      | ok _ => exact at_call hk (.inr rfl)

theorem at_replicateObject {p : Key} (hp : Path.fromStr p = p) (src dst : ShardId) (refs : Option RawRefRegistry) :
    At [p] (replicateObject p src dst refs) := by
  have hk : p ∈ [p] := List.mem_singleton_self p
  unfold replicateObject
  rw [hp]
  refine only_bind (at_look _) fun stores => ?_
  cases stores with
  | none => exact only_pure _
  | some stores =>
    refine only_bind (at_call hk (.inl rfl)) fun r => ?_
    cases r with
    | error e => exact only_pure _
    | ok o =>
      -- the copy, with the metadata that was found or without
      have hwrite : ∀ (m : Option Bytes) (w : ClusterM (Except StoreError Unit)), At [p] w →
          At [p] (w >>= listCopy p dst o.body.length (UInt16.ofNat (m.getD []).length)) := fun m w hw => by
        refine only_bind hw fun r => ?_
        cases r with
        | error e => exact only_pure _
        | ok _ => exact only_bind (at_catalogAddReplica hk _ _ _) fun _ => only_pure _
      cases refs with
      | none => exact hwrite none _ (at_call hk (.inl rfl))
      | some refs =>
        refine only_bind (at_readMetadataFromShard hk _ _ _ _) fun m => ?_
        cases m with
        | none => exact hwrite none _ (at_call hk (.inl rfl))
        | some m => exact hwrite (some m) _ (at_writeWithMetaToShard hk _ _ _ _ _)

theorem at_removeReplica {p : Key} (hp : Path.fromStr p = p) (x : ShardId) : At [p] (removeReplica p x) := by
  have hk : p ∈ [p] := List.mem_singleton_self p
  unfold removeReplica
  rw [hp]
  refine only_bind (at_look _) fun store => ?_
  cases store with
  | none => exact only_pure _
  | some store =>
    refine only_bind (at_look _) fun refs => only_bind (at_cleanupSidecar hk _ _) fun _ =>
      only_bind (at_call hk (.inl rfl)) fun r => ?_
    cases r with
    | error e => exact only_pure _
    | ok _ => exact only_bind (at_catalogRemoveShard hk x) fun _ => only_pure _

theorem at_readRepair {r : ReadRepair} (hp : Path.fromStr r.key = r.key) : At [r.key] (readRepair r) := by
  have hk : r.key ∈ [r.key] := List.mem_singleton_self _
  unfold readRepair
  rw [hp]
  refine only_bind (at_call hk (.inl rfl)) fun o => ?_
  cases o with
  | error e => exact only_pure _
  | ok o =>
    have hlist : ∀ (written : Except StoreError Unit) (n : Nat) (ml : UInt16),
        At [r.key] (listRepaired r n ml written) := fun written n ml => by
      cases written with
      | error e => exact only_pure _
      | ok _ => exact at_catalogAddReplica hk _ _ _
    refine only_bind (at_look _) fun refs => ?_
    cases refs with
    | none =>
      exact only_bind (only_pure _) fun _ => only_bind (at_call hk (.inl rfl)) fun _ => hlist _ _ _
    | some refs =>
      exact only_bind (at_readMetadataFromShard hk _ _ _ _) fun _ =>
        only_bind (at_writeWithMetaToShard hk _ _ _ _ _) fun _ => hlist _ _ _

/-! ## Calls that were made -/

/-- A run with a result in `ok` has made such a call, and it did not fail. -/
def Reaches (p : ClusterM α) (ok : α → Prop) (kind : Call) (key : Key) : Prop :=
  ∀ s, p.wp (fun a _ t => ok a → ∃ st, Event.call st kind key none ∈ events t) s

variable {ok : α → Prop} {ok' : β → Prop} {kind : Call}

theorem reaches_pure {a : α} (h : ¬ ok a) : Reaches (pure a) ok kind k := fun _ ha => absurd ha h

theorem reaches_call (r : StoreRef) (f : Store → Except StoreError α × Store) :
    Reaches (r.call kind k f) (fun a => failure a = none) kind k := by
  intro s
  cases r with
  | none => exact fun h => by cases h
  | some id =>
    intro h
    refine ⟨id, ?_⟩
    show Event.call id kind k none ∈ [Event.call id kind k (failure (f (s.stores id)).1)]
    have h' : failure (f (s.stores id)).1 = none := h
    simp [h']

theorem reaches_after {p : ClusterM α} {g : α → ClusterM β} (h : ∀ a, Reaches (g a) ok' kind k) :
    Reaches (p >>= g) ok' kind k := by
  intro s
  rw [wp_bind]
  intro hok
  obtain ⟨st, hst⟩ := h (p.exec s).1 (p.exec s).2 hok
  exact ⟨st, by rw [events_append]; exact List.mem_append_right _ hst⟩

/-- What follows the call turns only its success into a result. -/
theorem reaches_before {p : ClusterM α} {g : α → ClusterM β} (h : Reaches p ok kind k)
    (hg : ∀ a s, (g a).wp (fun b _ _ => ok' b → ok a) s) : Reaches (p >>= g) ok' kind k := by
  intro s
  rw [wp_bind]
  intro hok
  obtain ⟨st, hst⟩ := h s (hg _ _ hok)
  exact ⟨st, by rw [events_append]; exact List.mem_append_left _ hst⟩

theorem reaches_putMeta (refs : RawRefRegistry) (x : ShardId) (store : StoreRef) (data metadata : Bytes) :
    Reaches (writeWithMetaToShard refs x store k data metadata) (fun r => failure r = none) .put k := by
  unfold writeWithMetaToShard
  split
  · exact reaches_call _ _
  · cases refs.kind x with
    | raw =>
      cases refs.get x with
      | none => exact reaches_call _ _
      | some raw => exact reaches_call _ _
    | s3Like => exact reaches_call _ _
    | sidecar =>
      refine reaches_before (reaches_call _ _) fun r s => ?_
      cases r with
      | error e => exact fun h => by cases h
      | ok _ => exact fun _ => rfl

theorem reaches_replicateObject {p : Key} (hp : Path.fromStr p = p) (src dst : ShardId) (refs : Option RawRefRegistry) :
    Reaches (replicateObject p src dst refs) (fun r => ∃ n, r = .ok n) .put p := by
  unfold replicateObject
  rw [hp]
  refine reaches_after fun stores => ?_
  cases stores with
  | none => exact reaches_pure (by simp)
  | some stores =>
    refine reaches_after fun r => ?_
    cases r with
    | error e => exact reaches_pure (by simp)
    | ok o =>
      have hwrite : ∀ (m : Option Bytes) (w : ClusterM (Except StoreError Unit)), Reaches w (fun r => failure r = none) .put p →
          Reaches (w >>= listCopy p dst o.body.length (UInt16.ofNat (m.getD []).length)) (fun r => ∃ n, r = .ok n) .put p :=
        fun m w hw => by
        refine reaches_before hw fun r s => ?_
        cases r with
        | error e => exact fun h => by obtain ⟨n, h⟩ := h; cases h
        | ok _ => exact fun _ => rfl
      cases refs with
      | none => exact hwrite none _ (reaches_call _ _)
      | some refs =>
        refine reaches_after fun m => ?_
        cases m with
        | none => exact hwrite none _ (reaches_call _ _)
        | some m => exact hwrite (some m) _ (reaches_putMeta _ _ _ _ _)

theorem reaches_removeReplica {p : Key} (hp : Path.fromStr p = p) (x : ShardId) :
    Reaches (removeReplica p x) (fun r => r = .ok ()) .delete p := by
  unfold removeReplica
  rw [hp]
  refine reaches_after fun store => ?_
  cases store with
  | none => exact reaches_pure (by simp)
  | some store =>
    refine reaches_after fun refs => reaches_after fun _ => reaches_before (reaches_call _ _) fun r s => ?_
    cases r with
    | error e => exact fun h => by cases h
    | ok _ => exact fun _ => rfl

theorem reaches_rawReplicas {read : StoreRef → ClusterM (Except StoreError α)}
    (hread : ∀ r, Reaches (read r) (fun a => failure a = none) kind k) (found : ShardId → StoreRef → α → ClusterM Unit)
    (location : Key) (l : List (ShardId × StoreRef)) (last : Option StoreError) :
    Reaches (rawReplicas read found location l last) (fun r => ∃ a, r = .ok a) kind k := by
  induction l generalizing last with
  | nil => exact reaches_pure (by simp)
  | cons x l ih =>
    unfold rawReplicas
    intro s
    rw [wp_bind]
    refine wp_mono (hread x.2 s) fun r s1 t1 h1 => ?_
    cases r with
    | ok a => exact fun _ => (h1 rfl).imp fun st hst => by rw [events_append]; exact List.mem_append_left _ hst
    | error e =>
      refine wp_mono (ih (some e) s1) fun r s2 t2 h2 hok => ?_
      exact (h2 hok).imp fun st hst => by rw [events_append]; exact List.mem_append_right _ hst

/-- The shard took a write. -/
theorem mem_of_took {c : Cluster} {es : List Event} {x : ShardId} (h : TookLast c k es x) :
    Event.call (c.config.storeOf x) .put k none ∈ es := by
  have hmem : none ∈ writesTo (c.config.storeOf x) k es := List.mem_of_getLast? h
  obtain ⟨e, he, hw⟩ := List.mem_filterMap.mp hmem
  split at hw
  · next id key f =>
    split at hw
    · next heq =>
      rw [← heq.1, ← heq.2, ← Option.some.inj hw]
      exact he
    · cases hw
  · cases hw

section Law

variable [Crates] [Chrono]

theorem reaches_getDeleteMarker {p : Key} (hpath : Path.fromStr (deleteMarkerKey p) = deleteMarkerKey p) :
    Reaches (getDeleteMarker p) (fun t => t.isSome) .get (deleteMarkerKey p) := by
  unfold getDeleteMarker getRaw
  rw [hpath]
  refine reaches_before (reaches_after fun order => reaches_rawReplicas (fun r => reaches_call r _) _ _ _ _) fun r s => ?_
  cases r with
  | ok o => exact fun _ => ⟨o, rfl⟩
  | error e => exact fun h => by cases h

theorem reaches_putDeleteMarker {p : Key} (hpath : Path.fromStr (deleteMarkerKey p) = deleteMarkerKey p) :
    Reaches (putDeleteMarker p) (fun r => r = .ok ()) .put (deleteMarkerKey p) := by
  unfold putDeleteMarker
  rw [hpath]
  refine reaches_after fun now => ?_
  intro s
  dsimp only
  rw [wp_bind, wp_look]
  set reachable := (List.range s.cluster.shards.length).filter fun id => s.cluster.available id with hreach
  have hnd : reachable.Nodup := List.nodup_range.filter _
  have hlt : reachable.filter (· < s.cluster.shards.length) = reachable := by
    refine List.filter_eq_self.mpr fun x hx => ?_
    simpa using List.mem_range.mp (List.mem_filter.mp hx).1
  have hplaced : ∀ {n : Nat} {cleanup : Bool} {placed : List ShardId} {s' : Sys} {es : List Event}, 1 ≤ n →
      WroteTo (deleteMarkerKey p) (Chrono.toRfc3339 now) n cleanup s (.ok placed) s' es →
      ∃ st, Event.call st .put (deleteMarkerKey p) none ∈ es := fun hn h => by
    obtain ⟨x, hx⟩ := List.exists_mem_of_length_pos (hn.trans h.2)
    exact ⟨_, mem_of_took (h.1.took x hx)⟩
  split
  · exact fun h => by cases h
  next hne =>
  rw [List.isEmpty_iff, ← hlt] at hne
  -- what was written is recorded, and that is the result
  have hrecord : ∀ (w : ClusterM (Except Error (List ShardId))) (n : Nat),
      w.wp (fun r s' t => ∀ placed, r = .ok placed → ∃ st, Event.call st .put (deleteMarkerKey p) none ∈ events t) s →
      (w >>= recordMarker p n).wp
        (fun r _ t => r = .ok () → ∃ st, Event.call st .put (deleteMarkerKey p) none ∈ events t) s := fun w n hw => by
    rw [wp_bind]
    refine wp_mono hw fun r s1 t1 h1 => ?_
    cases r with
    | error e => exact fun h => by cases h
    | ok placed =>
      intro _
      obtain ⟨st, hst⟩ := h1 placed rfl
      exact ⟨st, by rw [events_append]; exact List.mem_append_left _ hst⟩
  rw [wp_bind, wp_look]
  have hlift : ∀ {m : ClusterM (Except Error Unit)},
      m.wp (fun r _ t => r = .ok () → ∃ st, Event.call st .put (deleteMarkerKey p) none ∈ events t) s →
      m.wp (fun r _ t => r = .ok () → ∃ st, Event.call st .put (deleteMarkerKey p) none ∈
        events ([(s, Event.other, s)] ++ ([(s, Event.other, s)] ++ t))) s := fun hm => by
    refine wp_mono hm fun r s1 t1 h1 hok => ?_
    obtain ⟨st, hst⟩ := h1 hok
    exact ⟨st, by simp only [events_append, List.mem_append]; exact .inr (.inr hst)⟩
  refine hlift ?_
  split
  · refine hrecord _ _ (wp_mono (wp_writeToShards hnd hne) fun r s1 t1 h1 placed hr => ?_)
    subst hr
    exact hplaced s.cluster.config.one_le_minWrites h1
  · refine hrecord _ _ (wp_mono (wp_writeToShardsInner hnd hne 1 false) fun r s1 t1 h1 placed hr => ?_)
    subst hr
    exact hplaced (le_refl 1) h1

/-! ## The law -/

/-- Every operation on a key goes to the path that is the key, or to the one marker of the key. -/
structure AddressedAlike (p : Key) : Prop where
  /-- What has been put is listed at its path. -/
  listed : ∀ (s : Sys) (payload : Bytes), ((put p payload).exec s).1 = .ok () →
    ∃ item ∈ ((list none).exec ((put p payload).exec s).2).1, item.1 = p ∧ item.2.size = payload.length
  marker_written : At [deleteMarkerKey p] (putDeleteMarker p) ∧
    Reaches (putDeleteMarker p) (fun r => r = .ok ()) .put (deleteMarkerKey p)
  marker_read : At [deleteMarkerKey p] (getDeleteMarker p) ∧
    Reaches (getDeleteMarker p) (fun t => t.isSome) .get (deleteMarkerKey p)
  marker_dropped : At [deleteMarkerKey p] (removeDeleteMarker p)
  marker_listed : ∀ c : Catalog, (c.get (deleteMarkerKey p)).isSome → p ∈ c.markedKeys
  vacuumed : ∀ done t, At [p, deleteMarkerKey p] (vacuumMarker done (p, t))
  copied : ∀ src dst refs, At [p] (replicateObject p src dst refs) ∧
    Reaches (replicateObject p src dst refs) (fun r => ∃ n, r = .ok n) .put p
  removed : ∀ x, At [p] (removeReplica p x) ∧ Reaches (removeReplica p x) (fun r => r = .ok ()) .delete p
  repaired : ∀ r : ReadRepair, r.key = p → At [p] (readRepair r)

omit [Crates] [Chrono] in
/-- The item that a listing makes of an entry. -/
theorem mem_list {s : Sys} {p : Key} {e : PlacementEntry} (h : s.cluster.catalog.get p = some e)
    (hm : isDeleteMarker (Path.fromStr p) = false) : (Path.fromStr p, e) ∈ ((list none).exec s).1 := by
  have hmem : (⟨p, e⟩ : Sigma fun _ : Key => PlacementEntry) ∈ s.cluster.catalog.inner.entries :=
    AList.mem_lookup_iff.mp h
  refine List.mem_filter.mpr ⟨?_, by simp [hm]⟩
  exact List.mem_map.mpr ⟨_, List.mem_filter.mpr ⟨hmem, rfl⟩, rfl⟩

omit [Chrono] in
theorem listed_of_put {p : Key} (hp : Path.fromStr p = p) (hm : isDeleteMarker p = false) (s : Sys) (payload : Bytes)
    (hok : ((put p payload).exec s).1 = .ok ()) :
    ∃ item ∈ ((list none).exec ((put p payload).exec s).2).1, item.1 = p ∧ item.2.size = payload.length := by
  have h : (put p payload).wp (fun r s' t => PutTo p payload s r s' (events t)) s := wp_put payload
  unfold wp at h
  rw [hok] at h
  obtain ⟨mid, placed, hw, hrec⟩ := h
  obtain ⟨e, hq, -⟩ := hrec.onQuorum hw
  refine ⟨(p, e), ?_, rfl, hq.size⟩
  have h1 := mem_list hq.listed (by rwa [hp])
  rwa [hp] at h1

omit [Crates] [Chrono] in
theorem mem_markedKeys {p : Key} (hpath : Path.fromStr (deleteMarkerKey p) = deleteMarkerKey p) (c : Catalog)
    (h : (c.get (deleteMarkerKey p)).isSome) : p ∈ c.markedKeys := by
  obtain ⟨e, he⟩ := Option.isSome_iff_exists.mp h
  have hmem : (⟨deleteMarkerKey p, e⟩ : Sigma fun _ : Key => PlacementEntry) ∈ c.inner.entries :=
    AList.mem_lookup_iff.mp he
  have htext : (deleteMarkerKey p).toList = deleteMarkerPrefix.toList ++ p.toList := by
    rw [deleteMarkerKey, String.toList_append]
  refine List.mem_filterMap.mpr ⟨(Path.fromStr (deleteMarkerKey p), e), ?_, ?_⟩
  · refine List.mem_map.mpr ⟨_, List.mem_filter.mpr ⟨hmem, ?_⟩, rfl⟩
    have hpre : (Path.fromStr deleteMarkerPrefix).toList <+: deleteMarkerPrefix.toList := by decide
    simpa [htext] using hpre.trans (List.prefix_append _ _)
  · rw [hpath, markedKey, isDeleteMarker, htext]
    simp [String.ofList_toList]

omit [Crates] [Chrono] in
/-- Dropping the marker changes the catalog at the path of the marker. -/
theorem fromStr_of_marker_dropped {p : Key} (h : At [deleteMarkerKey p] (removeDeleteMarker p)) :
    Path.fromStr (deleteMarkerKey p) = deleteMarkerKey p := by
  -- in a cluster without shards, nothing is deleted before the entry goes
  have hlast : ((removeDeleteMarker p).steps (Sample.sys 0 (Sample.config 1 1) fun _ => Sample.fresh)).getLast?.map (·.2.1) =
      some (.removed (Path.fromStr (deleteMarkerKey p)) none) := rfl
  obtain ⟨e, he, hlabel⟩ := Option.map_eq_some_iff.mp hlast
  have hat := h.steps _ e (List.mem_of_getLast? he)
  rw [hlabel] at hat
  exact List.mem_singleton.mp hat

omit [Chrono] in
/-- A put on a fresh cluster of one shard succeeds. -/
theorem put_on_single_shard (p : Key) (payload : Bytes) {s : Sys}
    (h : s = Sample.sys 1 (Sample.config 1 1) fun _ => Sample.fresh) : ((put p payload).exec s).1 = .ok () := by
  have hro : s.cluster.config.readOnly = false := by rw [h]; rfl
  have htakers : s.takers every p = [0] := by rw [h]; rfl
  have hmin : s.cluster.config.minWrites = 1 := by rw [h]; rfl
  rw [(putAs_put hro).enough (by rw [htakers, hmin]; rfl)]

/-- The operations agree on a path if and only if it is neither the root nor a marker's, and `Path::from`
    keeps all its characters. -/
theorem keys_are_addressed_alike_iff (p : Key) (hp : Path.IsPath p) :
    AddressedAlike p ↔ p ≠ "" ∧ isDeleteMarker p = false ∧ ∀ c ∈ p.toList, c = '/' ∨ Path.keeps c = true := by
  rw [← Path.fromStr_eq_iff hp]
  constructor
  · intro h
    have hpath := fromStr_of_marker_dropped h.marker_dropped
    obtain ⟨hne, hkeep⟩ := (Path.fromStr_deleteMarkerKey_eq_iff p).mp hpath
    refine ⟨hne, ?_, hkeep⟩
    obtain ⟨s, hs⟩ : ∃ s, s = Sample.sys 1 (Sample.config 1 1) fun _ => Sample.fresh := ⟨_, rfl⟩
    obtain ⟨item, hitem, hloc, -⟩ := h.listed s [] (put_on_single_shard p [] hs)
    rw [← hloc]
    simpa using (List.mem_filter.mp hitem).2
  · intro h
    obtain ⟨hne, hm, hkeep⟩ := h
    have hpath := (Path.fromStr_deleteMarkerKey_eq_iff p).mpr ⟨hne, hkeep⟩
    have hmem : deleteMarkerKey p ∈ [deleteMarkerKey p] := List.mem_singleton_self _
    refine ⟨listed_of_put hkeep hm, ⟨at_putDeleteMarker hpath, reaches_putDeleteMarker hpath⟩, ⟨?_, reaches_getDeleteMarker hpath⟩,
      ?_, mem_markedKeys hpath, at_vacuumMarker hkeep hpath, fun src dst refs => ⟨at_replicateObject hkeep src dst refs,
        reaches_replicateObject hkeep src dst refs⟩, fun x => ⟨at_removeReplica hkeep x, reaches_removeReplica hkeep x⟩, ?_⟩
    · unfold getDeleteMarker
      rw [hpath]
      exact only_bind (at_getRaw hmem) fun _ => only_pure _
    · rw [removeDeleteMarker, hpath]
      exact at_deleteRaw hmem
    · rintro r rfl
      exact at_readRepair hkeep

end Law

open Sample Raw.Sample in
theorem plain_key_is_addressed_alike : Path.IsPath "dir/file" ∧ AddressedAlike "dir/file" :=
  have hp : Path.IsPath "dir/file" := (Path.isPath_iff _).mp (by decide +kernel)
  have hkeep : ("dir/file".toList.all fun c => c == '/' || Path.keeps c) = true := by decide +kernel
  ⟨hp, (keys_are_addressed_alike_iff "dir/file" hp).mpr ⟨by decide +kernel, by decide +kernel, fun c hc => by
    simpa using List.all_eq_true.mp hkeep c hc⟩⟩

/-! ## A key that is encoded already -/

open Sample Raw.Sample in
/-- The object `a%23b` is put, and listed as `a%2523b`. -/
theorem an_encoded_key_is_listed_under_another_name : ¬ ∀ p, Path.IsPath p → AddressedAlike p := by
  intro h
  obtain ⟨s, hs⟩ : ∃ s, s = sys 1 (config 1 1) fun _ => fresh := ⟨_, rfl⟩
  obtain ⟨item, hitem, hloc, -⟩ := (h "a%23b" ((Path.isPath_iff _).mp (by decide +kernel))).listed s [1] (put_on_single_shard _ _ hs)
  have hlist : ((list none).exec ((put "a%23b" [1]).exec s).2).1.map (·.1) = ["a%2523b"] := by
    rw [hs]
    decide +kernel
  have hmem : item.1 ∈ ["a%2523b"] := hlist ▸ List.mem_map_of_mem hitem
  rw [hloc] at hmem
  exact absurd hmem (by decide)

end ObjStr.Sharded
