/-
  ObjStr.Sharded.Looks — what reading a key changes: no object, no write and no delete, and no entry
  but the key's own (`Looked`). A key that no shard holds is not found.
-/

import ObjStr.Sharded.MetaWrites

namespace ObjStr.Sharded

open ObjStr.Lib ObjStr.Raw Proc

/-! ## The frame of a read -/

structure Looked (k : Key) (s s' : Sys) : Prop where
  objects : ∀ st, (s'.stores st).objects = (s.stores st).objects
  calls : ∀ st c, c ≠ .get → c ≠ .head → (s'.stores st).outcomes c = (s.stores st).outcomes c
  same : SameRefs s.cluster s'.cluster
  health : ∀ x, s'.cluster.healthOf x = s.cluster.healthOf x
  catalog : ∀ k', k' ≠ k → s'.cluster.catalog.get k' = s.cluster.catalog.get k'

theorem Looked.refl (k : Key) (s : Sys) : Looked k s s :=
  ⟨fun _ => rfl, fun _ _ _ _ => rfl, .refl _, fun _ => rfl, fun _ _ => rfl⟩

theorem Looked.trans {k : Key} {s s' s'' : Sys} (h : Looked k s s') (h' : Looked k s' s'') : Looked k s s'' where
  objects := fun st => (h'.objects st).trans (h.objects st)
  calls := fun st c h1 h2 => (h'.calls st c h1 h2).trans (h.calls st c h1 h2)
  same := h.same.trans h'.same
  health := fun x => (h'.health x).trans (h.health x)
  catalog := fun k' hk => (h'.catalog k' hk).trans (h.catalog k' hk)

def Looks {α : Type} (k : Key) (p : ClusterM α) : Prop := ∀ s, p.wp (fun _ s' _ => Looked k s s') s

namespace Looks

variable {α β : Type} {k : Key}

theorem pure (a : α) : Looks k (pure a : ClusterM α) := fun s => Looked.refl k s

theorem bind {p : ClusterM α} {g : α → ClusterM β} (hp : Looks k p) (hg : ∀ a, Looks k (g a)) : Looks k (p >>= g) := by
  intro s
  rw [wp_bind]
  refine wp_mono (hp s) fun a s1 _ h1 => ?_
  exact wp_mono (hg a s1) fun b s2 _ h2 => h1.trans h2

theorem look (f : Sys → α) : Looks k (Sharded.look f) := fun s => Looked.refl k s

theorem forM {ι : Type} {l : List ι} {f : ι → ClusterM PUnit} (hf : ∀ i, Looks k (f i)) : Looks k (l.forM f) := by
  induction l with
  | nil => exact pure _
  | cons i l ih => exact bind (hf i) fun _ => ih

end Looks

variable {k : Key}

/-- A `get` or a `head` of a store. -/
theorem looks_onStore {α : Type} {id : StoreId} {kind : Call} {key : Key} {f : Store → Except StoreError α × Store}
    (hf : ∀ st, (f st).2 = st.next .get ∨ (f st).2 = st.next .head) : Looks k (onStore id kind key f) := by
  intro s
  simp only [onStore, wp_step]
  have hnext : ∀ c, c ≠ .get → c ≠ .head → (f (s.stores id)).2.outcomes c = (s.stores id).outcomes c := by
    intro c h1 h2
    rcases hf (s.stores id) with h | h
    · rw [h]
      simp [Store.next, h1]
    · rw [h]
      simp [Store.next, h2]
  have hobj : (f (s.stores id)).2.objects = (s.stores id).objects := by
    rcases hf (s.stores id) with h | h
    · rw [h]
      rfl
    · rw [h]
      rfl
  refine ⟨fun st => ?_, fun st c h1 h2 => ?_, .refl _, fun _ => rfl, fun _ _ => rfl⟩
  · by_cases hs : st = id
    · subst hs
      simp only [Function.update_self, hobj]
    · simp only [Function.update_of_ne hs]
  · by_cases hs : st = id
    · subst hs
      simp only [Function.update_self]
      exact hnext c h1 h2
    · simp only [Function.update_of_ne hs]

theorem Store.get_next (key : Key) (st : Store) : (st.get key).2 = st.next .get := by
  unfold Store.get
  cases st.outcome .get with
  | some e => rfl
  | none => cases st.objects.lookup key <;> rfl

theorem Store.head_next (key : Key) (st : Store) : (st.head key).2 = st.next .head := by
  unfold Store.head
  cases st.outcome .head with
  | some e => rfl
  | none => cases st.objects.lookup key <;> rfl

theorem looks_get (r : StoreRef) (key : Key) : Looks k (r.get key) := by
  cases r with
  | none => exact .pure _
  | some id => exact looks_onStore fun st => .inl (st.get_next key)

theorem looks_head (r : StoreRef) (key : Key) : Looks k (r.head key) := by
  cases r with
  | none => exact .pure _
  | some id => exact looks_onStore fun st => .inr (st.head_next key)

theorem looks_balancedShardOrder (ids : List ShardId) : Looks k (balancedShardOrder ids) := by
  unfold balancedShardOrder
  split
  · exact .pure _
  · exact fun s => ⟨fun _ => rfl, fun _ _ _ _ => rfl, ⟨rfl, rfl⟩, fun _ => rfl, fun _ _ => rfl⟩

theorem looks_addReplica (x : ShardId) (size : Nat) (ml : UInt16) : Looks k (catalogAddReplica k x size ml) := by
  intro s
  rw [catalogAddReplica, wp_step]
  refine ⟨fun _ => rfl, fun _ _ _ _ => rfl, ⟨rfl, rfl⟩, fun _ => rfl, fun k' hk => ?_⟩
  show (s.cluster.catalog.addReplica k x size ml s.now).get k' = _
  rw [Catalog.get_addReplica, if_neg hk]

theorem looks_removeShard (x : ShardId) : Looks k (catalogRemoveShard k x) := by
  intro s
  rw [catalogRemoveShard, wp_step]
  exact ⟨fun _ => rfl, fun _ _ _ _ => rfl, ⟨rfl, rfl⟩, fun _ => rfl, fun k' hk => Catalog.get_removeShard_ne _ _ _ _ hk⟩

theorem looks_scheduleReadRepair (good bad : ShardId) : Looks k (scheduleReadRepair k good bad) := by
  intro s
  rw [scheduleReadRepair, wp_step]
  dsimp only
  split
  · exact ⟨fun _ => rfl, fun _ _ _ _ => rfl, ⟨rfl, rfl⟩, fun _ => rfl, fun _ _ => rfl⟩
  · exact Looked.refl k s

theorem looks_handleReadError (x : ShardId) (e : StoreError) : Looks k (handleReadError x k e) := by
  unfold handleReadError
  split
  · exact .pure _
  · refine .bind (fun s => ?_) fun known => ?_
    · rw [wp_step]
      refine ⟨fun _ => rfl, fun _ _ _ _ => rfl, ⟨rfl, attached_modify _ _ _ fun _ => rfl⟩, fun y => ?_, fun _ _ => rfl⟩
      show ((s.cluster.shards.modify x _)[y]?).map _ = (s.cluster.shards[y]?).map _
      rw [List.getElem?_modify]
      cases s.cluster.shards[y]? with
      | none => rfl
      | some i => by_cases hx : x = y <;> simp [hx]
    · split
      · exact .bind (looks_removeShard x) fun _ => .pure _
      · exact .pure _

theorem looks_foundOnShard (store : StoreRef) (x : ShardId) (refs : Option RawRefRegistry) :
    Looks k (foundOnShard store x k refs) := by
  have hend : ∀ hit : Option Object, Looks k (sizesFound store k hit) := by
    intro hit
    cases hit with
    | some o => exact .pure _
    | none => exact .bind (looks_head _ _) fun _ => .pure _
  unfold foundOnShard
  cases refs.bind (·.get x) with
  | none => exact hend none
  | some raw => exact .bind (looks_head _ _) fun r => hend r.toOption

theorem looks_readReplicas (isFallback : Bool) (refs : Option RawRefRegistry) (l : List (ShardId × StoreRef)) :
    ∀ bad e, Looks k (readReplicas k isFallback refs l bad e) := by
  induction l with
  | nil => exact fun bad e => .pure _
  | cons a l ih =>
    intro bad e
    unfold readReplicas
    refine .bind (looks_get _ _) fun r => ?_
    cases r with
    | ok o =>
      dsimp only
      split
      · refine .bind (looks_foundOnShard _ _ _) fun r => ?_
        exact .bind (looks_addReplica _ _ _) fun _ => .bind (.forM fun b => looks_scheduleReadRepair _ _) fun _ => .pure _
      · exact .bind (.forM fun b => looks_scheduleReadRepair _ _) fun _ => .pure _
    | error e => exact .bind (looks_handleReadError _ _) fun _ => ih _ _

section Reads

variable [Crates]

theorem looks_resolveShards (key : Key) : Looks k (resolveShards key) := by
  unfold resolveShards
  refine .bind (.look _) fun entry => .bind (.look _) fun raw => .bind (.look _) fun pref => ?_
  cases pref with
  | ordered => exact .pure _
  | roundRobin => exact .bind (looks_balancedShardOrder _) fun _ => .pure _

theorem looks_readOrder (key : Key) : Looks k (readOrder key) :=
  .bind (looks_resolveShards key) fun _ => .bind (.look _) fun _ => .pure _

theorem looks_clusterGet (k : Key) : Looks k (get k) := by
  unfold get
  split
  · exact .pure _
  · exact .bind (looks_readOrder k) fun _ => .bind (.look _) fun _ => looks_readReplicas _ _ _ _ _

omit [Crates] in
theorem looks_metadataFrom (refs : RawRefRegistry) (key : Key) (ids : List ShardId) :
    Looks k (metadataFrom refs key ids) := by
  induction ids with
  | nil => exact .pure _
  | cons x ids ih =>
    unfold metadataFrom
    cases refs.get x with
    | some raw =>
      refine .bind (looks_get _ _) fun r => ?_
      cases r with
      | ok o => exact .pure _
      | error e => exact ih
    | none =>
      refine .bind (.look _) fun store => ?_
      cases store with
      | none => exact ih
      | some store =>
        dsimp only
        cases refs.kind x with
        | s3Like =>
          refine .bind (looks_get _ _) fun r => ?_
          cases r with
          | ok o => exact .pure _
          | error e => exact ih
        | sidecar =>
          refine .bind (looks_get _ _) fun r => ?_
          cases r with
          | ok o => exact .pure _
          | error e => exact ih
        | raw => exact .pure _

theorem looks_readObjectMetadata (key : Key) (attributes : FMap String) : Looks k (readObjectMetadata key attributes) := by
  unfold readObjectMetadata
  refine .bind (.look _) fun refs => ?_
  cases refs with
  | none => exact .pure _
  | some refs =>
    refine .bind (.look _) fun entry => ?_
    split
    · exact .pure _
    · refine .bind ?_ fun r => ?_
      · unfold getMetadata
        split
        · exact .pure _
        · exact .bind (looks_resolveShards key) fun _ => looks_metadataFrom _ _ _
      · cases r with
        | ok b => exact .pure _
        | error e => exact .pure _

/-! ## What is not there is not found -/

/-- The key has no entry, and no shard stores it. -/
structure Absent (s : Sys) (k : Key) : Prop where
  entry : s.cluster.catalog.get k = none
  stored : ∀ x < s.cluster.shards.length, (s.stores (s.cluster.config.storeOf x)).objects.lookup k = none

def Lacks (s : Sys) (k : Key) (l : List (ShardId × StoreRef)) : Prop :=
  ∀ a ∈ l, ∀ st, a.2 = some st → (s.stores st).objects.lookup k = none

omit [Crates] in
theorem Lacks.looked {s s' : Sys} {l l' : List (ShardId × StoreRef)} (h : Lacks s k l) (hl : ∀ a ∈ l', a ∈ l)
    (hs : Looked k s s') : Lacks s' k l' := fun a ha st hst => by
  rw [hs.objects]
  exact h a (hl a ha) st hst

omit [Crates] in
theorem wp_get_lacks {s : Sys} {r : StoreRef} (h : ∀ st, r = some st → (s.stores st).objects.lookup k = none) :
    (StoreRef.get r k).wp (fun o _ _ => ∃ e, o = .error e) s := by
  cases r with
  | none => exact ⟨_, rfl⟩
  | some st =>
    simp only [StoreRef.get, StoreRef.call, onStore, wp_step, Store.get, h st rfl]
    cases (s.stores st).outcome .get with
    | some e => exact ⟨e, rfl⟩
    | none => exact ⟨_, rfl⟩

omit [Crates] in
theorem wp_head_lacks {s : Sys} {r : StoreRef} (h : ∀ st, r = some st → (s.stores st).objects.lookup k = none) :
    (StoreRef.head r k).wp (fun o _ _ => ∃ e, o = .error e) s := by
  cases r with
  | none => exact ⟨_, rfl⟩
  | some st =>
    simp only [StoreRef.head, StoreRef.call, onStore, wp_step, Store.head, h st rfl]
    cases (s.stores st).outcome .head with
    | some e => exact ⟨e, rfl⟩
    | none => exact ⟨_, rfl⟩

omit [Crates] in
theorem wp_readReplicas_lacks (isFallback : Bool) (refs : Option RawRefRegistry) (l : List (ShardId × StoreRef)) :
    ∀ bad e s, Lacks s k l → (readReplicas k isFallback refs l bad e).wp (fun o _ _ => ∃ e, o = .error e) s := by
  induction l with
  | nil => exact fun bad e s _ => ⟨_, rfl⟩
  | cons a l ih =>
    intro bad e s hl
    unfold readReplicas
    rw [wp_bind]
    refine wp_mono (wp_and (wp_get_lacks (hl a List.mem_cons_self)) (@looks_get k a.2 k s)) fun o s1 t1 h1 => ?_
    obtain ⟨⟨e1, rfl⟩, h1⟩ := h1
    rw [wp_bind]
    refine wp_mono (looks_handleReadError a.1 e1 s1) fun crc s2 t2 h2 => ?_
    exact ih _ _ s2 (hl.looked (fun b hb => List.mem_cons_of_mem a hb) (h1.trans h2))

omit [Crates] in
theorem wp_headReplicas_lacks (isFallback : Bool) (refs : Option RawRefRegistry) (l : List (ShardId × StoreRef)) :
    ∀ e s, Lacks s k l → (headReplicas k isFallback refs l e).wp (fun o _ _ => ∃ e, o = .error e) s := by
  induction l with
  | nil => exact fun e s _ => ⟨_, rfl⟩
  | cons a l ih =>
    intro e s hl
    unfold headReplicas
    rw [wp_bind]
    refine wp_mono (wp_and (wp_head_lacks (hl a List.mem_cons_self)) (@looks_head k a.2 k s)) fun o s1 t1 h1 => ?_
    obtain ⟨⟨e1, rfl⟩, h1⟩ := h1
    exact ih _ s1 (hl.looked (fun b hb => List.mem_cons_of_mem a hb) h1)

/-- The error of a read is a shard's, or that the key is not found. -/
def ReadError (k : Key) (e : Error) : Prop := e = .notFound k ∨ ∃ se, e = .store se

omit [Crates] in
theorem wp_readReplicas_error (isFallback : Bool) (refs : Option RawRefRegistry) (l : List (ShardId × StoreRef)) :
    ∀ bad e s, (readReplicas k isFallback refs l bad e).wp (fun o _ _ => ∀ e, o = .error e → ReadError k e) s := by
  induction l with
  | nil =>
    intro bad e s
    unfold readReplicas
    rw [wp_pure]
    intro e' he
    obtain rfl := Except.error.inj he
    cases e with
    | none => exact .inl rfl
    | some se => exact .inr ⟨se, rfl⟩
  | cons a l ih =>
    intro bad e s
    unfold readReplicas
    rw [wp_bind]
    refine wp_mono (@looks_get k a.2 k s) fun o s1 t1 _ => ?_
    cases o with
    | error e1 =>
      rw [wp_bind]
      exact wp_mono (looks_handleReadError a.1 e1 s1) fun crc s2 t2 _ => ih _ _ s2
    | ok o =>
      have hend : ∀ s, (do
          bad.forM fun b => scheduleReadRepair k a.1 b
          pure (.ok o) : ClusterM (Except Error Object)).wp (fun o _ _ => ∀ e, o = .error e → ReadError k e) s := by
        intro s
        rw [wp_bind]
        exact wp_mono (Looks.forM (fun b => looks_scheduleReadRepair a.1 b) s) fun _ _ _ _ => by simp
      dsimp only
      split
      · rw [wp_bind]
        refine wp_mono (looks_foundOnShard a.2 a.1 refs s1) fun r s2 t2 _ => ?_
        rw [wp_bind]
        exact wp_mono (looks_addReplica a.1 _ _ s2) fun _ s3 t3 _ => hend s3
      · exact hend s1

theorem wp_get_error (k : Key) {s : Sys} : (get k).wp (fun o _ _ => ∀ e, o = .error e → ReadError k e) s := by
  unfold get
  split
  · rw [wp_pure]
    intro e he
    exact .inl (Except.error.inj he).symm
  · rw [wp_bind]
    refine wp_mono (@looks_readOrder k _ k s) fun r s1 t1 _ => ?_
    rw [wp_bind, rawRefs, wp_look]
    exact wp_readReplicas_error _ _ _ _ _ s1

/-- Reads go to shards of the cluster. -/
theorem wp_readOrder (k : Key) {s : Sys} :
    (readOrder k).wp (fun r s' _ => Looked k s s' ∧ r.2 = (s.cluster.catalog.get k).isNone ∧
      ∀ a ∈ r.1, ∀ st, a.2 = some st → ∃ x < s.cluster.shards.length, st = s.cluster.config.storeOf x) s := by
  have hrest : ∀ (s1 : Sys) (ids : List ShardId), Looked k s s1 →
      ∀ a ∈ (ids.map fun id => (id, s1.cluster.storeRef id)), ∀ st, a.2 = some st →
        ∃ x < s.cluster.shards.length, st = s.cluster.config.storeOf x := by
    intro s1 ids h1 a ha st hst
    obtain ⟨id, -, rfl⟩ := List.mem_map.mp ha
    rw [h1.same.storeRef] at hst
    obtain ⟨h2, h3⟩ := Cluster.storeRef_eq_some hst
    exact ⟨id, h3, h2⟩
  unfold readOrder resolveShards
  rw [wp_bind, wp_bind, catalogGet, wp_look, wp_bind, wp_look, wp_bind, wp_look]
  cases s.cluster.readPreference with
  | ordered =>
    dsimp only
    rw [wp_pure, wp_bind, wp_look, wp_pure]
    exact ⟨.refl k s, rfl, hrest s _ (.refl k s)⟩
  | roundRobin =>
    dsimp only
    rw [wp_bind]
    refine wp_mono (@looks_balancedShardOrder k _ s) fun ids s1 t1 h1 => ?_
    rw [wp_pure, wp_bind, wp_look, wp_pure]
    exact ⟨h1, rfl, hrest s1 ids h1⟩

omit [Crates] in
theorem Absent.lacks {s s' : Sys} {l : List (ShardId × StoreRef)} (h : Absent s k) (hs : Looked k s s')
    (hl : ∀ a ∈ l, ∀ st, a.2 = some st → ∃ x < s.cluster.shards.length, st = s.cluster.config.storeOf x) :
    Lacks s' k l := fun a ha st hst => by
  obtain ⟨x, hx, rfl⟩ := hl a ha st hst
  rw [hs.objects]
  exact h.stored x hx

/-- A `get` of a key that is absent fails. -/
theorem wp_get_absent {s : Sys} (h : Absent s k) : (get k).wp (fun o _ _ => ∃ e, o = .error e) s := by
  unfold get
  split
  · exact ⟨_, rfl⟩
  · rw [wp_bind]
    refine wp_mono (wp_readOrder k) fun r s1 t1 h1 => ?_
    rw [wp_bind, rawRefs, wp_look]
    exact wp_readReplicas_lacks _ _ _ _ _ s1 (h.lacks h1.1 h1.2.2)

theorem wp_head_absent {s : Sys} (h : Absent s k) : (head k).wp (fun o _ _ => ∃ e, o = .error e) s := by
  unfold head
  split
  · exact ⟨_, rfl⟩
  · rw [wp_bind]
    refine wp_mono (wp_readOrder k) fun r s1 t1 h1 => ?_
    rw [wp_bind, rawRefs, wp_look]
    exact wp_headReplicas_lacks _ _ _ _ s1 (h.lacks h1.1 h1.2.2)

/-- Nobody finds the key: not an operator on the shards, and not a client. What is listed are other
    keys' objects. -/
structure Invisible (s : Sys) (k : Key) : Prop extends Absent s k where
  get : (Sharded.get k).wp (fun o _ _ => ∃ e, o = .error e) s
  head : (Sharded.head k).wp (fun o _ _ => ∃ e, o = .error e) s
  list : ∀ pre, (Sharded.list pre).wp (fun l _ _ => ∀ m ∈ l, ∃ k', k' ≠ k ∧ s.cluster.catalog.get k' = some m.2 ∧
    m.1 = Path.fromStr k') s

theorem Absent.invisible {s : Sys} (h : Absent s k) : Invisible s k := by
  refine ⟨h, wp_get_absent h, wp_head_absent h, fun pre => ?_⟩
  rw [Sharded.list, wp_look]
  intro m hm
  obtain ⟨hm, -⟩ := List.mem_filter.mp hm
  obtain ⟨e, he, rfl⟩ := List.mem_map.mp hm
  have hget : s.cluster.catalog.get e.1 = some e.2 := AList.mem_lookup_iff.mpr (List.mem_filter.mp he).1
  refine ⟨e.1, fun hk => ?_, hget, rfl⟩
  rw [hk, h.entry] at hget
  cases hget

end Reads

end ObjStr.Sharded
