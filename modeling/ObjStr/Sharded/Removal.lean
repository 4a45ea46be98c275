/-
  ObjStr.Sharded.Removal — what deletes do, run alone: the clean-up after a write that too few
  shards took, and `delete_raw`.

  A delete removes the keys it names from the shards it visits and nothing else (`Deleted`);
  where the store's next deletes do not fail (`Store.Calm`) the object is gone.
-/

import ObjStr.Sharded.Fanout

namespace ObjStr.Sharded

open ObjStr.Lib ObjStr.Raw Proc

/-! ## Calls that do not fail -/

/-- The next `n` calls of a kind do not fail. -/
def Store.Calm (st : Store) (c : Call) (n : Nat) : Prop := ∀ f ∈ (st.outcomes c).take n, f = none

theorem Store.Calm.outcome {st : Store} {c : Call} {n : Nat} (h : st.Calm c (n + 1)) : st.outcome c = none := by
  unfold Store.outcome
  unfold Calm at h
  cases hl : st.outcomes c with
  | nil => rfl
  | cons f l =>
    rw [hl] at h
    rw [h f (by simp)]
    rfl

theorem Store.Calm.tail {st st' : Store} {c : Call} {n : Nat} (h : st.Calm c (n + 1))
    (ht : st'.outcomes c = (st.outcomes c).tail) : st'.Calm c n := by
  unfold Calm at h ⊢
  rw [ht]
  intro f hf
  apply h f
  cases hl : st.outcomes c with
  | nil => simp [hl] at hf
  | cons g l =>
    rw [hl] at hf
    exact List.mem_cons_of_mem g hf

/-! ## Deletes -/

theorem Store.delete_cases (st : Store) (key : Key) :
    (∃ e, (st.delete key).1 = .error e ∧ (st.delete key).2.objects = st.objects ∧
      (st.outcome .delete = none → e = .notFound key ∧ st.objects.lookup key = none)) ∨
    ((st.delete key).1 = .ok () ∧ (st.delete key).2.objects = st.objects.erase key) := by
  unfold Store.delete
  cases st.outcome .delete with
  | some e => exact .inl ⟨e, rfl, rfl, by simp⟩
  | none =>
    by_cases h : (st.strictDelete && (st.objects.lookup key).isNone) = true
    · simp only [h, if_true]
      refine .inl ⟨_, rfl, rfl, fun _ => ?_⟩
      simp only [Bool.and_eq_true, Option.isNone_iff_eq_none] at h
      exact ⟨rfl, h.2⟩
    · simp only [h]
      exact .inr ⟨rfl, rfl⟩

/-- A delete takes its key, unless it fails. -/
theorem Store.lookup_delete (st : Store) (key key' : Key) :
    (st.delete key).2.objects.lookup key' = if key' = key ∧ st.outcome .delete = none then none else st.objects.lookup key' := by
  rcases st.delete_cases key with ⟨e, -, h2, h3⟩ | ⟨h1, h2⟩
  · rw [h2]
    split
    · next h =>
      rw [h.1]
      exact (h3 h.2).2
    · rfl
  · have hcalm : st.outcome .delete = none := by
      by_contra hne
      obtain ⟨e, he⟩ := Option.ne_none_iff_exists'.mp hne
      unfold Store.delete at h1
      rw [he] at h1
      cases h1
    rw [h2, FMap.lookup_erase, hcalm]
    simp

theorem Store.outcomes_delete (st : Store) (key : Key) (c : Call) :
    (st.delete key).2.outcomes c = if c = .delete then (st.outcomes .delete).tail else st.outcomes c := by
  have hn : (st.next .delete).outcomes c = if c = .delete then (st.outcomes .delete).tail else st.outcomes c := by
    by_cases h : c = .delete
    · subst h
      simp [Store.next]
    · simp [Store.next, h]
  unfold Store.delete
  cases st.outcome .delete with
  | some e => exact hn
  | none =>
    dsimp only
    split <;> exact hn

/-- Only keys in `ks` were deleted, from shards in `xs`. -/
structure Deleted (s s' : Sys) (xs : List ShardId) (ks : List Key) : Prop where
  config : s'.cluster.config = s.cluster.config
  shards : s'.cluster.shards = s.cluster.shards
  kept : ∀ st, (∀ x ∈ xs, s.cluster.storeRef x ≠ some st) → s'.stores st = s.stores st
  others : ∀ st k, k ∉ ks → (s'.stores st).objects.lookup k = (s.stores st).objects.lookup k
  fewer : ∀ st k o, (s'.stores st).objects.lookup k = some o → (s.stores st).objects.lookup k = some o
  calls : ∀ st c, c ≠ .delete → (s'.stores st).outcomes c = (s.stores st).outcomes c

variable {s s' s'' : Sys} {xs xs' : List ShardId} {ks ks' : List Key}

theorem Deleted.refl (s : Sys) (xs : List ShardId) (ks : List Key) : Deleted s s xs ks :=
  ⟨rfl, rfl, fun _ _ => rfl, fun _ _ _ => rfl, fun _ _ _ h => h, fun _ _ _ => rfl⟩

theorem Deleted.refs (h : Deleted s s' xs ks) : SameRefs s.cluster s'.cluster := ⟨h.config, by rw [h.shards]⟩

theorem Deleted.trans (h : Deleted s s' xs ks) (h' : Deleted s' s'' xs ks) : Deleted s s'' xs ks where
  config := h'.config.trans h.config
  shards := h'.shards.trans h.shards
  kept := fun st hst => (h'.kept st fun x hx => by rw [h.refs.storeRef]; exact hst x hx).trans (h.kept st hst)
  others := fun st k hk => (h'.others st k hk).trans (h.others st k hk)
  fewer := fun st k o ho => h.fewer st k o (h'.fewer st k o ho)
  calls := fun st c hc => (h'.calls st c hc).trans (h.calls st c hc)

theorem Deleted.mono (h : Deleted s s' xs ks) (hx : ∀ x ∈ xs, x ∈ xs') (hk : ∀ k ∈ ks, k ∈ ks') :
    Deleted s s' xs' ks' where
  config := h.config
  shards := h.shards
  kept := fun st hst => h.kept st fun x hm => hst x (hx x hm)
  others := fun st k hm => h.others st k fun hm' => hm (hk k hm')
  fewer := h.fewer
  calls := h.calls

/-- What is not there is not there after a delete either. -/
theorem Deleted.none (h : Deleted s s' xs ks) {st : StoreId} {k : Key} (hk : (s.stores st).objects.lookup k = none) :
    (s'.stores st).objects.lookup k = none := by
  by_contra hn
  obtain ⟨o, ho⟩ := Option.ne_none_iff_exists'.mp hn
  rw [h.fewer st k o ho] at hk
  cases hk

/-- The catalog may have changed since. -/
theorem Deleted.withCatalog (h : Deleted s s' xs ks) (c : Catalog) : Deleted s (s'.withCatalog c) xs ks :=
  ⟨h.config, h.shards, h.kept, h.others, h.fewer, h.calls⟩

def NoPuts (es : List Event) : Prop := ∀ id key, writesTo id key es = []

theorem NoPuts.nil : NoPuts [] := fun _ _ => rfl

theorem NoPuts.append {es es' : List Event} (h : NoPuts es) (h' : NoPuts es') : NoPuts (es ++ es') := fun id key => by
  rw [writesTo_append, h, h']
  rfl

theorem Quiet.noPuts {es : List Event} (h : Quiet es) : NoPuts es := fun id key => by
  rw [writesTo, List.filterMap_eq_nil_iff]
  intro e he
  rw [h e he]

/-- A delete of one key on one shard. -/
theorem wp_refDelete (x : ShardId) (key : Key) :
    (StoreRef.delete (s.cluster.storeRef x) key).wp (fun r s' t => Deleted s s' [x] [key] ∧
      s'.cluster = s.cluster ∧ NoPuts (events t) ∧
      ∀ st, s.cluster.storeRef x = some st →
        (∀ n, (s.stores st).Calm .delete (n + 1) → (s'.stores st).Calm .delete n) ∧
        ((s.stores st).Calm .delete 1 → gone r = true ∧ (s'.stores st).objects.lookup key = none)) s := by
  cases hr : s.cluster.storeRef x with
  | none =>
    simp only [StoreRef.delete, StoreRef.call, wp_pure]
    exact ⟨.refl s _ _, trivial, .nil, by simp⟩
  | some st =>
    simp only [StoreRef.delete, StoreRef.call, onStore, wp_step]
    have hnext := (s.stores st).outcomes_delete key
    have hdel := (s.stores st).delete_cases key
    generalize (s.stores st).delete key = r at hnext hdel
    refine ⟨⟨rfl, rfl, ?_, ?_, ?_, ?_⟩, trivial, by simp [NoPuts, events, writesTo], ?_⟩
    · intro st' hst'
      have hne : st' ≠ st := fun h => hst' x (by simp) (h ▸ hr)
      simp only [Function.update_of_ne hne]
    · intro st' k hk
      by_cases hs : st' = st
      · subst hs
        simp only [Function.update_self]
        rcases hdel with ⟨e, -, h2, -⟩ | ⟨-, h2⟩
        · rw [h2]
        · rw [h2]
          exact AList.lookup_erase_ne (by simpa using hk)
      · simp only [Function.update_of_ne hs]
    · intro st' k o ho
      by_cases hs : st' = st
      · subst hs
        simp only [Function.update_self] at ho
        rcases hdel with ⟨e, -, h2, -⟩ | ⟨-, h2⟩
        · rwa [h2] at ho
        · rw [h2, FMap.lookup_erase] at ho
          split at ho
          · cases ho
          · exact ho
      · simpa only [Function.update_of_ne hs] using ho
    · intro st' c hc
      by_cases hs : st' = st
      · subst hs
        simp only [Function.update_self]
        rw [hnext c, if_neg hc]
      · simp only [Function.update_of_ne hs]
    · intro st' hst'
      obtain rfl := Option.some.inj hst'
      simp only [Function.update_self]
      refine ⟨fun n hn => hn.tail (by rw [hnext, if_pos rfl]), fun hc => ?_⟩
      rcases hdel with ⟨e, h1, h2, h3⟩ | ⟨h1, h2⟩
      · obtain ⟨rfl, h4⟩ := h3 hc.outcome
        rw [h1, h2]
        exact ⟨rfl, h4⟩
      · rw [h1, h2]
        exact ⟨rfl, AList.lookup_erase _ _⟩

theorem wp_cleanupSidecar (x : ShardId) (location : Key) (kind : ShardKind) :
    (cleanupSidecar (s.cluster.storeRef x) location kind).wp (fun _ s' t =>
      Deleted s s' [x] [metaSidecarPath location] ∧ s'.cluster = s.cluster ∧ NoPuts (events t) ∧
      ∀ st n, s.cluster.storeRef x = some st → (s.stores st).Calm .delete (n + 1) → (s'.stores st).Calm .delete n) s := by
  unfold cleanupSidecar
  split
  · rw [wp_bind]
    refine wp_mono (wp_refDelete x _) fun r s' t h => ?_
    rw [wp_pure, List.append_nil]
    exact ⟨h.1, h.2.1, h.2.2.1, fun st n hst hc => (h.2.2.2 st hst).1 n hc⟩
  · rw [wp_pure]
    refine ⟨.refl s _ _, rfl, .nil, fun st n _ hc f hf => hc f ?_⟩
    exact List.take_subset_take_left _ (Nat.le_succ n) hf

/-! ## One delete for each shard -/

/-- What the deletes of a key on one shard do, and what the delete of the object answers. -/
def Erases (location : Key) (ks : List Key) (x : ShardId) (s : Sys) (r : ShardId × Except StoreError Unit) (s' : Sys)
    (es : List Event) : Prop :=
  r.1 = x ∧ Deleted s s' [x] ks ∧ s'.cluster = s.cluster ∧ NoPuts es ∧
    ∀ st, s.cluster.storeRef x = some st → (s.stores st).Calm .delete 2 →
      gone r.2 = true ∧ (s'.stores st).objects.lookup location = none

/-- What the deletes of a key on these shards do. -/
structure Erased (location : Key) (ks : List Key) (xs : List ShardId) (s : Sys) (os : Outcomes) (s' : Sys)
    (es : List Event) : Prop where
  ids : os.map (·.1) = xs
  deleted : Deleted s s' xs ks
  cluster : s'.cluster = s.cluster
  puts : NoPuts es
  gone : xs.Nodup → ∀ x ∈ xs, ∀ st, s.cluster.storeRef x = some st → (s.stores st).Calm .delete 2 →
    (s'.stores st).objects.lookup location = none
  ok : xs.Nodup → (∀ x ∈ xs, ∃ st, s.cluster.storeRef x = some st ∧ (s.stores st).Calm .delete 2) →
    ∀ o ∈ os, Sharded.gone o.2 = true

/-- Side by side on some shards. -/
theorem wp_eraseAll {ids : List ShardId} {f : ShardId → ClusterM (ShardId × Except StoreError Unit)} (location : Key)
    (ks : List Key)
    (hf : ∀ x s1, s1.cluster = s.cluster → (f x).wp (fun r s' t => Erases location ks x s1 r s' (events t)) s1) :
    (joinAll (ids.map f)).wp (fun os s' t => Erased location ks ids s os s' (events t)) s := by
  refine wp_joinAll (fun done os s' t => Erased location ks done s os s' (events t))
    ⟨rfl, .refl s _ _, rfl, .nil, by simp, by simp⟩ ?_ (fun _ _ _ h => h)
  rintro done x rest - os s1 t h1
  refine wp_mono (hf x s1 h1.cluster) fun r s2 t2 h2 => ?_
  obtain ⟨rfl, hdel2, hcl2, hputs2, hgone2⟩ := h2
  rw [h1.cluster] at hgone2
  -- the shards before it have other stores
  have hsame : (done ++ [r.1]).Nodup → ∀ st, s.cluster.storeRef r.1 = some st → s1.stores st = s.stores st := by
    intro hnd st hst
    refine h1.deleted.kept st fun z hz hr => ?_
    have h3 := (Cluster.storeRef_eq_some hr).1
    have h4 := (Cluster.storeRef_eq_some hst).1
    have h5 := s.cluster.config.storeOf.injective (h4.symm.trans h3)
    exact (List.nodup_append.mp hnd).2.2 z hz r.1 (by simp) h5.symm
  have hleft : (done ++ [r.1]).Nodup → done.Nodup := fun hnd => (List.nodup_append.mp hnd).1
  refine ⟨by simp [h1.ids], ?_, hcl2.trans h1.cluster, ?_, ?_, ?_⟩
  · exact (h1.deleted.mono (by simp +contextual) (by simp)).trans (hdel2.mono (by simp) (by simp))
  · rw [events_append]
    exact h1.puts.append hputs2
  · intro hnd y hy st hst hcalm
    rcases List.mem_append.mp hy with hy | hy
    · exact hdel2.none (h1.gone (hleft hnd) y hy st hst hcalm)
    · rw [List.mem_singleton.mp hy] at hst
      exact (hgone2 st hst (by rw [hsame hnd st hst]; exact hcalm)).2
  · intro hnd hall o ho
    rcases List.mem_append.mp ho with ho | ho
    · exact h1.ok (hleft hnd) (fun y hy => hall y (List.mem_append_left _ hy)) o ho
    · obtain ⟨st, hst, hcalm⟩ := hall r.1 (by simp)
      rw [List.mem_singleton.mp ho]
      exact (hgone2 st hst (by rw [hsame hnd st hst]; exact hcalm)).1

/-- The object first, then its sidecar. -/
theorem wp_deleteWithSidecar (x : ShardId) (location : Key) (kind : ShardKind) :
    (do
      let r ← StoreRef.delete (s.cluster.storeRef x) location
      cleanupSidecar (s.cluster.storeRef x) location kind
      pure (x, r) : ClusterM (ShardId × Except StoreError Unit)).wp
      (fun r s' t => Erases location [location, metaSidecarPath location] x s r s' (events t)) s := by
  rw [wp_bind]
  refine wp_mono (wp_refDelete x location) fun r s1 t1 h1 => ?_
  obtain ⟨hdel1, hcl1, hputs1, hgone1⟩ := h1
  rw [wp_bind, ← hcl1]
  refine wp_mono (wp_cleanupSidecar x location kind) fun _ s2 t2 h2 => ?_
  obtain ⟨hdel2, hcl2, hputs2, -⟩ := h2
  rw [wp_pure, List.append_nil, events_append]
  refine ⟨rfl, (hdel1.mono (by simp) (by simp)).trans (hdel2.mono (by simp) (by simp)), hcl2.trans hcl1,
    hputs1.append hputs2, fun st hst hc => ?_⟩
  obtain ⟨h3, h4⟩ := (hgone1 st hst).2 fun f hf => hc f (List.take_subset_take_left _ (by omega) hf)
  exact ⟨h3, hdel2.none h4⟩

/-- The sidecar first, then the object. -/
theorem wp_deleteAfterSidecar (x : ShardId) (location : Key) (refs : Option RawRefRegistry) :
    (do
      cleanupSidecarMaybe (s.cluster.storeRef x) location refs x
      let r ← StoreRef.delete (s.cluster.storeRef x) location
      pure (x, r) : ClusterM (ShardId × Except StoreError Unit)).wp
      (fun r s' t => Erases location [location, metaSidecarPath location] x s r s' (events t)) s := by
  rw [wp_bind]
  refine wp_mono (wp_cleanupSidecar x location _) fun _ s1 t1 h1 => ?_
  obtain ⟨hdel1, hcl1, hputs1, hcalm1⟩ := h1
  rw [wp_bind, ← hcl1]
  refine wp_mono (wp_refDelete x location) fun r s2 t2 h2 => ?_
  obtain ⟨hdel2, hcl2, hputs2, hgone2⟩ := h2
  rw [wp_pure, List.append_nil, events_append]
  refine ⟨rfl, (hdel1.mono (by simp) (by simp)).trans (hdel2.mono (by simp) (by simp)), hcl2.trans hcl1,
    hputs1.append hputs2, fun st hst hc => ?_⟩
  exact (hgone2 st (by rw [hcl1]; exact hst)).2 (hcalm1 st 1 hst hc)

theorem noPuts_look (s : Sys) : NoPuts (events [(s, Event.other, s)]) := by simp [NoPuts, events, writesTo]

/-- What was written for a key without an entry is deleted; a key with an entry keeps it. -/
theorem wp_cleanupOrphanedWrites {location : Key} {placed : List ShardId} :
    (cleanupOrphanedWrites location placed).wp (fun _ s' t =>
      Deleted s s' placed [location, metaSidecarPath location] ∧ s'.cluster = s.cluster ∧ NoPuts (events t) ∧
      ((s.cluster.catalog.get location).isSome → s' = s) ∧
      (s.cluster.catalog.get location = none → placed.Nodup → ∀ x ∈ placed, ∀ st, s.cluster.storeRef x = some st →
        (s.stores st).Calm .delete 2 → (s'.stores st).objects.lookup location = none)) s := by
  unfold cleanupOrphanedWrites
  rw [wp_bind, catalogGet, wp_look]
  split
  · next h =>
    rw [wp_pure]
    refine ⟨.refl s _ _, rfl, noPuts_look s, fun _ => rfl, fun hn => ?_⟩
    rw [hn] at h
    cases h
  · next h =>
    rw [wp_bind, rawRefs, wp_look, wp_bind, storesOf, wp_look, wp_bind, List.map_map]
    refine wp_mono (wp_eraseAll location [location, metaSidecarPath location] (fun x s1 h1 => ?_)) fun os s' t h2 => ?_
    · simp only [Function.comp_apply]
      rw [← h1]
      exact wp_deleteWithSidecar x location _
    · rw [wp_pure]
      refine ⟨h2.deleted.mono (fun x hx => (List.mem_filter.mp hx).1) (fun _ hk => hk), h2.cluster, ?_,
        fun hs => absurd hs h, ?_⟩
      · rw [events_append, events_append, events_append, events_append]
        exact (noPuts_look s).append ((noPuts_look s).append ((noPuts_look s).append (h2.puts.append .nil)))
      · intro _ hnd x hx st hst hc
        refine h2.gone (hnd.filter _) x (List.mem_filter.mpr ⟨hx, ?_⟩) st hst hc
        simpa using (Cluster.storeRef_eq_some hst).2

/-! ## `delete_raw` -/

structure DeletedRaw (location : Key) (s : Sys) (r : Except Error Unit) (s' : Sys) (es : List Event) : Prop where
  deleted : Deleted s s' (s.cluster.deleteTargets (s.cluster.catalog.get location)) [location, metaSidecarPath location]
  puts : NoPuts es
  catalog : ∀ k, k ≠ location → s'.cluster.catalog.get k = s.cluster.catalog.get k
  gone : (s.cluster.deleteTargets (s.cluster.catalog.get location)).Nodup →
    ∀ x ∈ s.cluster.deleteTargets (s.cluster.catalog.get location), ∀ st, s.cluster.storeRef x = some st →
      (s.stores st).Calm .delete 2 → (s'.stores st).objects.lookup location = none
  ok : (s.cluster.deleteTargets (s.cluster.catalog.get location)).Nodup →
    (∀ x ∈ s.cluster.deleteTargets (s.cluster.catalog.get location),
      ∃ st, s.cluster.storeRef x = some st ∧ (s.stores st).Calm .delete 2) →
    r = .ok () ∧ s'.cluster.catalog.get location = none

/-- Taking shards out of an entry changes only that entry. -/
theorem wp_removeShards (key : Key) (ids : List ShardId) :
    (ids.forM fun id => catalogRemoveShard key id).wp (fun _ s' t =>
      (∃ c, s' = s.withCatalog c ∧ ∀ k, k ≠ key → c.get k = s.cluster.catalog.get k) ∧ NoPuts (events t)) s := by
  refine wp_forM (fun _ s' t => (∃ c, s' = s.withCatalog c ∧ ∀ k, k ≠ key → c.get k = s.cluster.catalog.get k) ∧
    NoPuts (events t)) ⟨⟨s.cluster.catalog, rfl, fun _ _ => rfl⟩, .nil⟩ ?_ (fun _ _ h => h)
  rintro _ x _ _ s1 t ⟨⟨c, rfl, hc⟩, ht⟩
  rw [catalogRemoveShard, wp_step]
  refine ⟨⟨_, rfl, fun k hk => ?_⟩, ?_⟩
  · rw [Catalog.get_removeShard_ne _ _ _ _ hk]
    exact hc k hk
  · rw [events_append]
    exact ht.append (by simp [NoPuts, events, writesTo])

theorem wp_deleteRaw (location : Key) :
    (deleteRaw location).wp (fun r s' t => DeletedRaw location s r s' (events t)) s := by
  unfold deleteRaw
  rw [wp_bind, catalogGet, wp_look, wp_bind, wp_look, wp_bind, rawRefs, wp_look, wp_bind, List.map_map]
  refine wp_mono (wp_eraseAll location [location, metaSidecarPath location] (fun x s1 h1 => ?_)) fun os s1 t h1 => ?_
  · simp only [Function.comp_apply]
    rw [← h1]
    exact wp_deleteAfterSidecar x location _
  have hpre : ∀ t', NoPuts (events t') → NoPuts (events ([(s, Event.other, s)] ++ ([(s, Event.other, s)] ++
      ([(s, Event.other, s)] ++ (t ++ t'))))) := fun t' ht' => by
    rw [events_append, events_append, events_append, events_append]
    exact (noPuts_look s).append ((noPuts_look s).append ((noPuts_look s).append (h1.puts.append ht')))
  dsimp only
  split
  · rw [wp_bind, catalogRemove, wp_step, wp_pure, h1.cluster]
    refine ⟨h1.deleted.withCatalog _, ?_, fun k hk => ?_, h1.gone, fun _ _ => ⟨rfl, ?_⟩⟩
    · exact hpre _ (by simp [NoPuts, events, writesTo])
    · simp [Sys.withCatalog, hk]
    · simp [Sys.withCatalog]
  · next lastErr hlast =>
    rw [wp_bind, wp_look, wp_bind]
    refine wp_mono (wp_removeShards location _) fun _ s2 t2 h2 => ?_
    obtain ⟨⟨c, rfl, hc⟩, ht2⟩ := h2
    have hall : ∀ r : Except Error Unit, DeletedRaw location s r (s1.withCatalog c)
        (events ([(s, Event.other, s)] ++ ([(s, Event.other, s)] ++ ([(s, Event.other, s)] ++
          (t ++ ([(s1, Event.other, s1)] ++ (t2 ++ []))))))) := by
      intro r
      refine ⟨h1.deleted.withCatalog c, ?_, fun k hk => ?_, h1.gone, fun hnd hcalm => ?_⟩
      · refine hpre _ ?_
        rw [events_append, events_append]
        exact (noPuts_look s1).append (ht2.append .nil)
      · rw [← h1.cluster]
        exact hc k hk
      · have hok := h1.ok hnd hcalm
        rw [List.filter_eq_nil_iff.mpr (fun o ho => by simp [hok o ho])] at hlast
        cases hlast
    split
    · rw [wp_pure]
      exact hall _
    · rw [wp_pure]
      exact hall _

end ObjStr.Sharded
