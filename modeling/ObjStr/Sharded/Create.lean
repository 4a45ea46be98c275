/-
  ObjStr.Sharded.Create — what a write that too few shards took leaves of a key that was absent.

  `cleanup_orphaned_writes` deletes what was written only if the key has no entry. A `put` has
  made none by then; a create and a `copy_if_not_exists` have their placeholder there, so that
  what was written stays, and is found again once the placeholder is gone. `put_with_meta` cleans up
  the shards that took body and metadata, but not a sidecar shard that took the body alone.
-/

import ObjStr.Sharded.Looks

namespace ObjStr.Sharded

open ObjStr.Lib ObjStr.Raw Proc

section Writes

variable [Crates] {s s' : Sys} {k : Key}

def Insufficient (r : Except Error Unit) : Prop :=
  ∃ path required actual errors, r = .error (.insufficientWrites path required actual errors)

omit [Crates] in
/-- A shard that stores the key is one that has it. -/
theorem Absent.not_stored {x : ShardId} {st : StoreId} (h : Absent s k) (hx : s.cluster.storeRef x = some st) :
    (s.stores st).objects.lookup k = none := by
  obtain ⟨rfl, hlt⟩ := Cluster.storeRef_eq_some hx
  exact h.stored x hlt

/-! ## `put` -/

omit [Crates] in
/-- The clean-up of a write that landed on too few shards. -/
theorem absent_of_cleaned {mid : Sys} {payload : Bytes} {placed : List ShardId} (hk : Absent s k)
    (hcalm : ∀ st n, (mid.stores st).Calm .delete n) (hl : Landed s mid k { body := payload } placed)
    (hd : Deleted mid s' placed [k, metaSidecarPath k]) (hcl : s'.cluster = mid.cluster)
    (hgone : ∀ x ∈ placed, ∀ st, s.cluster.storeRef x = some st → (mid.stores st).Calm .delete 2 →
      (s'.stores st).objects.lookup k = none) : Absent s' k := by
  refine ⟨by rw [hcl, hl.catalog]; exact hk.entry, fun x hx => ?_⟩
  rw [hcl, hl.refs.length] at hx
  rw [hcl, hl.refs.config]
  by_cases hp : x ∈ placed
  · exact hgone x hp _ (hl.attached x hp) (hcalm _ 2)
  · refine hd.none ?_
    have hother : ∀ y ∈ placed, s.cluster.config.storeOf x ≠ s.cluster.config.storeOf y := by
      intro y hy he
      rw [s.cluster.config.storeOf.injective he] at hp
      exact hp hy
    rw [hl.kept _ hother]
    exact hk.stored x hx

theorem wp_put_insufficient (payload : Bytes) (hk : Absent s k) (hcalm : ∀ st n, (s.stores st).Calm .delete n) :
    (put k payload).wp (fun r s' _ => Insufficient r → Absent s' k) s := by
  refine wp_mono (wp_put payload) fun r s' t h hi => ?_
  obtain ⟨path, required, actual, errors, rfl⟩ := hi
  rcases h with h | ⟨h | h, -⟩
  · obtain ⟨mid, placed, hl, -, -, -, -, hd, hcl, -, hgone⟩ := h
    refine absent_of_cleaned hk (fun st n => ?_) hl hd hcl (hgone rfl hk.entry)
    unfold Store.Calm
    rw [hl.calls st .delete (by decide)]
    exact hcalm st n
  · cases h
  · cases h

/-! ## `put_opts` with `PutMode::Create` -/

omit [Crates] in
/-- What landed stays if the key has an entry, whatever becomes of the entry then. -/
theorem not_absent_of_landed {mid : Sys} {up : Upload} {placed : List ShardId} {c : Catalog}
    (hl : Landed s mid k up placed) (hne : placed ≠ []) : ¬ Absent (mid.withCatalog c) k := by
  intro h
  obtain ⟨x, hx⟩ := List.exists_mem_of_ne_nil _ hne
  obtain ⟨now, ho⟩ := hl.stored x hx
  have h1 : (mid.withCatalog c).cluster.storeRef x = some (s.cluster.config.storeOf x) :=
    (hl.refs.storeRef x).trans (hl.attached x hx)
  have h2 := h.not_stored h1
  change (mid.stores _).objects.lookup k = none at h2
  rw [ho] at h2
  cases h2

theorem wp_create_insufficient (payload : Bytes) :
    (putOpts k payload .create).wp (fun r s' _ => Insufficient r → ¬ Absent s' k) s := by
  unfold putOpts
  rw [wp_bind, readOnly, wp_look]
  split
  · rw [wp_pure]
    rintro ⟨path, required, actual, errors, h⟩
    cases h
  · refine wp_mono (wp_putCreate payload) fun r s' t h hi => ?_
    obtain ⟨path, required, actual, errors, rfl⟩ := hi
    rcases h with ⟨hent, -, mid, h | ⟨h, -⟩, rfl⟩ | h | h | h
    · obtain ⟨mid', placed, hl, -, -, -, hne, -, -, hkeep, -⟩ := h
      have hmid : mid = mid' := hkeep (.inr (by rw [get_reserve hent, if_pos rfl]; rfl))
      subst hmid
      exact not_absent_of_landed hl hne.1
    · cases h
    · cases h
    · cases h
    · cases h

/-! ## `put_with_meta` -/

theorem Sys.writable_of_metaRounds {refs : RawRefRegistry} {payload metadata : Bytes} {x : ShardId}
    (h : x ∈ (s.metaRounds refs k payload metadata).1) : s.cluster.writable x = true := by
  unfold Sys.metaRounds at h
  dsimp only at h
  split at h
  · rcases List.mem_append.mp h with h | h
    · exact Cluster.writable_of_mem_selectTargets h
    · split at h
      · cases h
      · exact (Cluster.mem_retryIds h).1
  · exact Cluster.writable_of_mem_selectTargets h

theorem Sys.takes_of_metaRounds {refs : RawRefRegistry} {payload metadata : Bytes} {x : ShardId}
    (h : x ∈ (s.metaRounds refs k payload metadata).2) : s.takesMeta refs k payload metadata x = true := by
  unfold Sys.metaRounds at h
  dsimp only at h
  split at h
  · exact (List.mem_filter.mp h).2
  · exact (List.mem_filter.mp h).2

omit [Crates] in
/-- A shard that takes the body alone does not take the write. -/
theorem Store.putMeta_half {st : Store} {kind : ShardKind} {payload metadata : Bytes}
    (h : st.halfWritten kind metadata = true) : ∃ e, (st.putMeta kind k payload metadata).1 = .error e := by
  unfold Store.halfWritten at h
  simp only [Bool.and_eq_true, decide_eq_true_eq, Bool.not_eq_true', Option.isNone_iff_eq_none] at h
  obtain ⟨⟨⟨rfl, hm⟩, h1⟩, h2⟩ := h
  obtain ⟨e, he⟩ := Option.isSome_iff_exists.mp h2
  refine ⟨e, ?_⟩
  unfold Store.putMeta
  rcases st.put_cases k { body := payload } with ⟨e', h3, -⟩ | ⟨-, h3, -⟩
  · rw [h1] at h3
    cases h3
  · rw [show st.put k { body := payload } = (.ok (), (st.put k { body := payload }).2) from Prod.ext h3 rfl]
    simp only [hm, Bool.false_eq_true, if_false]
    rw [Store.put_answer, Store.outcome_of_put, he]

/-- The body stays on a sidecar shard that took it without its metadata, and nowhere else. -/
theorem wp_putWithMeta_insufficient {refs : RawRefRegistry} {payload metadata : Bytes} (hk : Absent s k)
    (hcalm : ∀ st n, (s.stores st).Calm .delete n) (hf : refs.Fits s.cluster) :
    (putWithMeta refs k payload metadata).wp (fun r s' _ => Insufficient r →
      (Absent s' k ↔ ∀ x ∈ (s.metaRounds refs k payload metadata).1, ∀ st, s.cluster.metaRef refs x = some st →
        (s.stores st).halfWritten (refs.kind x) metadata = false)) s := by
  refine wp_mono (wp_putWithMeta hf) fun r s' t h hi => ?_
  obtain ⟨path, required, actual, errors, rfl⟩ := hi
  obtain ⟨mid, hp, -, hd, hcl, -, hgone⟩ := h
  have href : ∀ x ∈ (s.metaRounds refs k payload metadata).1, ∀ st, s.cluster.metaRef refs x = some st →
      s.cluster.storeRef x = some st := fun x hx st => Cluster.metaRef_eq_some hf (Sys.writable_of_metaRounds hx)
  constructor
  · intro habs x hx st hst
    by_contra hhalf
    rw [Bool.not_eq_false] at hhalf
    have hnp : x ∉ (s.metaRounds refs k payload metadata).2 := by
      intro hxp
      have h1 := Sys.takes_of_metaRounds hxp
      obtain ⟨e, he⟩ := @Store.putMeta_half k _ _ payload metadata hhalf
      simp [Sys.takesMeta, Sys.answerOf, hst, he, failure] at h1
    have h1 := hp.failed x hx hnp st hst
    rw [if_pos hhalf] at h1
    obtain ⟨o, ho⟩ := h1
    have hsame : s'.stores st = mid.stores st := by
      refine hd.kept st fun y hy hys => hnp ?_
      rw [hp.same.storeRef] at hys
      have h2 := (Cluster.storeRef_eq_some hys).1
      have h3 := (Cluster.storeRef_eq_some (href x hx st hst)).1
      rw [s.cluster.config.storeOf.injective (h3.symm.trans h2)]
      exact hy
    have h4 : s'.cluster.storeRef x = some st := by
      rw [hcl, hp.same.storeRef]
      exact href x hx st hst
    have h5 := habs.not_stored h4
    rw [hsame, ho] at h5
    cases h5
  · intro hwhole
    refine ⟨by rw [hcl, hp.catalog]; exact hk.entry, fun x hx => ?_⟩
    rw [hcl, hp.same.length] at hx
    rw [hcl, hp.same.config]
    by_cases hxp : x ∈ (s.metaRounds refs k payload metadata).2
    · obtain ⟨-, st, hst, -⟩ := hp.took x hxp
      rw [← (Cluster.storeRef_eq_some hst).1]
      exact hgone hk.entry x hxp st hst (hcalm st 2)
    · refine hd.none ?_
      by_cases hxt : x ∈ (s.metaRounds refs k payload metadata).1 ∧
          s.cluster.metaRef refs x = some (s.cluster.config.storeOf x)
      · have h1 := hp.failed x hxt.1 hxp _ hxt.2
        rw [hwhole x hxt.1 _ hxt.2, if_neg (by decide)] at h1
        rw [h1]
        exact hk.stored x hx
      · rw [hp.kept _ fun y hy hys => hxt ?_]
        · exact hk.stored x hx
        · have h1 := (Cluster.storeRef_eq_some (href y hy _ hys)).1
          rw [s.cluster.config.storeOf.injective h1]
          rw [s.cluster.config.storeOf.injective h1] at hys
          exact ⟨hy, hys⟩

/-! ## `copy_if_not_exists` -/

/-- A write to no shard stores nothing. -/
theorem wp_writeToShards_nil (data : Bytes) :
    (writeToShards k data []).wp (fun _ s' _ => s'.stores = s.stores ∧ s'.cluster = s.cluster) s := by
  unfold writeToShards writeToShardsInner
  rw [wp_bind, minWrites, wp_look, wp_bind, storesOf, wp_look, wp_bind]
  refine wp_mono (wp_fanOut (List.nodup_nil.filter _) k { body := data }) fun o s1 t1 h1 => ?_
  obtain ⟨rfl, rfl, -⟩ := h1
  have hs : s.written ([].filter (· < s.cluster.shards.length)) k { body := data } = s := by simp [Sys.written]
  rw [hs]
  change (requireWrites k [] [] s.cluster.config.minWrites true).wp _ s
  unfold requireWrites
  split
  · simp only [if_true]
    rw [wp_bind]
    refine wp_mono wp_cleanupOrphanedWrites fun _ s' t h => ?_
    rw [wp_pure]
    exact ⟨funext fun st => h.1.kept st (by simp), h.2.1⟩
  · exact ⟨rfl, rfl⟩

omit [Crates] in
theorem RawRefRegistry.Fits.looked {refs : RawRefRegistry} {k' : Key} (h : refs.Fits s.cluster) (hs : Looked k' s s') :
    refs.Fits s'.cluster := by
  intro x st hw hx
  rw [hs.same.storeRef]
  refine h x st ?_ hx
  unfold Cluster.writable at hw ⊢
  rw [hs.health x] at hw
  exact hw

omit [Crates] in
theorem Absent.looked {k' : Key} (h : Absent s k) (hs : Looked k' s s') (hne : k ≠ k') : Absent s' k := by
  refine ⟨by rw [hs.catalog k hne]; exact h.entry, fun x hx => ?_⟩
  rw [hs.same.length] at hx
  rw [hs.same.config, hs.objects]
  exact h.stored x hx

/-- The key has an entry, and the write misses its quorum: what was written is still there once the entry goes. -/
def LeavesWrites (k : Key) (nothing : Prop) {α : Type} (r : Except Error α) (s' : Sys) : Prop :=
  ∀ e, r = .error e → Insufficient (.error e) → (Absent (s'.withCatalog (s'.cluster.catalog.remove k).2) k ↔ nothing)

theorem putWithMeta_leaves {refs : RawRefRegistry} (hf : refs.Fits s.cluster) (hent : (s.cluster.catalog.get k).isSome)
    (payload metadata : Bytes) :
    (putWithMeta refs k payload metadata).wp (fun r s' _ => LeavesWrites k (s.cluster.selectTargets k = []) r s') s := by
  refine wp_mono (wp_putWithMeta hf) fun r s' t h e hr hi => ?_
  subst hr
  obtain ⟨path, required, actual, errors, he⟩ := hi
  obtain rfl := Except.error.inj he
  obtain ⟨mid, hp, hpl, -, -, hkeep, -⟩ := h
  obtain rfl := hkeep hent
  obtain ⟨x, hx⟩ := List.exists_mem_of_ne_nil _ hpl
  obtain ⟨hxt, st, hst, o', ho', -⟩ := hp.took x hx
  refine iff_of_false (fun habs => ?_) (fun hnil => ?_)
  · have hstored := habs.not_stored (show (s'.withCatalog _).cluster.storeRef x = some st from (hp.same.storeRef x).trans hst)
    change (s'.stores st).objects.lookup k = none at hstored
    rw [ho'] at hstored
    cases hstored
  · simp [Sys.metaRounds, hnil] at hxt

theorem writeToShards_leaves (hent : (s.cluster.catalog.get k).isSome)
    (hnone : ∀ x < s.cluster.shards.length, (s.stores (s.cluster.config.storeOf x)).objects.lookup k = none) (data : Bytes)
    {targets : List ShardId} (hnd : targets.Nodup) (hne : targets ≠ [] → targets.filter (· < s.cluster.shards.length) ≠ []) :
    (writeToShards k data targets).wp (fun r s' _ => LeavesWrites k (targets = []) r s') s := by
  by_cases hnil : targets = []
  · subst hnil
    refine wp_mono (wp_writeToShards_nil data) fun r s' t h e hr hi => iff_of_true ?_ rfl
    refine ⟨by simp [Sys.withCatalog], fun x hx => ?_⟩
    change x < s'.cluster.shards.length at hx
    show (s'.stores (s'.cluster.config.storeOf x)).objects.lookup k = none
    rw [h.2] at hx
    rw [h.1, h.2]
    exact hnone x hx
  · refine wp_mono (wp_writeToShards hnd (hne hnil)) fun r s' t h e hr hi => ?_
    subst hr
    obtain ⟨path, required, actual, errors, he⟩ := hi
    obtain rfl := Except.error.inj he
    obtain ⟨mid, placed, hl, -, -, -, hpl, -, -, hkeep, -⟩ := h
    obtain rfl := hkeep (.inr hent)
    exact iff_of_false (not_absent_of_landed hl hpl.1) hnil

omit [Crates] in
/-- A write that succeeds ends well, and one that fails removes the placeholder. -/
theorem wp_orRemove {α : Type} {p : ClusterM (Except Error α)} {g : Except Error α → ClusterM (Except Error Unit)} {nothing : Prop}
    (hp : p.wp (fun r s' _ => LeavesWrites k nothing r s') s) (hok : ∀ a s', (g (.ok a)).wp (fun r _ _ => r = .ok ()) s')
    (herr : ∀ e, g (.error e) = do
      let _ ← catalogRemove k
      pure (.error e)) :
    (p >>= g).wp (fun r s' _ => Insufficient r → (Absent s' k ↔ nothing)) s := by
  rw [wp_bind]
  refine wp_mono hp fun r s' t h => ?_
  cases r with
  | ok a =>
    refine wp_mono (hok a s') fun r s'' t' hr => ?_
    subst hr
    rintro ⟨path, required, actual, errors, he⟩
    cases he
  | error e =>
    rw [herr, wp_bind, catalogRemove, wp_step, wp_pure]
    exact h e rfl

/-- The copy fails, and its placeholder goes: what was written stays. -/
theorem wp_copyWrite {src : Key} {o : Object} (hk : Absent s k) (hne : k ≠ src)
    (hf : ∀ refs, s.cluster.config.rawRefs = some refs → refs.Fits s.cluster) :
    (do
      let metaBytes ← readObjectMetadata src o.attributes
      let refs ← rawRefs
      match (if metaBytes.isEmpty then none else refs) with
      | some refs => do
        match ← putWithMeta refs k o.body metaBytes with
        | .ok _ => pure (.ok ())
        | .error e => do
          let _ ← catalogRemove k
          pure (.error e)
      | none => do
        match ← writeToShards k o.body (s.cluster.selectTargets k) with
        | .ok placed => do
          let _ ← catalogPut k placed o.body.length (some (crc32c o.body)) 0
          pure (.ok ())
        | .error e => do
          let _ ← catalogRemove k
          pure (.error e) : ClusterM (Except Error Unit)).wp
      (fun r s' _ => Insufficient r → (Absent s' k ↔ s.cluster.selectTargets k = []))
      (s.reserve k (s.cluster.selectTargets k) o.body.length) := by
  generalize hs1 : s.reserve k (s.cluster.selectTargets k) o.body.length = s1
  have hcl1 : SameRefs s.cluster s1.cluster := by rw [← hs1]; exact ⟨rfl, rfl⟩
  have hst1 : s1.stores = s.stores := by rw [← hs1]; rfl
  have hh1 : ∀ x, s1.cluster.healthOf x = s.cluster.healthOf x := by rw [← hs1]; exact fun _ => rfl
  have hent1 : (s1.cluster.catalog.get k).isSome := by
    rw [← hs1, get_reserve hk.entry, if_pos rfl]
    rfl
  rw [wp_bind]
  refine wp_mono (@looks_readObjectMetadata src _ src o.attributes s1) fun metaBytes s2 t2 h2 => ?_
  have hcl2 := hcl1.trans h2.same
  have hh2 : ∀ x, s2.cluster.healthOf x = s.cluster.healthOf x := fun x => (h2.health x).trans (hh1 x)
  have hent2 : (s2.cluster.catalog.get k).isSome := by rw [h2.catalog k hne]; exact hent1
  have hsel : s2.cluster.selectTargets k = s.cluster.selectTargets k :=
    Cluster.selectTargets_congr hcl2.length hcl2.config hh2 k
  rw [wp_bind, rawRefs, wp_look, hcl2.config]
  cases hrefs : (if metaBytes.isEmpty then none else s.cluster.config.rawRefs) with
  | some refs =>
    have hsome : s.cluster.config.rawRefs = some refs := by
      split at hrefs
      · cases hrefs
      · exact hrefs
    have hf2 : refs.Fits s2.cluster := by
      intro x st hw hx
      rw [hcl2.storeRef]
      refine hf refs hsome x st ?_ hx
      unfold Cluster.writable at hw ⊢
      rw [hh2 x] at hw
      exact hw
    have hwrite := putWithMeta_leaves hf2 hent2 o.body metaBytes
    rw [hsel] at hwrite
    exact wp_orRemove hwrite (fun _ _ => rfl) fun _ => rfl
  | none =>
    have hnone : ∀ x < s2.cluster.shards.length, (s2.stores (s2.cluster.config.storeOf x)).objects.lookup k = none := by
      intro x hx
      rw [hcl2.length] at hx
      rw [hcl2.config, h2.objects, hst1]
      exact hk.stored x hx
    have hwrite := writeToShards_leaves hent2 hnone o.body (s.cluster.nodup_selectTargets k) fun hne => by
      rw [hcl2.length]
      exact Cluster.filter_selectTargets_ne hne
    exact wp_orRemove hwrite (fun _ _ => rfl) fun _ => rfl

theorem wp_copyIfNotExists_insufficient {src : Key} (hk : Absent s k)
    (hf : ∀ refs, s.cluster.config.rawRefs = some refs → refs.Fits s.cluster) :
    (copyIfNotExists src k).wp (fun r s' _ => Insufficient r → (Absent s' k ↔ s.cluster.selectTargets k = [])) s := by
  have hno : ∀ {e : Error} {P : Prop}, (∀ path required actual errors, e ≠ .insufficientWrites path required actual errors) →
      Insufficient (.error e) → P := by
    intro e P he hi
    obtain ⟨path, required, actual, errors, h⟩ := hi
    exact absurd (Except.error.inj h) (he path required actual errors)
  unfold copyIfNotExists
  rw [wp_bind, readOnly, wp_look]
  split
  · rw [wp_pure]
    exact hno (by simp)
  rw [wp_bind, catalogGet, wp_look, hk.entry]
  simp only [Option.isSome_none, Bool.false_eq_true, if_false]
  rw [wp_bind]
  refine wp_mono (wp_and (wp_and (looks_clusterGet src s) (wp_get_error src))
    (show (get src).wp (fun o _ _ => k = src → ∃ e, o = .error e) s from ?_)) fun r s1 t1 h1 => ?_
  · by_cases hne : k = src
    · subst hne
      exact wp_mono (wp_get_absent hk) fun o _ _ h _ => h
    · exact fun h => absurd h hne
  · obtain ⟨⟨h1, herr⟩, hsame⟩ := h1
    cases r with
    | error e =>
      rw [wp_pure]
      rcases herr e rfl with rfl | ⟨se, rfl⟩
      · exact hno (by simp)
      · exact hno (by simp)
    | ok o =>
      have hne : k ≠ src := fun h => by
        obtain ⟨e, he⟩ := hsame h
        cases he
      have hsel : s1.cluster.selectTargets k = s.cluster.selectTargets k :=
        Cluster.selectTargets_congr h1.same.length h1.same.config h1.health k
      have hk1 := hk.looked h1 hne
      have hf1 : ∀ refs, s1.cluster.config.rawRefs = some refs → refs.Fits s1.cluster := by
        intro refs hr
        rw [h1.same.config] at hr
        exact (hf refs hr).looked h1
      dsimp only
      rw [wp_bind, selectTargets, wp_look, wp_bind, catalogTryInsert, wp_step]
      have hd : (s1.cluster.catalog.tryInsert k (s1.cluster.selectTargets k) o.body.length s1.now).1 = true := by
        rw [Catalog.tryInsert, hk1.entry]
      simp only [hd, Bool.not_true, Bool.false_eq_true, if_false]
      rw [← hsel]
      exact wp_copyWrite hk1 hne hf1

/-! ## A failed create -/

/-- A write that too few shards took, of a key that was absent: a `put` leaves nothing; a create always
    leaves what was written; `put_with_meta` leaves nothing unless a sidecar shard it was sent to took the
    body but not the metadata; `copy_if_not_exists` leaves nothing only if there was no shard to write to. -/
theorem failed_create_leaves_nothing_iff (s : Sys) (k src : Key) (payload metadata : Bytes) (refs : RawRefRegistry)
    (hk : Absent s k) (hcalm : ∀ st n, (s.stores st).Calm .delete n) (hf : refs.Fits s.cluster)
    (hown : ∀ refs, s.cluster.config.rawRefs = some refs → refs.Fits s.cluster) :
    (put k payload).wp (fun r s' _ => Insufficient r → Invisible s' k) s ∧
    (putOpts k payload .create).wp (fun r s' _ => Insufficient r → ¬ Invisible s' k) s ∧
    (putWithMeta refs k payload metadata).wp (fun r s' _ => Insufficient r →
      (Invisible s' k ↔ ∀ x ∈ (s.metaRounds refs k payload metadata).1, ∀ st, s.cluster.metaRef refs x = some st →
        (s.stores st).halfWritten (refs.kind x) metadata = false)) s ∧
    (copyIfNotExists src k).wp (fun r s' _ => Insufficient r → (Invisible s' k ↔ s.cluster.selectTargets k = [])) s := by
  have hiff : ∀ s', Invisible s' k ↔ Absent s' k := fun s' => ⟨fun h => h.toAbsent, fun h => h.invisible⟩
  simp only [hiff]
  exact ⟨wp_put_insufficient payload hk hcalm, wp_create_insufficient payload,
    wp_putWithMeta_insufficient hk hcalm hf, wp_copyIfNotExists_insufficient hk hown⟩

end Writes

open Sample Raw.Sample

/-- Two shards that must both take a write; the second one fails its first. -/
def secondFails : Sys := sys 2 (config 2 2) fun id => if id = 1 then Store.failing fresh .put [broken] else fresh

theorem absent_secondFails (k : Key) : Absent secondFails k :=
  ⟨rfl, fun x _ => by show (secondFails.stores x).objects.lookup k = none; simp only [secondFails, sys]; split <;> rfl⟩

theorem calm_secondFails (st : StoreId) (n : Nat) : (secondFails.stores st).Calm .delete n := by
  have h : (secondFails.stores st).outcomes .delete = [] := by
    simp only [secondFails, sys]
    split <;> rfl
  simp [Store.Calm, h]

theorem failed_put_leaves_nothing_two_shards :
    Insufficient ((put "k" [1]).exec secondFails).1 ∧ Invisible ((put "k" [1]).exec secondFails).2 "k" := by
  have hi : Insufficient ((put "k" [1]).exec secondFails).1 := ⟨"k", 2, 1, [⟨1, false, .backend false⟩], by decide +kernel⟩
  refine ⟨hi, (failed_create_leaves_nothing_iff secondFails "k" "j" [1] [] (sidecars 2) (absent_secondFails _)
    calm_secondFails ?_ ?_).1 hi⟩
  · intro x st _ h
    simp only [RawRefRegistry.get, sidecars, List.getElem?_replicate] at h
    split at h <;> cases h
  · intro refs h
    cases h

/-- A create that fails leaves the object on the shard that took it. -/
theorem a_failed_create_stays_on_a_shard :
    Absent secondFails "k" ∧ (∀ st n, (secondFails.stores st).Calm .delete n) ∧
    Insufficient ((putOpts "k" [1] .create).exec secondFails).1 ∧
    ((((putOpts "k" [1] .create).exec secondFails).2.stores 0).objects.lookup "k").map (·.body) = some [1] ∧
    ¬ Invisible ((putOpts "k" [1] .create).exec secondFails).2 "k" := by
  have hbody : ((((putOpts "k" [1] .create).exec secondFails).2.stores 0).objects.lookup "k").map (·.body) = some [1] := by
    decide +kernel
  refine ⟨absent_secondFails _, calm_secondFails, ⟨"k", 2, 1, [⟨1, false, .backend false⟩], by decide +kernel⟩,
    hbody, fun h => ?_⟩
  have hnone : (((putOpts "k" [1] .create).exec secondFails).2.stores 0).objects.lookup "k" = none :=
    h.stored 0 (by decide +kernel)
  rw [hnone] at hbody
  cases hbody

end ObjStr.Sharded
