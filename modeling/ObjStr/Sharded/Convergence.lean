/-
  ObjStr.Sharded.Convergence — one repair sweep is enough: where no call fails, it ends, every key
  has the replicas it can have and no more than it should, and a second sweep does nothing.

  The first phase copies a key while too few of its shards are Healthy or Syncing: each copy
  goes to a Healthy shard that the entry does not list, so there is one less of those. The
  second phase removes a key from Healthy shards while enough others are Healthy: the Healthy
  shards of the entry get fewer. What the second phase leaves is never too little for the first.
-/

import ObjStr.Sharded.Sweeps

namespace ObjStr.Sharded

open ObjStr.Lib ObjStr.Raw Proc

variable {s s' s'' : Sys} {c : Cluster} {entry : PlacementEntry}

/-! ## Frames -/

/-- Only the entries of these keys changed, and nothing about the shards. -/
structure Touched (ks : List Key) (s s' : Sys) : Prop where
  config : s'.cluster.config = s.cluster.config
  shards : s'.cluster.shards = s.cluster.shards
  others : ∀ k, k ∉ ks → s'.cluster.catalog.get k = s.cluster.catalog.get k

theorem Touched.of_cluster {ks : List Key} (h : s'.cluster = s.cluster) : Touched ks s s' :=
  ⟨by rw [h], by rw [h], by simp [h]⟩

theorem Touched.trans {ks ks' ks'' : List Key} (h : Touched ks s s') (h' : Touched ks' s' s'') (hs : ks ⊆ ks'') (hs' : ks' ⊆ ks'') :
    Touched ks'' s s'' where
  config := h'.config.trans h.config
  shards := h'.shards.trans h.shards
  others := fun k hk => (h'.others k fun hm => hk (hs' hm)).trans (h.others k fun hm => hk (hs hm))

theorem Touched.isHealthy {ks : List Key} (h : Touched ks s s') (x : ShardId) : s'.cluster.isHealthy x = s.cluster.isHealthy x :=
  isHealthy_congr h.shards x

theorem Touched.storeRef {ks : List Key} (h : Touched ks s s') (x : ShardId) : s'.cluster.storeRef x = s.cluster.storeRef x := by
  unfold Cluster.storeRef
  rw [h.config, h.shards]

/-- A copy lists the shard. -/
theorem Copied.listed {key : Key} {src dst : ShardId} {size : Nat} {t : Steps Event Sys}
    (h : Copied key src dst s (.ok size) s' t) (hentry : s.cluster.catalog.get key = some entry) :
    ∃ ml, Touched [key] s s' ∧ s'.cluster.catalog.get key = some (entry.withReplica dst ml) := by
  obtain ⟨s1, t1, h1, ml, rfl, -⟩ := h
  have hget : ∀ k, (s1.cluster.catalog.addReplica key dst size ml s1.now).get k =
      if k = key then some (entry.withReplica dst ml) else s.cluster.catalog.get k := by
    intro k
    rw [Catalog.get_addReplica, h1.cluster, hentry]
    rfl
  refine ⟨ml, ⟨?_, ?_, fun k hk => ?_⟩, ?_⟩
  · show s1.cluster.config = _
    rw [h1.cluster]
  · show s1.cluster.shards = _
    rw [h1.cluster]
  · exact (hget k).trans (if_neg (by simpa using hk))
  · exact (hget key).trans (if_pos rfl)

/-- A removal takes the shard out. -/
theorem Removed.unlisted {key : Key} {x : ShardId} {t : Steps Event Sys} (h : Removed key x s (.ok ()) s' t)
    (hentry : s.cluster.catalog.get key = some entry) (hne : (entry.without x).shards ≠ []) :
    Touched [key] s s' ∧ s'.cluster.catalog.get key = some (entry.without x) := by
  obtain ⟨s1, t1, h1, rfl, -⟩ := h
  rw [← h1.cluster] at hentry
  refine ⟨⟨?_, ?_, fun k hk => ?_⟩, ?_⟩
  · show s1.cluster.config = _
    rw [h1.cluster]
  · show s1.cluster.shards = _
    rw [h1.cluster]
  · refine (Catalog.get_removeShard_ne _ _ _ _ (by simpa using hk)).trans ?_
    rw [h1.cluster]
  · refine (Catalog.get_removeShard _ _ hentry x).trans ?_
    simp [hne]

/-! ## Copying one key -/

def Cluster.missing (c : Cluster) (e : PlacementEntry) : List ShardId :=
  (List.range c.shards.length).filter fun id => !e.shards.contains id && c.isHealthy id

theorem Cluster.lt_of_isHealthy {x : ShardId} (h : c.isHealthy x = true) : x < c.shards.length := by
  by_contra hn
  simp [isHealthy, healthOf, List.getElem?_eq_none (Nat.le_of_not_lt hn)] at h

theorem Cluster.mem_missing {x : ShardId} : x ∈ c.missing entry ↔ x ∉ entry.shards ∧ c.isHealthy x = true := by
  simp only [missing, List.mem_filter, List.mem_range, Bool.and_eq_true, Bool.not_eq_true', List.contains_eq_mem,
    decide_eq_false_iff_not]
  exact ⟨fun h => h.2, fun h => ⟨lt_of_isHealthy h.2, h⟩⟩

theorem Touched.missing {ks : List Key} (h : Touched ks s s') (e : PlacementEntry) :
    s'.cluster.missing e = s.cluster.missing e := by
  unfold Cluster.missing
  rw [h.shards]
  refine List.filter_congr fun x _ => ?_
  rw [h.isHealthy]

/-- A copy goes to one of them. -/
theorem Cluster.length_missing_withReplica {x : ShardId} (h : x ∈ c.missing entry) (ml : UInt16) :
    (c.missing (entry.withReplica x ml)).length < (c.missing entry).length := by
  have hshards : (entry.withReplica x ml).shards = entry.shards ++ [x] := by
    simp [PlacementEntry.withReplica, (Cluster.mem_missing.mp h).1]
  have heq : c.missing (entry.withReplica x ml) = (c.missing entry).filter (· != x) := by
    rw [missing, missing, hshards, List.filter_filter]
    refine List.filter_congr fun y _ => ?_
    by_cases hy : y = x <;> simp [hy]
  rw [heq]
  exact List.length_filter_lt_length_iff_exists.mpr ⟨x, h, by simp⟩

structure Repaired (c : Cluster) (e e' : PlacementEntry) : Prop where
  nodup : e.shards.Nodup → e'.shards.Nodup
  enough : (∃ x ∈ e.shards, c.isHealthy x = true) →
    c.config.replicationFactor ≤ c.countHealth e'.shards [.healthy, .syncing] ∨ ∀ x, c.isHealthy x = true → x ∈ e'.shards
  same : (∀ x ∈ e.shards, c.isHealthy x = false) → e' = e

/-- There is nothing to do. -/
theorem Repaired.refl (h : (∃ x ∈ entry.shards, c.isHealthy x = true) →
    c.config.replicationFactor ≤ c.countHealth entry.shards [.healthy, .syncing] ∨ c.missing entry = []) :
    Repaired c entry entry := by
  refine ⟨id, fun hx => ?_, fun _ => rfl⟩
  rcases h hx with h1 | h1
  · exact .inl h1
  · refine .inr fun x hh => ?_
    by_contra hn
    have h2 := Cluster.mem_missing.mpr ⟨hn, hh⟩
    rw [h1] at h2
    cases h2

/-- After one copy. -/
theorem Repaired.after_copy {src dst : ShardId} {e' : PlacementEntry} {ml : UInt16} (h : Repaired c (entry.withReplica dst ml) e')
    (hsrc : src ∈ entry.shards) (hh : c.isHealthy src = true) (hdst : dst ∈ c.missing entry) : Repaired c entry e' := by
  have hshards : (entry.withReplica dst ml).shards = entry.shards ++ [dst] := by
    simp [PlacementEntry.withReplica, (Cluster.mem_missing.mp hdst).1]
  refine ⟨fun hnd => h.nodup ?_, fun _ => h.enough ⟨src, ?_, hh⟩, fun hno => ?_⟩
  · rw [hshards, List.nodup_append]
    refine ⟨hnd, by simp, fun a ha b hb => ?_⟩
    rw [List.mem_singleton.mp hb]
    exact fun hab => (Cluster.mem_missing.mp hdst).1 (hab ▸ ha)
  · rw [hshards]
    exact List.mem_append_left _ hsrc
  · rw [hno src hsrc] at hh
    cases hh

def Cluster.Attached (c : Cluster) : Prop := ∀ x, c.isHealthy x = true → c.storeRef x ≠ none

theorem Touched.attached {ks : List Key} (h : Touched ks s s') (ha : s.cluster.Attached) : s'.cluster.Attached := fun x hx => by
  rw [h.storeRef]
  exact ha x ((h.isHealthy x).symm.trans hx)

theorem Repaired.congr {c' : Cluster} {e e' : PlacementEntry} (hc : c'.config = c.config) (hs : c'.shards = c.shards)
    (h : Repaired c' e e') : Repaired c e e' := by
  have hh := isHealthy_congr hs
  refine ⟨h.nodup, fun ⟨x, hx, hxh⟩ => ?_, fun hno => h.same fun x hx => (hh x).trans (hno x hx)⟩
  rcases h.enough ⟨x, hx, (hh x).trans hxh⟩ with h1 | h1
  · rw [hc, Cluster.countHealth_congr hs] at h1
    exact .inl h1
  · exact .inr fun y hy => h1 y ((hh y).trans hy)

theorem wp_repairKey (refs : Option RawRefRegistry) {key : Key} {rounds : Nat} (n : Nat) (ha : s.cluster.Attached)
    (hentry : s.cluster.catalog.get key = some entry) (hr : (s.cluster.missing entry).length < rounds) :
    (repairKey refs key rounds n).wp (fun r s' t => Failed key (events t) ∨
      r.isSome = true ∧ Touched [key] s s' ∧ ∃ e', s'.cluster.catalog.get key = some e' ∧ Repaired s.cluster entry e') s := by
  induction rounds generalizing s n entry with
  | zero => exact absurd hr (Nat.not_lt_zero _)
  | succ rounds ih =>
    have hstop : Repaired s.cluster entry entry → ∀ m : Nat, ∀ es : List Event, Failed key es ∨
        (some m).isSome = true ∧ Touched [key] s s ∧
          ∃ e', s.cluster.catalog.get key = some e' ∧ Repaired s.cluster entry e' := fun h m es =>
      .inr ⟨rfl, .of_cluster rfl, entry, hentry, h⟩
    unfold repairKey
    rw [wp_bind, catalogGet, wp_look, hentry]
    dsimp only
    rw [wp_bind, wp_look]
    split
    · next h =>
      rw [wp_pure]
      exact hstop (.refl fun _ => .inl (of_decide_eq_true h)) n _
    · rw [wp_bind, wp_look]
      split
      · next h =>
        rw [wp_pure]
        refine hstop (.refl fun hsource => ?_) n _
        obtain ⟨x, hx, hxh⟩ := hsource
        exact absurd hxh (by simpa using List.find?_eq_none.mp h x hx)
      · next source h =>
        rw [wp_bind, findReplicationTarget, wp_bind, catalogGet, wp_look, wp_look, hentry]
        split
        · next htarget =>
          rw [wp_pure]
          refine hstop (.refl fun _ => .inr ?_) n _
          exact maxByKey_eq_none.mp htarget
        · next target htarget =>
          have hsrc := List.mem_of_find?_eq_some h
          have hsrch := List.find?_some h
          have hdst : target ∈ s.cluster.missing entry := mem_of_maxByKey htarget
          rw [wp_bind]
          refine wp_mono (wp_replicateObject _ _ _ _) fun r s1 t1 h1 => ?_
          cases r with
          | error e =>
            obtain ⟨s2, t2, h2, rfl, rfl, hfail⟩ := h1
            rw [wp_pure]
            have hf := hfail (ha _ hsrch) (ha _ (Cluster.mem_missing.mp hdst).2)
            exact .inl (Failed.right (Failed.right (Failed.right (Failed.right (Failed.left hf)))))
          | ok size =>
            obtain ⟨ml, htouch, hget⟩ := Copied.listed h1 hentry
            have hmiss := Cluster.length_missing_withReplica hdst ml
            refine wp_mono (ih (n + 1) (htouch.attached ha) hget ?_) fun r s4 t4 h4 => ?_
            · rw [htouch.missing]
              omega
            · rcases h4 with h4 | ⟨h4, h5, e', h6, h7⟩
              · exact .inl (Failed.right (Failed.right (Failed.right (Failed.right (Failed.right h4)))))
              · refine .inr ⟨h4, htouch.trans h5 (by simp) (by simp), e', h6, ?_⟩
                exact (h7.congr htouch.config htouch.shards).after_copy hsrc hsrch hdst

/-! ## Trimming one key -/

structure Trimmed (c : Cluster) (e e' : PlacementEntry) : Prop where
  atMost : c.countHealth e'.shards [.healthy] ≤ c.config.replicationFactor
  same : c.countHealth e.shards [.healthy] ≤ c.config.replicationFactor → e' = e
  atLeast : c.config.replicationFactor < c.countHealth e.shards [.healthy] →
    c.config.replicationFactor ≤ c.countHealth e'.shards [.healthy]

theorem Trimmed.refl (h : c.countHealth entry.shards [.healthy] ≤ c.config.replicationFactor) : Trimmed c entry entry :=
  ⟨h, fun _ => rfl, fun h' => absurd h (Nat.not_le_of_lt h')⟩

theorem Trimmed.congr {c' : Cluster} {e e' : PlacementEntry} (hc : c'.config = c.config) (hs : c'.shards = c.shards)
    (h : Trimmed c' e e') : Trimmed c e e' := by
  obtain ⟨h1, h2, h3⟩ := h
  rw [hc] at h1 h2 h3
  rw [Cluster.countHealth_congr hs] at h1 h2 h3
  rw [Cluster.countHealth_congr hs] at h3
  exact ⟨h1, h2, h3⟩

/-- Without duplicates, a Healthy shard that goes leaves one less. -/
theorem Cluster.countHealth_without {x : ShardId} (hnd : entry.shards.Nodup) (hx : x ∈ entry.shards) (hh : c.isHealthy x = true) :
    c.countHealth (entry.without x).shards [.healthy] + 1 = c.countHealth entry.shards [.healthy] := by
  rw [countHealth_healthy, countHealth_healthy, PlacementEntry.without, List.filter_comm,
    ← (hnd.filter _).erase_eq_filter x]
  have hmem : x ∈ entry.shards.filter fun id => c.isHealthy id := List.mem_filter.mpr ⟨hx, hh⟩
  rw [List.length_erase_of_mem hmem]
  have hpos := List.length_pos_of_mem hmem
  omega

/-- Too many Healthy replicas: one of them can go. -/
theorem Cluster.excessShard_eq_none (hnd : entry.shards.Nodup) (h : c.excessShard entry.shards = none) :
    c.countHealth entry.shards [.healthy] ≤ c.config.replicationFactor := by
  by_contra hn
  rw [countHealth_healthy] at hn
  have hlen := (List.filter_sublist (p := fun id => c.isHealthy id) (l := entry.shards)).length_le
  obtain ⟨x, hx⟩ : ∃ x, x ∈ entry.shards.filter fun id => c.isHealthy id :=
    List.exists_mem_of_ne_nil _ fun h0 => by simp [h0] at hn
  unfold excessShard at h
  rw [if_neg (by omega), minByKey_eq_none, List.filter_eq_nil_iff] at h
  refine h x hx (decide_eq_true ?_)
  have h1 := List.mem_filter.mp hx
  have h2 := Cluster.countHealth_without hnd h1.1 h1.2
  rw [countHealth_healthy, countHealth_healthy] at h2
  dsimp only [PlacementEntry.without] at h2
  omega

theorem PlacementEntry.nodup_without {x : ShardId} (h : entry.shards.Nodup) : (entry.without x).shards.Nodup := h.filter _

theorem wp_trimKey {key : Key} {rounds : Nat} (n : Nat) (ha : s.cluster.Attached)
    (hentry : s.cluster.catalog.get key = some entry) (hnd : entry.shards.Nodup)
    (hr : s.cluster.countHealth entry.shards [.healthy] < rounds) :
    (trimKey key rounds n).wp (fun r s' t => Failed key (events t) ∨
      r.isSome = true ∧ Touched [key] s s' ∧ ∃ e', s'.cluster.catalog.get key = some e' ∧ Trimmed s.cluster entry e') s := by
  induction rounds generalizing s n entry with
  | zero => exact absurd hr (Nat.not_lt_zero _)
  | succ rounds ih =>
    unfold trimKey
    rw [wp_bind, pickExcessShard, wp_bind, catalogGet, wp_look, hentry]
    dsimp only
    rw [wp_look]
    cases hx : s.cluster.excessShard entry.shards with
    | none =>
      rw [wp_pure]
      exact .inr ⟨rfl, .of_cluster rfl, entry, hentry, .refl (Cluster.excessShard_eq_none hnd hx)⟩
    | some x =>
      obtain ⟨hmem, hh, hsafe⟩ := Cluster.excessShard_safe hx
      have hcount := Cluster.countHealth_without hnd hmem hh
      have hne : (entry.without x).shards ≠ [] := by
        intro h0
        have h1 := s.cluster.config.one_le_minWrites
        have h2 := s.cluster.config.minWrites_le
        have h3 : s.cluster.countHealth (entry.shards.filter (· != x)) [.healthy] = 0 := by
          rw [show entry.shards.filter (· != x) = [] from h0]
          rfl
        omega
      dsimp only
      rw [wp_bind]
      refine wp_mono (wp_removeReplica _ _) fun r s1 t1 h1 => ?_
      cases r with
      | error e =>
        obtain ⟨s2, t2, h2, rfl, rfl, hfail⟩ := h1
        rw [wp_pure]
        exact .inl (Failed.right (Failed.left (hfail (ha x hh))))
      | ok u =>
        obtain ⟨htouch, hget⟩ := Removed.unlisted h1 hentry hne
        have hcongr := Cluster.countHealth_congr htouch.shards
        refine wp_mono (ih (n + 1) (htouch.attached ha) hget (PlacementEntry.nodup_without hnd) ?_) fun r s4 t4 h4 => ?_
        · rw [hcongr]
          omega
        · rcases h4 with h4 | ⟨h4, h5, e', h6, h7⟩
          · exact .inl (Failed.right (Failed.right h4))
          · refine .inr ⟨h4, htouch.trans h5 (by simp) (by simp), e', h6, ?_⟩
            have h8 := h7.congr htouch.config htouch.shards
            have hsafe' : s.cluster.config.replicationFactor ≤ s.cluster.countHealth (entry.without x).shards [.healthy] := hsafe
            refine ⟨h8.atMost, fun hle => ?_, fun _ => ?_⟩
            · omega
            · by_cases hlt : s.cluster.config.replicationFactor < s.cluster.countHealth (entry.without x).shards [.healthy]
              · exact h8.atLeast hlt
              · rw [h8.same (by omega)]
                exact hsafe'

/-! ## One phase -/

variable {R : PlacementEntry → PlacementEntry → Prop}

/-- One loop for each key of a list: the entries of these keys change as the loop says. -/
theorem wp_forKeys {keys : List (Key × Nat)} {f : Key → Nat → ClusterM (Option Nat)} (hnd : (keys.map (·.1)).Nodup)
    (hkeys : ∀ k ∈ keys.map (·.1), (s.cluster.catalog.get k).isSome)
    (hf : ∀ k n s1 e, Touched (keys.map (·.1)) s s1 → s.cluster.catalog.get k = some e → s1.cluster.catalog.get k = some e →
      (f k n).wp (fun r s' t => Failed k (events t) ∨
        r.isSome = true ∧ Touched [k] s1 s' ∧ ∃ e', s'.cluster.catalog.get k = some e' ∧ R e e') s1) :
    (forKeys keys f).wp (fun r s' t => (∃ k ∈ keys.map (·.1), Failed k (events t)) ∨
      r.isSome = true ∧ Touched (keys.map (·.1)) s s' ∧
        ∀ k ∈ keys.map (·.1), ∀ e, s.cluster.catalog.get k = some e →
          ∃ e', s'.cluster.catalog.get k = some e' ∧ R e e') s := by
  refine wp_foldlM (fun done acc s' t => (∃ k ∈ keys.map (·.1), Failed k (events t)) ∨
    acc.isSome = true ∧ Touched (done.map (·.1)) s s' ∧ ∀ k ∈ done.map (·.1), ∀ e, s.cluster.catalog.get k = some e →
      ∃ e', s'.cluster.catalog.get k = some e' ∧ R e e') (.inr ⟨rfl, .of_cluster rfl, by simp⟩) ?_ (fun _ _ _ h => h)
  intro done k rest hl acc s1 t hI
  have hkm : k.1 ∈ keys.map (·.1) := List.mem_map_of_mem (by simp [hl])
  rcases hI with ⟨k', hk', hfail⟩ | ⟨hacc, htouch, hdone⟩
  · exact .inl ⟨k', hk', hfail.left⟩
  · obtain ⟨n, rfl⟩ := Option.isSome_iff_exists.mp hacc
    obtain ⟨e, he⟩ := Option.isSome_iff_exists.mp (hkeys k.1 hkm)
    -- the key has not been visited yet
    have hnew : k.1 ∉ done.map (·.1) := by
      rw [hl, List.map_append, List.nodup_append] at hnd
      exact fun hm => hnd.2.2 k.1 hm k.1 (by simp) rfl
    have hsub : done.map (·.1) ⊆ keys.map (·.1) := by
      rw [hl, List.map_append]
      exact List.subset_append_left _ _
    have he1 : s1.cluster.catalog.get k.1 = some e := (htouch.others k.1 hnew).trans he
    refine wp_mono (hf k.1 n s1 e (htouch.trans (@Touched.of_cluster s1 s1 [] rfl) hsub (by simp)) he he1) fun r s2 t2 h2 => ?_
    rcases h2 with h2 | ⟨hr, htouch2, e', he', hR⟩
    · exact .inl ⟨k.1, hkm, h2.right⟩
    · refine .inr ⟨hr, htouch.trans htouch2 (by simp) (by simp), fun k' hk' e1 he1 => ?_⟩
      by_cases hkk : k' = k.1
      · subst hkk
        rw [he] at he1
        cases he1
        exact ⟨e', he', hR⟩
      · have hk1 : k' ∈ done.map (·.1) := by
          rw [List.map_append, List.mem_append] at hk'
          rcases hk' with h | h
          · exact h
          · simp at h
            exact absurd h hkk
        obtain ⟨e2, h3, h4⟩ := hdone k' hk1 e1 he1
        exact ⟨e2, (htouch2.others k' (by simpa using hkk)).trans h3, h4⟩

/-! ## The keys of a phase -/

def Cluster.selected (c : Cluster) (g : PlacementEntry → Nat) (p : Nat → Bool) : List (Key × Nat) :=
  (c.catalog.inner.entries.map fun e => (e.1, g e.2)).filter fun e => p e.2

theorem Cluster.mem_selected {g : PlacementEntry → Nat} {p : Nat → Bool} {k : Key} :
    k ∈ (c.selected g p).map (·.1) ↔ ∃ e, c.catalog.get k = some e ∧ p (g e) = true := by
  have hget : ∀ e, c.catalog.get k = some e ↔ (⟨k, e⟩ : Sigma fun _ : Key => PlacementEntry) ∈ c.catalog.inner.entries :=
    fun e => AList.mem_lookup_iff
  simp only [selected, List.mem_map, List.mem_filter, hget]
  constructor
  · rintro ⟨_, ⟨⟨e, he, rfl⟩, hp⟩, rfl⟩
    exact ⟨e.2, he, hp⟩
  · rintro ⟨e, he, hp⟩
    exact ⟨(k, g e), ⟨⟨⟨k, e⟩, he, rfl⟩, hp⟩, rfl⟩

theorem Cluster.findUnderReplicated_eq (c : Cluster) : c.findUnderReplicated =
    c.selected (fun e => c.countHealth e.shards [.healthy, .syncing]) fun n => decide (n < c.config.replicationFactor) := rfl

theorem Cluster.findOverReplicated_eq (c : Cluster) : c.findOverReplicated =
    c.selected (fun e => c.countHealth e.shards [.healthy, .degraded]) fun n => decide (c.config.replicationFactor < n) := rfl

theorem Cluster.nodup_selected (c : Cluster) (g : PlacementEntry → Nat) (p : Nat → Bool) :
    ((c.selected g p).map (·.1)).Nodup := by
  have h1 : (c.catalog.inner.entries.map fun e => (e.1, g e.2)).map (·.1) = c.catalog.inner.entries.keys := by
    rw [List.map_map]
    rfl
  have h2 := List.Sublist.map (·.1)
    (List.filter_sublist (p := fun e => p e.2) (l := c.catalog.inner.entries.map fun e => (e.1, g e.2)))
  rw [h1] at h2
  exact h2.nodup c.catalog.inner.nodupKeys

theorem Cluster.length_selected (c : Cluster) (g : PlacementEntry → Nat) (p : Nat → Bool) :
    (c.selected g p).length ≤ c.catalog.inner.entries.length :=
  (List.filter_sublist.length_le).trans (Nat.le_of_eq (List.length_map _))

/-- No key is new: there are not more entries. -/
theorem Cluster.length_entries_le {c' : Cluster} (h : ∀ k, (c'.catalog.get k).isSome → (c.catalog.get k).isSome) :
    c'.catalog.inner.entries.length ≤ c.catalog.inner.entries.length := by
  have hsub : c'.catalog.inner.entries.keys ⊆ c.catalog.inner.entries.keys := by
    intro k hk
    have h1 := h k (AList.lookup_isSome.mpr hk)
    exact AList.lookup_isSome.mp h1
  have h2 := (c'.catalog.inner.nodupKeys.subperm hsub).length_le
  simpa [List.keys] using h2

/-- A phase over all the keys that a count selects: each changes as the loop says, the others
    have nothing to change. -/
theorem wp_phase {f : Key → Nat → ClusterM (Option Nat)} {g : PlacementEntry → Nat} {p : Nat → Bool} {batchSize : Nat}
    (hbatch : s.cluster.catalog.inner.entries.length ≤ batchSize)
    (hf : ∀ k n s1 e, Touched (((s.cluster.selected g p).take batchSize).map (·.1)) s s1 → s.cluster.catalog.get k = some e →
      s1.cluster.catalog.get k = some e →
      (f k n).wp (fun r s' t => Failed k (events t) ∨
        r.isSome = true ∧ Touched [k] s1 s' ∧ ∃ e', s'.cluster.catalog.get k = some e' ∧ R e e') s1)
    (hrest : ∀ e, p (g e) = false → R e e) :
    (forKeys ((s.cluster.selected g p).take batchSize) f).wp (fun r s' t =>
      (∃ k, (s.cluster.catalog.get k).isSome ∧ Failed k (events t)) ∨
      r.isSome = true ∧ s'.cluster.config = s.cluster.config ∧ s'.cluster.shards = s.cluster.shards ∧
        (∀ k, s.cluster.catalog.get k = none → s'.cluster.catalog.get k = none) ∧
        ∀ k e, s.cluster.catalog.get k = some e → ∃ e', s'.cluster.catalog.get k = some e' ∧ R e e') s := by
  have htake : (s.cluster.selected g p).take batchSize = s.cluster.selected g p :=
    List.take_of_length_le ((s.cluster.length_selected g p).trans hbatch)
  rw [htake] at hf ⊢
  have hsome : ∀ k ∈ (s.cluster.selected g p).map (·.1), (s.cluster.catalog.get k).isSome := by
    intro k hk
    obtain ⟨e, he, -⟩ := Cluster.mem_selected.mp hk
    simp [he]
  refine wp_mono (wp_forKeys (s.cluster.nodup_selected g p) hsome hf) fun r s' t h => ?_
  rcases h with ⟨k, hk, hfail⟩ | ⟨hr, htouch, hall⟩
  · exact .inl ⟨k, hsome k hk, hfail⟩
  · refine .inr ⟨hr, htouch.config, htouch.shards, fun k hk => ?_, fun k e he => ?_⟩
    · rw [htouch.others k fun hm => ?_]
      · exact hk
      · have h1 := hsome k hm
        rw [hk] at h1
        cases h1
    · by_cases hm : k ∈ (s.cluster.selected g p).map (·.1)
      · exact hall k hm e he
      · refine ⟨e, (htouch.others k hm).trans he, hrest e ?_⟩
        by_contra hp
        exact hm (Cluster.mem_selected.mpr ⟨e, he, by simpa using hp⟩)

/-! ## A sweep with nothing to do -/

/-- Nothing happens but looks. -/
def Idle {α : Type} (a : α) (s : Sys) (p : ClusterM α) : Prop :=
  p.wp (fun r s' t => r = a ∧ s' = s ∧ Quiet (events t)) s

theorem idle_pure {α : Type} (a : α) : Idle a s (pure a) := ⟨rfl, rfl, fun _ h => by cases h⟩

theorem idle_bind {α β : Type} {p : ClusterM α} {g : α → ClusterM β} {a : α} {b : β} (hp : Idle a s p) (hg : Idle b s (g a)) :
    Idle b s (p >>= g) := by
  unfold Idle
  rw [wp_bind]
  refine wp_mono hp fun r s1 t1 h1 => ?_
  obtain ⟨rfl, rfl, hq⟩ := h1
  refine wp_mono hg fun r s2 t2 h2 => ⟨h2.1, h2.2.1, ?_⟩
  rw [events_append]
  exact hq.append h2.2.2

theorem idle_look {α : Type} (f : Sys → α) : Idle (f s) s (look f) := ⟨rfl, rfl, by simp [Quiet, events, look, Proc.step, steps]⟩

/-- No copy can or must be made. -/
theorem idle_repairKey (refs : Option RawRefRegistry) {key : Key} {rounds : Nat} (n : Nat)
    (hentry : s.cluster.catalog.get key = some entry) (hr : 0 < rounds)
    (h : (∃ x ∈ entry.shards, s.cluster.isHealthy x = true) →
      s.cluster.config.replicationFactor ≤ s.cluster.countHealth entry.shards [.healthy, .syncing] ∨
        ∀ x, s.cluster.isHealthy x = true → x ∈ entry.shards) :
    Idle (some n) s (repairKey refs key rounds n) := by
  obtain ⟨rounds, rfl⟩ := Nat.exists_eq_succ_of_ne_zero (Nat.ne_of_gt hr)
  unfold repairKey
  refine idle_bind (idle_look _) ?_
  rw [hentry]
  refine idle_bind (idle_look _) ?_
  split
  · exact idle_pure _
  · next henough =>
    refine idle_bind (idle_look _) ?_
    split
    · exact idle_pure _
    · next source hsource =>
      refine idle_bind (idle_bind (idle_look _) (idle_look _)) ?_
      have hmiss : s.cluster.replicationTarget ((s.cluster.catalog.get key |>.map (·.shards)).getD []) = none := by
        rw [hentry]
        refine maxByKey_eq_none.mpr (List.filter_eq_nil_iff.mpr fun x _ hx => ?_)
        rcases h ⟨source, List.mem_of_find?_eq_some hsource, List.find?_some hsource⟩ with h1 | h1
        · exact henough (decide_eq_true h1)
        · simp only [Bool.and_eq_true, Bool.not_eq_true', List.contains_eq_mem, decide_eq_false_iff_not] at hx
          exact hx.1 (h1 x hx.2)
      rw [hmiss]
      exact idle_pure _

/-- No replica can go. -/
theorem idle_trimKey {key : Key} {rounds : Nat} (n : Nat) (hentry : s.cluster.catalog.get key = some entry) (hr : 0 < rounds)
    (h : s.cluster.countHealth entry.shards [.healthy] ≤ s.cluster.config.replicationFactor) :
    Idle (some n) s (trimKey key rounds n) := by
  obtain ⟨rounds, rfl⟩ := Nat.exists_eq_succ_of_ne_zero (Nat.ne_of_gt hr)
  have hnone : s.cluster.excessShard entry.shards = none := by
    by_contra hn
    obtain ⟨x, hx⟩ := Option.ne_none_iff_exists'.mp hn
    obtain ⟨hmem, hh, hsafe⟩ := Cluster.excessShard_safe hx
    have hlt : s.cluster.countHealth (entry.shards.filter (· != x)) [.healthy] <
        s.cluster.countHealth entry.shards [.healthy] := by
      rw [Cluster.countHealth_healthy, Cluster.countHealth_healthy, List.filter_comm]
      exact List.length_filter_lt_length_iff_exists.mpr ⟨x, List.mem_filter.mpr ⟨hmem, hh⟩, by simp⟩
    omega
  have hpick : Idle none s (pickExcessShard key) := by
    unfold pickExcessShard
    refine idle_bind (idle_look _) ?_
    rw [hentry]
    dsimp only
    rw [← hnone]
    exact idle_look _
  unfold trimKey
  exact idle_bind hpick (idle_pure _)

theorem idle_forKeys {keys : List (Key × Nat)} {f : Key → Nat → ClusterM (Option Nat)}
    (hf : ∀ k ∈ keys.map (·.1), ∀ n, Idle (some n) s (f k n)) : Idle (some 0) s (forKeys keys f) := by
  unfold forKeys
  generalize 0 = n
  induction keys with
  | nil => exact idle_pure _
  | cons k keys ih =>
    rw [List.foldlM_cons]
    refine idle_bind (hf k.1 (by simp) n) (ih fun k' hk' => hf k' ?_)
    exact List.mem_cons_of_mem _ hk'

/-! ## The whole sweep -/

/-- What a sweep makes of an entry when no call fails. -/
structure Settled (c : Cluster) (e e' : PlacementEntry) : Prop where
  enough : (∃ x ∈ e.shards, c.isHealthy x = true) →
    c.config.replicationFactor ≤ c.countHealth e'.shards [.healthy, .syncing] ∨ ∀ x, c.isHealthy x = true → x ∈ e'.shards
  atMost : c.countHealth e'.shards [.healthy] ≤ c.config.replicationFactor
  same : (∀ x ∈ e.shards, c.isHealthy x = false) → e' = e

theorem Cluster.countHealth_mono (l : List ShardId) {states states' : List ShardHealth} (h : ∀ x ∈ states, x ∈ states') :
    c.countHealth l states ≤ c.countHealth l states' := by
  unfold countHealth
  refine (List.monotone_filter_right l fun x hx => ?_).length_le
  cases hh : c.healthOf x with
  | none => simp [hh] at hx
  | some y =>
    rw [hh] at hx
    simpa using h y (by simpa using hx)

theorem Repaired.settled {e e1 e2 : PlacementEntry} (h1 : Repaired c e e1) (h2 : Trimmed c e1 e2) : Settled c e e2 := by
  refine ⟨fun hx => ?_, h2.atMost, fun hno => ?_⟩
  · by_cases hle : c.countHealth e1.shards [.healthy] ≤ c.config.replicationFactor
    · rw [h2.same hle]
      exact h1.enough hx
    · -- trimmed, and enough Healthy ones are left
      have h3 := h2.atLeast (Nat.lt_of_not_le hle)
      exact .inl (h3.trans (Cluster.countHealth_mono _ (by simp)))
  · have he1 := h1.same hno
    have h0 : c.countHealth e1.shards [.healthy] = 0 := by
      rw [Cluster.countHealth_healthy, he1, List.length_eq_zero_iff, List.filter_eq_nil_iff]
      intro x hx
      simp [hno x hx]
    rw [h2.same (by omega), he1]

/-- What was settled has nothing left to do. -/
theorem Settled.again {e e' : PlacementEntry} (h : Settled c e e') : Settled c e' e' := by
  refine ⟨fun hx => h.enough ?_, h.atMost, fun _ => rfl⟩
  by_contra hn
  have he := h.same fun x hx => Bool.eq_false_iff.mpr fun hh => hn ⟨x, hx, hh⟩
  exact hn (he ▸ hx)

theorem Settled.congr {c' : Cluster} {e e' : PlacementEntry} (hc : c'.config = c.config) (hs : c'.shards = c.shards)
    (h : Settled c' e e') : Settled c e e' := by
  have hh := isHealthy_congr hs
  refine ⟨fun ⟨x, hx, hxh⟩ => ?_, ?_, fun hno => h.same fun x hx => (hh x).trans (hno x hx)⟩
  · rcases h.enough ⟨x, hx, (hh x).trans hxh⟩ with h1 | h1
    · rw [hc, Cluster.countHealth_congr hs] at h1
      exact .inl h1
    · exact .inr fun y hy => h1 y ((hh y).trans hy)
  · have h1 := h.atMost
    rw [hc, Cluster.countHealth_congr hs] at h1
    exact h1

theorem Cluster.length_missing_le (e : PlacementEntry) : (c.missing e).length ≤ c.shards.length :=
  (List.filter_sublist.length_le).trans (Nat.le_of_eq List.length_range)

theorem Cluster.countHealth_le (hnd : entry.shards.Nodup) : c.countHealth entry.shards [.healthy] ≤ c.shards.length := by
  rw [countHealth_healthy]
  have hsub : (entry.shards.filter fun id => c.isHealthy id) ⊆ List.range c.shards.length := by
    intro x hx
    exact List.mem_range.mpr (lt_of_isHealthy (List.mem_filter.mp hx).2)
  exact ((hnd.filter _).subperm hsub).length_le.trans (Nat.le_of_eq List.length_range)

def Catalog.Distinct (c : Catalog) : Prop := ∀ k e, c.get k = some e → e.shards.Nodup

theorem wp_repairReplicationSweep {rounds batchSize : Nat} (refs : Option RawRefRegistry)
    (hnd : s.cluster.catalog.Distinct) (ha : s.cluster.Attached) (hr : s.cluster.shards.length < rounds)
    (hbatch : s.cluster.catalog.inner.entries.length ≤ batchSize) :
    (repairReplicationSweep rounds batchSize refs).wp (fun r s' t =>
      (∃ k, (s.cluster.catalog.get k).isSome ∧ Failed k (events t)) ∨
      r.isSome = true ∧ s'.cluster.config = s.cluster.config ∧ s'.cluster.shards = s.cluster.shards ∧
        (∀ k, s.cluster.catalog.get k = none → s'.cluster.catalog.get k = none) ∧
        ∀ k e, s.cluster.catalog.get k = some e → ∃ e', s'.cluster.catalog.get k = some e' ∧ Settled s.cluster e e') s := by
  unfold repairReplicationSweep
  rw [wp_bind, wp_look, wp_bind]
  have hphase1 := wp_phase (s := s) (R := Repaired s.cluster)
    (f := fun key n => repairKey refs key rounds n)
    (g := fun e => s.cluster.countHealth e.shards [.healthy, .syncing])
    (p := fun n => decide (n < s.cluster.config.replicationFactor)) hbatch
    (fun k n s1 e htouch _ he1 => by
      refine wp_mono (wp_repairKey refs n (htouch.attached ha) he1 ?_) fun r s' t h => ?_
      · rw [htouch.missing]
        exact Nat.lt_of_le_of_lt (Cluster.length_missing_le e) hr
      · rcases h with h | ⟨h1, h2, e', h3, h4⟩
        · exact .inl h
        · exact .inr ⟨h1, h2, e', h3, h4.congr htouch.config htouch.shards⟩)
    (fun e he => .refl fun _ => .inl (Nat.le_of_not_lt (of_decide_eq_false he)))
  refine wp_mono hphase1 fun r1 s1 t1 h1 => ?_
  rcases h1 with ⟨k, hk, hfail⟩ | ⟨hr1, hcfg1, hsh1, hnone1, hall1⟩
  · exact .inl ⟨k, hk, Failed.right (Failed.left hfail)⟩
  · -- the second phase starts from the entries of the first
    have hsome1 : ∀ k, (s1.cluster.catalog.get k).isSome → (s.cluster.catalog.get k).isSome := by
      intro k hk
      rw [Option.isSome_iff_ne_none] at hk ⊢
      exact fun hn => hk (hnone1 k hn)
    have hnd1 : s1.cluster.catalog.Distinct := by
      intro k e1 he1
      obtain ⟨e, he⟩ := Option.isSome_iff_exists.mp (hsome1 k (by simp [he1]))
      obtain ⟨e', h2, h3⟩ := hall1 k e he
      rw [he1] at h2
      cases h2
      exact h3.nodup (hnd k e he)
    have ha1 : s1.cluster.Attached := by
      intro x hx
      rw [isHealthy_congr hsh1] at hx
      unfold Cluster.storeRef
      rw [hcfg1, hsh1]
      exact ha x hx
    have hphase2 := wp_phase (s := s1) (R := Trimmed s1.cluster)
      (f := fun key n => trimKey key rounds n)
      (g := fun e => s1.cluster.countHealth e.shards [.healthy, .degraded])
      (p := fun n => decide (s1.cluster.config.replicationFactor < n))
      ((Cluster.length_entries_le hsome1).trans hbatch)
      (fun k n s2 e htouch he he2 => by
        refine wp_mono (wp_trimKey n (htouch.attached ha1) he2 (hnd1 k e he) ?_) fun r s' t h => ?_
        · refine Nat.lt_of_le_of_lt (Cluster.countHealth_le (hnd1 k e he)) ?_
          rw [htouch.shards, hsh1]
          exact hr
        · rcases h with h | ⟨h1, h2, e', h3, h4⟩
          · exact .inl h
          · exact .inr ⟨h1, h2, e', h3, h4.congr htouch.config htouch.shards⟩)
      (fun e he => .refl ((Cluster.countHealth_mono _ (by simp)).trans (Nat.le_of_not_lt (of_decide_eq_false he))))
    rw [wp_bind, wp_look, wp_bind]
    refine wp_mono hphase2 fun r2 s2 t2 h2 => ?_
    rcases h2 with ⟨k, hk, hfail⟩ | ⟨hr2, hcfg2, hsh2, hnone2, hall2⟩
    · exact .inl ⟨k, hsome1 k hk, Failed.right (Failed.right (Failed.right (Failed.left hfail)))⟩
    · rw [wp_bind, wp_look, wp_bind, wp_look, wp_pure]
      obtain ⟨m1, rfl⟩ := Option.isSome_iff_exists.mp hr1
      obtain ⟨m2, rfl⟩ := Option.isSome_iff_exists.mp hr2
      refine .inr ⟨rfl, hcfg2.trans hcfg1, hsh2.trans hsh1, fun k hk => hnone2 k (hnone1 k hk), fun k e he => ?_⟩
      obtain ⟨e1, he1, h3⟩ := hall1 k e he
      obtain ⟨e2, he2, h4⟩ := hall2 k e1 he1
      exact ⟨e2, he2, h3.settled (h4.congr hcfg1 hsh1)⟩

/-- A sweep over entries that are as they should be. -/
theorem idle_repairReplicationSweep {rounds : Nat} (batchSize : Nat) (refs : Option RawRefRegistry) (hr : 0 < rounds)
    (h : ∀ k e, s.cluster.catalog.get k = some e → Settled s.cluster e e) :
    Idle (some ⟨0, 0, s.cluster.findUnderReplicated.length, s.cluster.findOverReplicated.length⟩) s
      (repairReplicationSweep rounds batchSize refs) := by
  have hentry : ∀ g p k, k ∈ ((s.cluster.selected g p).take batchSize).map (·.1) → ∃ e, s.cluster.catalog.get k = some e := by
    intro g p k hk
    obtain ⟨e, he, -⟩ := Cluster.mem_selected.mp (List.map_subset _ (List.take_subset _ _) hk)
    exact ⟨e, he⟩
  unfold repairReplicationSweep
  refine idle_bind (idle_look _) (idle_bind (idle_forKeys fun k hk n => ?_) ?_)
  · rw [Cluster.findUnderReplicated_eq] at hk
    obtain ⟨e, he⟩ := hentry _ _ k hk
    exact idle_repairKey refs n he hr (h k e he).enough
  · refine idle_bind (idle_look _) (idle_bind (idle_forKeys fun k hk n => ?_) ?_)
    · rw [Cluster.findOverReplicated_eq] at hk
      obtain ⟨e, he⟩ := hentry _ _ k hk
      exact idle_trimKey n he hr (h k e he).atMost
    · exact idle_bind (idle_look _) (idle_bind (idle_look _) (idle_pure _))

/-- The sweep ends within a round for each shard, with every entry settled; and another sweep after
    it makes no call of a store and changes nothing. `batchSize` leaves no key out. -/
theorem repair_converges (s : Sys) (rounds batchSize : Nat) (refs : Option RawRefRegistry)
    (hnd : s.cluster.catalog.Distinct) (ha : s.cluster.Attached) (hr : s.cluster.shards.length < rounds)
    (hbatch : s.cluster.catalog.inner.entries.length ≤ batchSize)
    (hok : ∀ k, (s.cluster.catalog.get k).isSome →
      ¬ Failed k (events ((repairReplicationSweep rounds batchSize refs).steps s))) :
    ((repairReplicationSweep rounds batchSize refs).exec s).1.isSome = true ∧
    (∀ k, s.cluster.catalog.get k = none →
      ((repairReplicationSweep rounds batchSize refs).exec s).2.cluster.catalog.get k = none) ∧
    (∀ k e, s.cluster.catalog.get k = some e → ∃ e',
      ((repairReplicationSweep rounds batchSize refs).exec s).2.cluster.catalog.get k = some e' ∧ Settled s.cluster e e') ∧
    ∀ rounds' batchSize' refs', 0 < rounds' →
      Idle (some ⟨0, 0, ((repairReplicationSweep rounds batchSize refs).exec s).2.cluster.findUnderReplicated.length,
          ((repairReplicationSweep rounds batchSize refs).exec s).2.cluster.findOverReplicated.length⟩)
        ((repairReplicationSweep rounds batchSize refs).exec s).2 (repairReplicationSweep rounds' batchSize' refs') := by
  rcases wp_repairReplicationSweep refs hnd ha hr hbatch with ⟨k, hk, hfail⟩ | ⟨h1, hcfg, hsh, hnone, hall⟩
  · exact absurd hfail (hok k hk)
  · refine ⟨h1, hnone, hall, fun rounds' batchSize' refs' hr' => idle_repairReplicationSweep batchSize' refs' hr' ?_⟩
    intro k e' he'
    have hk : s.cluster.catalog.get k ≠ none := by
      intro hn
      rw [hnone k hn] at he'
      cases he'
    obtain ⟨e, he⟩ := Option.ne_none_iff_exists'.mp hk
    obtain ⟨e2, he2, h2⟩ := hall k e he
    rw [he'] at he2
    cases he2
    exact h2.again.congr hcfg.symm hsh.symm

open Sample in
/-- Three shards that want two copies: one key has one, the other has three. -/
def unevenlyCopied : Sys := stocked 3 (config 2 1) [("k", [0]), ("m", [0, 1, 2])]

def unfailing : Event → Bool
  | .call _ _ _ (some _) => false
  | _ => true

/-- One sweep copies the first key and trims the second. -/
theorem uneven_keys_settle :
    ∃ e', ((repairReplicationSweep 4 2 none).exec unevenlyCopied).2.cluster.catalog.get "k" = some e' ∧
      Settled unevenlyCopied.cluster ⟨[0], 1, none, 0, 0⟩ e' ∧ e'.shards.length = 2 := by
  have hget : ∀ k, unevenlyCopied.cluster.catalog.get k = if k = "m" then some ⟨[0, 1, 2], 1, none, 0, 0⟩
      else if k = "k" then some ⟨[0], 1, none, 0, 0⟩ else none := by
    intro k
    refine (Catalog.get_put _ "m" k [0, 1, 2] 1 none 0 0).trans ?_
    rw [Catalog.get_put]
    rfl
  have hnd : unevenlyCopied.cluster.catalog.Distinct := by
    intro k e he
    rw [hget] at he
    split at he
    · cases he
      decide
    · split at he
      · cases he
        decide
      · cases he
  have ha : unevenlyCopied.cluster.Attached := by
    intro x hx
    have hlt : x < 3 := Cluster.lt_of_isHealthy hx
    have hall : ∀ x < 3, unevenlyCopied.cluster.storeRef x ≠ none := by decide +kernel
    exact hall x hlt
  have hcalls : ((events ((repairReplicationSweep 4 2 none).steps unevenlyCopied)).all unfailing) = true := by decide +kernel
  have hok : ∀ k, (unevenlyCopied.cluster.catalog.get k).isSome →
      ¬ Failed k (events ((repairReplicationSweep 4 2 none).steps unevenlyCopied)) := by
    rintro k - ⟨st, kind, path, e, he, -⟩
    exact Bool.false_ne_true (List.all_eq_true.mp hcalls _ he)
  obtain ⟨-, -, hall, -⟩ := repair_converges unevenlyCopied 4 2 none hnd ha (by decide +kernel) (by decide +kernel) hok
  obtain ⟨e', h1, h2⟩ := hall "k" ⟨[0], 1, none, 0, 0⟩ (hget "k")
  refine ⟨e', h1, h2, ?_⟩
  have h3 : (((repairReplicationSweep 4 2 none).exec unevenlyCopied).2.cluster.catalog.get "k").map (·.shards.length) = some 2 := by
    decide +kernel
  rw [h1] at h3
  exact Option.some.inj h3

end ObjStr.Sharded
