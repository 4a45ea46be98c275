/-
  ObjStr.Sharded.Plan — the dry run of a repair sweep against the sweep (`repair.rs`).

  `plan_repair_replication` lists "every copy and trim operation that would be executed". It
  looks at each key once, in the state before the sweep. The sweep copies a key until it has
  enough replicas, trims a key until no replica can go, and selects what it trims after it has
  copied. Where no call fails:
  - `plan_is_the_sweep_iff`: the plan lists what the sweep does, and counts the keys that it can
    do nothing for, if and only if each selected key needs one copy or one removal, no key that
    can be trimmed falls out of the batch, and the batch does not grow.
  - `the_plan_misses_the_second_copy`: a key with one replica of three is copied twice, and the
    plan lists one copy.
-/

import ObjStr.Sharded.SweepLog

namespace ObjStr.Sharded

open ObjStr.Lib ObjStr.Raw Proc

variable {s s' : Sys} {c : Cluster} {entry : PlacementEntry}

/-! ## The plan -/

structure PlannedAction where
  key : Key
  currentCount : Nat
  targetRf : Nat
  action : PlannedActionKind
  deriving DecidableEq, Repr

structure RepairReplicationPlan where
  replications : List PlannedAction := []
  trims : List PlannedAction := []
  unrepairable : Nat := 0
  untrimmable : Nat := 0
  deriving DecidableEq, Repr

def planCopy (rf : Nat) (plan : RepairReplicationPlan) (k : Key × Nat) : ClusterM RepairReplicationPlan := do
  match ← catalogGet k.1 with
  | none => pure plan
  | some entry => do
    match ← look fun s => entry.shards.find? fun id => s.cluster.isHealthy id with
    | none => pure { plan with unrepairable := plan.unrepairable + 1 }
    | some source => do
      match ← findReplicationTarget k.1 with
      | none => pure { plan with unrepairable := plan.unrepairable + 1 }
      | some target =>
        pure { plan with replications := plan.replications ++ [⟨k.1, k.2, rf, .replicate source target⟩] }

def planTrim (rf : Nat) (plan : RepairReplicationPlan) (k : Key × Nat) : ClusterM RepairReplicationPlan := do
  match ← pickExcessShard k.1 with
  | none => pure { plan with untrimmable := plan.untrimmable + 1 }
  | some shard => pure { plan with trims := plan.trims ++ [⟨k.1, k.2, rf, .trim shard⟩] }

/-- What a sweep would do, without any call of a store. -/
def planRepairReplication (batchSize : Nat) : ClusterM RepairReplicationPlan := do
  let rf ← replicationFactor
  let under ← look fun s => s.cluster.findUnderReplicated
  let plan ← (under.take batchSize).foldlM (planCopy rf) {}
  let overKeys ← look fun s => s.cluster.findOverReplicated
  (overKeys.take batchSize).foldlM (planTrim rf) plan

/-! ## What the plan lists -/

theorem idle_foldlM {α ι : Type} {f : α → ι → ClusterM α} {g : α → ι → α} {l : List ι}
    (h : ∀ b, ∀ x ∈ l, Idle (g b x) s (f b x)) (b : α) : Idle (l.foldl g b) s (l.foldlM f b) := by
  induction l generalizing b with
  | nil => exact idle_pure _
  | cons x l ih =>
    rw [List.foldlM_cons]
    exact idle_bind (h b x (by simp)) (ih (fun b y hy => h b y (List.mem_cons_of_mem _ hy)) _)

def RepairReplicationPlan.withCopy (rf : Nat) (plan : RepairReplicationPlan) (k : Key × Nat) :
    Option (ShardId × ShardId) → RepairReplicationPlan
  | none => { plan with unrepairable := plan.unrepairable + 1 }
  | some a => { plan with replications := plan.replications ++ [⟨k.1, k.2, rf, .replicate a.1 a.2⟩] }

def RepairReplicationPlan.withTrim (rf : Nat) (plan : RepairReplicationPlan) (k : Key × Nat) :
    Option ShardId → RepairReplicationPlan
  | none => { plan with untrimmable := plan.untrimmable + 1 }
  | some x => { plan with trims := plan.trims ++ [⟨k.1, k.2, rf, .trim x⟩] }

theorem idle_planCopy (rf : Nat) (plan : RepairReplicationPlan) {k : Key × Nat}
    (hentry : s.cluster.catalog.get k.1 = some entry) :
    Idle (plan.withCopy rf k (s.cluster.firstCopy (s.cluster.shardsOf k.1))) s (planCopy rf plan k) := by
  rw [Cluster.shardsOf_eq hentry]
  unfold planCopy
  refine idle_bind (idle_look _) ?_
  rw [hentry]
  refine idle_bind (idle_look _) ?_
  cases hsource : entry.shards.find? fun id => s.cluster.isHealthy id with
  | none =>
    have hnone : s.cluster.firstCopy entry.shards = none := by simp [Cluster.firstCopy, hsource]
    rw [hnone]
    exact idle_pure _
  | some source =>
    refine idle_bind (idle_bind (idle_look _) (idle_look _)) ?_
    rw [hentry, Option.map_some, Option.getD_some]
    cases htarget : s.cluster.replicationTarget entry.shards with
    | none =>
      have hnone : s.cluster.firstCopy entry.shards = none := by simp [Cluster.firstCopy, htarget]
      rw [hnone]
      exact idle_pure _
    | some target =>
      have hsome : s.cluster.firstCopy entry.shards = some (source, target) := Cluster.firstCopy_eq_some.mpr ⟨hsource, htarget⟩
      rw [hsome]
      exact idle_pure _

theorem idle_planTrim (rf : Nat) (plan : RepairReplicationPlan) {k : Key × Nat}
    (hentry : s.cluster.catalog.get k.1 = some entry) :
    Idle (plan.withTrim rf k (s.cluster.excessShard (s.cluster.shardsOf k.1))) s (planTrim rf plan k) := by
  rw [Cluster.shardsOf_eq hentry]
  have hpick : Idle (s.cluster.excessShard entry.shards) s (pickExcessShard k.1) := by
    unfold pickExcessShard
    refine idle_bind (idle_look _) ?_
    rw [hentry]
    exact idle_look _
  unfold planTrim
  refine idle_bind hpick ?_
  cases s.cluster.excessShard entry.shards <;> exact idle_pure _

def RepairReplicationPlan.copyActions (plan : RepairReplicationPlan) : List (Key × PlannedActionKind) :=
  plan.replications.map fun a => (a.key, a.action)

def RepairReplicationPlan.trimActions (plan : RepairReplicationPlan) : List (Key × PlannedActionKind) :=
  plan.trims.map fun a => (a.key, a.action)

theorem foldl_withCopy (rf : Nat) (f : Key → Option (ShardId × ShardId)) (l : List (Key × Nat))
    (plan : RepairReplicationPlan) :
    (l.foldl (fun p k => p.withCopy rf k (f k.1)) plan).copyActions =
        plan.copyActions ++ stepsOf (l.map (·.1)) (fun k => (f k).toList.map fun a => .replicate a.1 a.2) ∧
      (l.foldl (fun p k => p.withCopy rf k (f k.1)) plan).unrepairable =
        plan.unrepairable + (l.map (·.1)).countP (fun k => (f k).toList.isEmpty) ∧
      (l.foldl (fun p k => p.withCopy rf k (f k.1)) plan).trims = plan.trims ∧
      (l.foldl (fun p k => p.withCopy rf k (f k.1)) plan).untrimmable = plan.untrimmable := by
  induction l generalizing plan with
  | nil => simp [stepsOf]
  | cons k l ih =>
    rw [List.foldl_cons]
    obtain ⟨h1, h2, h3, h4⟩ := ih (plan.withCopy rf k (f k.1))
    rw [h1, h2, h3, h4]
    cases hf : f k.1 <;>
      simp [RepairReplicationPlan.withCopy, RepairReplicationPlan.copyActions, stepsOf, hf, Nat.add_assoc, Nat.add_comm]

theorem foldl_withTrim (rf : Nat) (f : Key → Option ShardId) (l : List (Key × Nat)) (plan : RepairReplicationPlan) :
    (l.foldl (fun p k => p.withTrim rf k (f k.1)) plan).trimActions =
        plan.trimActions ++ stepsOf (l.map (·.1)) (fun k => (f k).toList.map .trim) ∧
      (l.foldl (fun p k => p.withTrim rf k (f k.1)) plan).untrimmable =
        plan.untrimmable + (l.map (·.1)).countP (fun k => (f k).toList.isEmpty) ∧
      (l.foldl (fun p k => p.withTrim rf k (f k.1)) plan).replications = plan.replications ∧
      (l.foldl (fun p k => p.withTrim rf k (f k.1)) plan).unrepairable = plan.unrepairable := by
  induction l generalizing plan with
  | nil => simp [stepsOf]
  | cons k l ih =>
    rw [List.foldl_cons]
    obtain ⟨h1, h2, h3, h4⟩ := ih (plan.withTrim rf k (f k.1))
    rw [h1, h2, h3, h4]
    cases hf : f k.1 <;>
      simp [RepairReplicationPlan.withTrim, RepairReplicationPlan.trimActions, stepsOf, hf, Nat.add_assoc, Nat.add_comm]

/-- The plan is one step for each selected key; it changes nothing. -/
theorem wp_planRepairReplication (batchSize : Nat) :
    (planRepairReplication batchSize).wp (fun plan s' _ => s' = s ∧
      plan.copyActions = stepsOf (s.cluster.underBatch batchSize)
        (fun k => (s.cluster.firstCopy (s.cluster.shardsOf k)).toList.map fun a => .replicate a.1 a.2) ∧
      plan.trimActions = stepsOf (s.cluster.overBatch s.cluster.shardsOf batchSize)
        (fun k => (s.cluster.excessShard (s.cluster.shardsOf k)).toList.map .trim) ∧
      plan.unrepairable = (s.cluster.underBatch batchSize).countP
        (fun k => (s.cluster.firstCopy (s.cluster.shardsOf k)).toList.isEmpty) ∧
      plan.untrimmable = (s.cluster.overBatch s.cluster.shardsOf batchSize).countP
        (fun k => (s.cluster.excessShard (s.cluster.shardsOf k)).toList.isEmpty)) s := by
  have hidle : Idle ((s.cluster.findOverReplicated.take batchSize).foldl
      (fun p k => p.withTrim s.cluster.config.replicationFactor k (s.cluster.excessShard (s.cluster.shardsOf k.1)))
      ((s.cluster.findUnderReplicated.take batchSize).foldl
        (fun p k => p.withCopy s.cluster.config.replicationFactor k (s.cluster.firstCopy (s.cluster.shardsOf k.1))) {}))
      s (planRepairReplication batchSize) := by
    unfold planRepairReplication
    refine idle_bind (idle_look _) (idle_bind (idle_look _) (idle_bind (idle_foldlM (fun plan k hk => ?_) _)
      (idle_bind (idle_look _) (idle_foldlM (fun plan k hk => ?_) _))))
    · have hmem := List.mem_map_of_mem (f := (·.1)) hk
      rw [Cluster.underBatch_eq] at hmem
      obtain ⟨e, he⟩ := (Cluster.of_mem_underBatch hmem).1
      exact idle_planCopy _ plan he
    · have hmem := List.mem_map_of_mem (f := (·.1)) hk
      rw [Cluster.overBatch_eq] at hmem
      obtain ⟨e, he⟩ := Cluster.of_mem_overBatch hmem
      exact idle_planTrim _ plan he
  refine wp_mono hidle fun plan s' t h => ?_
  obtain ⟨rfl, rfl, -⟩ := h
  obtain ⟨h1, h2, h3, h4⟩ := foldl_withCopy s'.cluster.config.replicationFactor
    (fun k => s'.cluster.firstCopy (s'.cluster.shardsOf k)) (s'.cluster.findUnderReplicated.take batchSize) {}
  obtain ⟨h5, h6, h7, h8⟩ := foldl_withTrim s'.cluster.config.replicationFactor
    (fun k => s'.cluster.excessShard (s'.cluster.shardsOf k)) (s'.cluster.findOverReplicated.take batchSize)
    ((s'.cluster.findUnderReplicated.take batchSize).foldl
      (fun p k => p.withCopy s'.cluster.config.replicationFactor k (s'.cluster.firstCopy (s'.cluster.shardsOf k.1))) {})
  rw [Cluster.underBatch_eq] at h1 h2
  rw [Cluster.overBatch_eq] at h5 h6
  refine ⟨rfl, ?_, ?_, ?_, ?_⟩
  · rw [RepairReplicationPlan.copyActions, h7]
    exact h1
  · rw [h5, RepairReplicationPlan.trimActions, h3]
    rfl
  · rw [h8, h2, Nat.zero_add]
  · rw [h6, h4, Nat.zero_add]

/-! ## The plan and the sweep -/

def Cluster.afterPlan (c : Cluster) (batchSize : Nat) (key : Key) : List ShardId :=
  if key ∈ c.underBatch batchSize then c.shardsOf key ++ (c.firstCopy (c.shardsOf key)).toList.map (·.2)
  else c.shardsOf key

/-- The plan lists the actions of the sweep, and counts the keys that it leaves alone. -/
structure PlanIsSweep (plan : RepairReplicationPlan) (log : SweepLog) : Prop where
  copies : plan.copyActions.Perm (performed log.copied)
  trims : plan.trimActions.Perm (performed log.trimmed)
  unrepairable : plan.unrepairable = leftAlone log.copied
  untrimmable : plan.untrimmable = leftAlone log.trimmed

/-- One step for each key is all there is to do, on the keys that the plan selects. -/
structure Cluster.OneStepEach (c : Cluster) (batchSize : Nat) : Prop where
  /-- A key that is copied has enough replicas then, or is on every Healthy shard. -/
  copied : ∀ k ∈ c.underBatch batchSize, ∀ a, c.firstCopy (c.shardsOf k) = some a →
    c.config.replicationFactor ≤ c.countHealth (c.shardsOf k ++ [a.2]) [.healthy, .syncing] ∨
      c.replicationTarget (c.shardsOf k ++ [a.2]) = none
  /-- No second replica of a key that is trimmed can go. -/
  trimmed : ∀ k ∈ c.overBatch c.shardsOf batchSize, ∀ x, c.excessShard (c.shardsOf k) = some x →
    c.excessShard ((c.shardsOf k).filter (· != x)) = none
  /-- Keys that the copies make over-replicated push none out of the batch that can be trimmed. -/
  reached : ∀ k ∈ c.overBatch c.shardsOf batchSize, c.excessShard (c.shardsOf k) ≠ none →
    k ∈ c.overBatch (c.afterPlan batchSize) batchSize
  /-- Nor do they add to it. -/
  asMany : (c.overBatch (c.afterPlan batchSize) batchSize).length = (c.overBatch c.shardsOf batchSize).length

namespace Cluster

theorem trims_eq_nil {shards : List ShardId} (h : c.countHealth shards [.healthy] ≤ c.config.replicationFactor) (rounds : Nat) :
    c.trims rounds shards = [] := by
  cases rounds with
  | zero => rfl
  | succ rounds => rw [trims, excessShard_eq_none_of_le h]

/-- A key that is copied is not trimmed, neither before nor after the copies. -/
theorem trims_afterCopies (rounds batchSize : Nat) (k : Key) :
    (c.trims rounds (c.afterCopies rounds batchSize k)).map .trim = c.trimSteps rounds k := by
  refine congrArg _ ?_
  have hmono : ∀ l, c.countHealth l [.healthy] ≤ c.countHealth l [.healthy, .syncing] := fun l => countHealth_mono l (by simp)
  unfold afterCopies
  split
  · next hk =>
    by_cases hnil : c.copies rounds (c.shardsOf k) = []
    · rw [hnil, List.map_nil, List.append_nil]
    · have hbefore := (of_mem_underBatch hk).2
      have hafter := healthy_after_copies rounds (c.shardsOf k) hnil
      rw [trims_eq_nil ((hmono _).trans hafter), trims_eq_nil ((hmono _).trans (Nat.le_of_lt hbefore))]
  · rfl

theorem copySteps_take {rounds batchSize : Nat} {k : Key} (hr : 0 < rounds) (hk : k ∈ c.underBatch batchSize) :
    (c.firstCopy (c.shardsOf k)).toList.map (fun a => .replicate a.1 a.2) = (c.copySteps rounds k).take 1 := by
  rw [copySteps, ← List.map_take, take_copies hr (of_mem_underBatch hk).2]

theorem trimSteps_take {rounds : Nat} (hr : 0 < rounds) (k : Key) :
    (c.excessShard (c.shardsOf k)).toList.map .trim = (c.trimSteps rounds k).take 1 := by
  rw [trimSteps, ← List.map_take, take_trims hr]

theorem length_copySteps_le_one_iff {rounds batchSize : Nat} {k : Key} (hr : c.shards.length < rounds)
    (hk : k ∈ c.underBatch batchSize) :
    (c.copySteps rounds k).length ≤ 1 ↔ ∀ a, c.firstCopy (c.shardsOf k) = some a →
      c.config.replicationFactor ≤ c.countHealth (c.shardsOf k ++ [a.2]) [.healthy, .syncing] ∨
        c.replicationTarget (c.shardsOf k ++ [a.2]) = none := by
  rw [copySteps, List.length_map]
  exact length_copies_le_one_iff hr (of_mem_underBatch hk).2

theorem length_trimSteps_le_one_iff {rounds : Nat} {k : Key} (hr : (c.shardsOf k).length < rounds) :
    (c.trimSteps rounds k).length ≤ 1 ↔ ∀ x, c.excessShard (c.shardsOf k) = some x →
      c.excessShard ((c.shardsOf k).filter (· != x)) = none := by
  rw [trimSteps, List.length_map]
  exact length_trims_le_one_iff hr

theorem trimSteps_ne_nil_iff {rounds : Nat} (hr : 0 < rounds) (k : Key) :
    c.trimSteps rounds k ≠ [] ↔ c.excessShard (c.shardsOf k) ≠ none := by
  have h := trimSteps_take (c := c) hr k
  cases hx : c.excessShard (c.shardsOf k) <;> cases ht : c.trimSteps rounds k <;> simp [hx, ht] at h ⊢

/-- With one copy each, the plan knows where the copies go. -/
theorem afterCopies_eq_afterPlan {rounds batchSize : Nat} (hr : 0 < rounds)
    (h : ∀ k ∈ c.underBatch batchSize, (c.copySteps rounds k).length ≤ 1) :
    c.afterCopies rounds batchSize = c.afterPlan batchSize := by
  funext k
  unfold afterCopies afterPlan
  split
  · next hk =>
    have hlen := h k hk
    rw [copySteps, List.length_map] at hlen
    rw [← take_copies hr (of_mem_underBatch hk).2, List.take_of_length_le hlen]
  · rfl

/-- What can be trimmed is in the batch after the copies only if it is there before. -/
theorem mem_overBatch_of_after {rounds batchSize : Nat} {k : Key}
    (hk : k ∈ c.overBatch (c.afterCopies rounds batchSize) batchSize)
    (hne : c.trimSteps rounds k ≠ []) : k ∈ c.overBatch c.shardsOf batchSize := by
  refine mem_take_filter (fun k' hk' => decide_eq_true ?_) hk (decide_eq_true ?_)
  · -- a copy only adds to the shards
    refine Nat.lt_of_lt_of_le (of_decide_eq_true hk') ?_
    unfold afterCopies
    split
    · simp [countHealth, List.filter_append]
    · exact Nat.le_refl _
  · by_contra hle
    have hnil := trims_eq_nil ((countHealth_mono (c.shardsOf k) (by simp)).trans (Nat.le_of_not_lt hle)) rounds
    exact hne (by rw [trimSteps, hnil]; rfl)

end Cluster

theorem isEmpty_take_one {α : Type} (l : List α) : (l.take 1).isEmpty = l.isEmpty := by cases l <;> rfl

/-- Where no attempt of the sweep fails, the plan is the sweep exactly on the clusters where one
    step for each key is all. -/
theorem plan_is_the_sweep_iff (s : Sys) (rounds batchSize : Nat) (refs : Option RawRefRegistry)
    (hr : s.cluster.shards.length < rounds) (hr' : ∀ k, (s.cluster.shardsOf k).length < rounds) :
    ∃ log, ((sweepLog rounds batchSize refs).exec s).1 = some log ∧
      (∃ result, ((repairReplicationSweep rounds batchSize refs).exec s).1 = some result ∧
        result.reReplicated = succeededIn log.copied ∧ result.trimmed = succeededIn log.trimmed) ∧
      (log.Succeeded → (PlanIsSweep ((planRepairReplication batchSize).exec s).1 log ↔ s.cluster.OneStepEach batchSize)) := by
  obtain ⟨log, hlog, hdone⟩ : (sweepLog rounds batchSize refs).wp _ s := wp_sweepLog refs hr hr'
  refine ⟨log, hlog, exec_repairReplicationSweep hlog, fun hok => ?_⟩
  obtain ⟨hcopied, htrimmed⟩ := hdone hok
  simp only [Cluster.trims_afterCopies] at htrimmed
  obtain ⟨-, hplan1, hplan2, hplan3, hplan4⟩ := wp_planRepairReplication (s := s) batchSize
  generalize ((planRepairReplication batchSize).exec s).1 = plan at *
  generalize s.cluster = c at *
  have hpos := Nat.zero_lt_of_lt hr
  have hnd := c.nodup_overBatch c.shardsOf batchSize
  have hnd' := c.nodup_overBatch (c.afterCopies rounds batchSize) batchSize
  have hsub : ∀ k ∈ c.overBatch (c.afterCopies rounds batchSize) batchSize, c.trimSteps rounds k ≠ [] →
      k ∈ c.overBatch c.shardsOf batchSize := fun k hk hne => Cluster.mem_overBatch_of_after hk hne
  -- the actions: the first step of each key, against all of them
  have hcopies : plan.copyActions.Perm (performed log.copied) ↔
      ∀ k ∈ c.underBatch batchSize, (c.copySteps rounds k).length ≤ 1 := by
    rw [hplan1, hcopied, performed_all, stepsOf_congr fun k hk => Cluster.copySteps_take hpos hk]
    exact firsts_perm_iff
  have htrims : plan.trimActions.Perm (performed log.trimmed) ↔
      (∀ k ∈ c.overBatch c.shardsOf batchSize, c.trimSteps rounds k ≠ [] →
        k ∈ c.overBatch (c.afterCopies rounds batchSize) batchSize) ∧
      ∀ k ∈ c.overBatch c.shardsOf batchSize, (c.trimSteps rounds k).length ≤ 1 := by
    rw [hplan2, htrimmed, performed_all, stepsOf_congr fun k _ => Cluster.trimSteps_take hpos k]
    exact firsts_perm_steps_iff hnd hnd' hsub
  -- the counts: the keys without a first step
  have hunrepairable : plan.unrepairable = leftAlone log.copied := by
    rw [hplan3, hcopied, leftAlone_all]
    refine List.countP_congr fun k hk => ?_
    rw [← isEmpty_take_one (c.copySteps rounds k), ← Cluster.copySteps_take hpos hk, List.isEmpty_map]
  have huntrimmable : plan.untrimmable =
      (c.overBatch c.shardsOf batchSize).countP fun k => (c.trimSteps rounds k).isEmpty := by
    rw [hplan4]
    refine List.countP_congr fun k _ => ?_
    rw [← isEmpty_take_one (c.trimSteps rounds k), ← Cluster.trimSteps_take hpos k, List.isEmpty_map]
  constructor
  · intro ⟨h1, h2, _, h4⟩
    have hone := hcopies.mp h1
    obtain ⟨hreached, htrimmed1⟩ := htrims.mp h2
    rw [huntrimmable, htrimmed, leftAlone_all, countP_isEmpty_eq_iff hnd hnd' hsub hreached] at h4
    rw [Cluster.afterCopies_eq_afterPlan hpos hone] at hreached h4
    refine ⟨fun k hk => ?_, fun k hk => ?_, fun k hk hne => ?_, h4⟩
    · exact (Cluster.length_copySteps_le_one_iff hr hk).mp (hone k hk)
    · exact (Cluster.length_trimSteps_le_one_iff (hr' k)).mp (htrimmed1 k hk)
    · exact hreached k hk ((Cluster.trimSteps_ne_nil_iff hpos k).mpr hne)
  · intro ⟨h1, h2, h3, h4⟩
    have hone : ∀ k ∈ c.underBatch batchSize, (c.copySteps rounds k).length ≤ 1 := fun k hk =>
      (Cluster.length_copySteps_le_one_iff hr hk).mpr (h1 k hk)
    rw [← Cluster.afterCopies_eq_afterPlan hpos hone] at h3 h4
    have hreached : ∀ k ∈ c.overBatch c.shardsOf batchSize, c.trimSteps rounds k ≠ [] →
        k ∈ c.overBatch (c.afterCopies rounds batchSize) batchSize := fun k hk hne =>
      h3 k hk ((Cluster.trimSteps_ne_nil_iff hpos k).mp hne)
    refine ⟨hcopies.mpr hone, htrims.mpr ⟨hreached, fun k hk => ?_⟩, hunrepairable, ?_⟩
    · exact (Cluster.length_trimSteps_le_one_iff (hr' k)).mpr (h2 k hk)
    · rw [huntrimmable, htrimmed, leftAlone_all, countP_isEmpty_eq_iff hnd hnd' hsub hreached]
      exact h4

open Sample in
def oneOfThree : Sys := stocked 3 (config 3 1) [("k", [0])]

/-- The sweep copies the key twice, and the plan lists one copy. -/
theorem the_plan_misses_the_second_copy :
    ∃ log, ((sweepLog 4 1 none).exec oneOfThree).1 = some log ∧ log.Succeeded ∧
      ¬ PlanIsSweep ((planRepairReplication 1).exec oneOfThree).1 log := by
  have hlog : ((sweepLog 4 1 none).exec oneOfThree).1 =
      some ⟨[("k", [(.replicate 0 2, true), (.replicate 0 1, true)])], []⟩ := by decide +kernel
  have hplan : ((planRepairReplication 1).exec oneOfThree).1 = ⟨[⟨"k", 1, 3, .replicate 0 2⟩], [], 0, 0⟩ := by
    decide +kernel
  refine ⟨_, hlog, ⟨by decide, by decide⟩, fun h => ?_⟩
  have hlen := h.copies.length_eq
  rw [hplan] at hlen
  exact absurd hlen (by decide)

/-- One key that needs one copy and one that needs one removal: the plan is the sweep. -/
theorem uneven_keys_are_planned :
    ∃ log, ((sweepLog 4 2 none).exec unevenlyCopied).1 = some log ∧ log.Succeeded ∧
      PlanIsSweep ((planRepairReplication 2).exec unevenlyCopied).1 log := by
  have hlog : ((sweepLog 4 2 none).exec unevenlyCopied).1 =
      some ⟨[("k", [(.replicate 0 2, true)])], [("m", [(.trim 0, true)])]⟩ := by decide +kernel
  have hshards : ∀ k, (unevenlyCopied.cluster.shardsOf k).length < 4 := by
    intro k
    have hget : unevenlyCopied.cluster.catalog.get k = if k = "m" then some ⟨[0, 1, 2], 1, none, 0, 0⟩
        else if k = "k" then some ⟨[0], 1, none, 0, 0⟩ else none := by
      refine (Catalog.get_put _ "m" k [0, 1, 2] 1 none 0 0).trans ?_
      rw [Catalog.get_put]
      rfl
    unfold Cluster.shardsOf
    rw [hget]
    split
    · decide
    · split <;> decide
  obtain ⟨log, hexec, -, hiff⟩ := plan_is_the_sweep_iff unevenlyCopied 4 2 none (by decide +kernel) hshards
  rw [hlog] at hexec
  cases hexec
  have hok : SweepLog.Succeeded ⟨[("k", [(.replicate 0 2, true)])], [("m", [(.trim 0, true)])]⟩ := ⟨by decide, by decide⟩
  have hunder : unevenlyCopied.cluster.underBatch 2 = ["k"] := by decide +kernel
  have hover : unevenlyCopied.cluster.overBatch unevenlyCopied.cluster.shardsOf 2 = ["m"] := by decide +kernel
  have hafter : unevenlyCopied.cluster.overBatch (unevenlyCopied.cluster.afterPlan 2) 2 = ["m"] := by decide +kernel
  refine ⟨_, hlog, hok, (hiff hok).mpr ⟨?_, ?_, ?_, ?_⟩⟩
  · rw [hunder]
    simp only [List.mem_singleton, forall_eq]
    decide +kernel
  · rw [hover]
    simp only [List.mem_singleton, forall_eq]
    decide +kernel
  · rw [hover, hafter]
    exact fun k hk _ => hk
  · rw [hover, hafter]

end ObjStr.Sharded
