/-
  ObjStr.Sharded.SweepLog — a repair sweep with the progress messages that it sends (`repair.rs`).

  `sweepLog` is the sweep with, for each key that a phase selects, the copies and removals that
  were tried and whether they succeeded; `repairReplicationSweep_eq` says that its counts are
  those of the sweep. What is decided for a key is a function of the shards its entry lists
  (`copies`, `trims`). Where nothing fails the log is these, for the first keys of each phase,
  and the second phase selects on the placement that the first has left (`wp_sweepLog`).
-/

import ObjStr.Lib.Batch
import ObjStr.Sharded.Convergence

namespace ObjStr.Sharded

open ObjStr.Lib ObjStr.Raw Proc

variable {s s' : Sys} {c : Cluster} {entry : PlacementEntry}

/-! ## The sweep, with its progress messages -/

/-- A copy from one shard to another, or the removal of a replica. -/
inductive PlannedActionKind where
  | replicate (sourceShard targetShard : ShardId)
  | trim (shard : ShardId)
  deriving DecidableEq, Repr

/-- What was tried for a key, as the progress messages tell it, and whether it succeeded. -/
abbrev Tried := List (PlannedActionKind × Bool)

def Tried.succeeded (tried : Tried) : Nat := tried.countP (·.2)

/-- `repairKey` with the messages in place of their number. -/
def repairKeyLog (refs : Option RawRefRegistry) (key : Key) : (rounds : Nat) → (tried : Tried) → ClusterM (Option Tried)
  | 0, _ => pure none
  | rounds + 1, tried => do
    match ← catalogGet key with
    | none => pure (some tried)
    | some entry => do
      let enough ← look fun s =>
        decide (s.cluster.config.replicationFactor ≤ s.cluster.countHealth entry.shards [.healthy, .syncing])
      if enough then pure (some tried)
      else do
        match ← look fun s => entry.shards.find? fun id => s.cluster.isHealthy id with
        | none => pure (some tried)
        | some source => do
          match ← findReplicationTarget key with
          | none => pure (some tried)
          | some target => do
            match ← replicateObject key source target refs with
            | .ok _ => repairKeyLog refs key rounds (tried ++ [(.replicate source target, true)])
            | .error _ => pure (some (tried ++ [(.replicate source target, false)]))

def trimKeyLog (key : Key) : (rounds : Nat) → (tried : Tried) → ClusterM (Option Tried)
  | 0, _ => pure none
  | rounds + 1, tried => do
    match ← pickExcessShard key with
    | none => pure (some tried)
    | some shard => do
      match ← removeReplica key shard with
      | .ok _ => trimKeyLog key rounds (tried ++ [(.trim shard, true)])
      | .error _ => pure (some (tried ++ [(.trim shard, false)]))

def forKeysLog (keys : List (Key × Nat)) (f : Key → ClusterM (Option Tried)) : ClusterM (Option (List (Key × Tried))) :=
  keys.foldlM (fun acc k => match acc with
    | none => pure none
    | some done => do
      let r ← f k.1
      pure (r.map fun tried => done ++ [(k.1, tried)])) (some [])

def forKeyLog (f : Key → ClusterM (Option Tried)) (acc : Option (List (Key × Tried))) (k : Key × Nat) :
    ClusterM (Option (List (Key × Tried))) :=
  match acc with
  | none => pure none
  | some done => do
    let r ← f k.1
    pure (r.map fun tried => done ++ [(k.1, tried)])

/-- The keys that each phase selected, and what was tried for them. -/
structure SweepLog where
  copied : List (Key × Tried)
  trimmed : List (Key × Tried)
  deriving DecidableEq, Repr

def sweepLog (rounds batchSize : Nat) (refs : Option RawRefRegistry) : ClusterM (Option SweepLog) := do
  let under ← look fun s => s.cluster.findUnderReplicated
  let copied ← forKeysLog (under.take batchSize) fun key => repairKeyLog refs key rounds []
  let overKeys ← look fun s => s.cluster.findOverReplicated
  let trimmed ← forKeysLog (overKeys.take batchSize) fun key => trimKeyLog key rounds []
  pure (do pure ⟨← copied, ← trimmed⟩)

def succeededIn (log : List (Key × Tried)) : Nat := (log.map fun k => k.2.succeeded).sum

/-! ## It is the sweep -/

@[simp] theorem Tried.succeeded_append (tried tried' : Tried) :
    Tried.succeeded (tried ++ tried') = tried.succeeded + tried'.succeeded := List.countP_append

theorem repairKey_eq (refs : Option RawRefRegistry) (key : Key) (rounds n : Nat) (tried : Tried) :
    repairKey refs key rounds (n + tried.succeeded) =
      (do pure ((← repairKeyLog refs key rounds tried).map fun t => n + t.succeeded)) := by
  induction rounds generalizing tried with
  | zero => rfl
  | succ rounds ih =>
    unfold repairKey repairKeyLog
    simp only [bind_assoc]
    congr 1
    funext e
    cases e with
    | none => rfl
    | some entry =>
      simp only [bind_assoc]
      congr 1
      funext enough
      cases enough with
      | true => rfl
      | false =>
        simp only [Bool.false_eq_true, if_false, bind_assoc]
        congr 1
        funext source
        cases source with
        | none => rfl
        | some source =>
          simp only [bind_assoc]
          congr 1
          funext target
          cases target with
          | none => rfl
          | some target =>
            simp only [bind_assoc]
            congr 1
            funext r
            cases r with
            | error e => simp [Tried.succeeded]
            | ok size =>
              have h := ih (tried ++ [(.replicate source target, true)])
              rw [Tried.succeeded_append] at h
              exact h

theorem trimKey_eq (key : Key) (rounds n : Nat) (tried : Tried) :
    trimKey key rounds (n + tried.succeeded) = (do pure ((← trimKeyLog key rounds tried).map fun t => n + t.succeeded)) := by
  induction rounds generalizing tried with
  | zero => rfl
  | succ rounds ih =>
    unfold trimKey trimKeyLog
    simp only [bind_assoc]
    congr 1
    funext shard
    cases shard with
    | none => rfl
    | some shard =>
      simp only [bind_assoc]
      congr 1
      funext r
      cases r with
      | error e => simp [Tried.succeeded]
      | ok u =>
        have h := ih (tried ++ [(.trim shard, true)])
        rw [Tried.succeeded_append] at h
        exact h

theorem forKeys_eq (keys : List (Key × Nat)) {f : Key → Nat → ClusterM (Option Nat)} {g : Key → ClusterM (Option Tried)}
    (h : ∀ k n, f k n = (do pure ((← g k).map fun t => n + t.succeeded))) :
    forKeys keys f = (do pure ((← forKeysLog keys g).map succeededIn)) := by
  obtain rfl : f = fun k n => (do pure ((← g k).map fun t => n + t.succeeded)) := funext fun k => funext fun n => h k n
  have hfold : ∀ acc : Option (List (Key × Tried)),
      keys.foldlM (forKey fun k n => (do pure ((← g k).map fun t => n + t.succeeded))) (acc.map succeededIn) =
      (do pure ((← keys.foldlM (forKeyLog g) acc).map succeededIn)) := by
    induction keys with
    | nil => intro acc; rfl
    | cons k keys ih =>
      intro acc
      simp only [List.foldlM_cons, bind_assoc]
      cases acc with
      | none => exact ih none
      | some done =>
        simp only [Option.map_some, forKey, forKeyLog, bind_assoc, pure_bind]
        congr 1
        funext r
        rw [← ih]
        cases r with
        | none => rfl
        | some tried => simp [succeededIn]
  exact hfold (some [])

/-- The counts of the result are those of the messages. -/
theorem repairReplicationSweep_eq (rounds batchSize : Nat) (refs : Option RawRefRegistry) :
    repairReplicationSweep rounds batchSize refs = (do
      let log ← sweepLog rounds batchSize refs
      let underLeft ← look fun s => s.cluster.findUnderReplicated.length
      let overLeft ← look fun s => s.cluster.findOverReplicated.length
      pure (log.map fun l => ⟨succeededIn l.copied, succeededIn l.trimmed, underLeft, overLeft⟩)) := by
  have h1 : ∀ keys : List (Key × Nat), forKeys keys (fun key n => repairKey refs key rounds n) =
      (do pure ((← forKeysLog keys fun key => repairKeyLog refs key rounds []).map succeededIn)) := fun keys =>
    forKeys_eq keys fun k n => repairKey_eq refs k rounds n []
  have h2 : ∀ keys : List (Key × Nat), forKeys keys (fun key n => trimKey key rounds n) =
      (do pure ((← forKeysLog keys fun key => trimKeyLog key rounds []).map succeededIn)) := fun keys =>
    forKeys_eq keys fun k n => trimKey_eq k rounds n []
  unfold repairReplicationSweep sweepLog
  simp only [h1, h2, bind_assoc, pure_bind]
  congr 1
  funext under
  congr 1
  funext copied
  congr 1
  funext overKeys
  congr 1
  funext trimmed
  cases copied with
  | none => rfl
  | some copied => cases trimmed <;> rfl

/-- The sweep returns if its log does, with the counts of the log. -/
theorem exec_repairReplicationSweep {rounds batchSize : Nat} {refs : Option RawRefRegistry} {log : SweepLog}
    (h : ((sweepLog rounds batchSize refs).exec s).1 = some log) :
    ∃ result, ((repairReplicationSweep rounds batchSize refs).exec s).1 = some result ∧
      result.reReplicated = succeededIn log.copied ∧ result.trimmed = succeededIn log.trimmed := by
  rw [repairReplicationSweep_eq, exec_bind]
  cases hrun : (sweepLog rounds batchSize refs).exec s with
  | mk r t =>
    rw [hrun] at h
    obtain rfl : r = some log := h
    exact ⟨_, rfl, rfl, rfl⟩

/-! ## What is decided for a key -/

namespace Cluster

variable (c : Cluster)

def shardsOf (key : Key) : List ShardId := ((c.catalog.get key).map (·.shards)).getD []

/-- The copy that the code makes next, from where to where. -/
def firstCopy (shards : List ShardId) : Option (ShardId × ShardId) := do
  let source ← shards.find? fun id => c.isHealthy id
  let target ← c.replicationTarget shards
  pure (source, target)

/-- The copies of a key that no failure stops. -/
def copies : (rounds : Nat) → List ShardId → List (ShardId × ShardId)
  | 0, _ => []
  | rounds + 1, shards =>
    if c.config.replicationFactor ≤ c.countHealth shards [.healthy, .syncing] then []
    else match c.firstCopy shards with
      | none => []
      | some a => a :: copies rounds (shards ++ [a.2])

/-- The removals of a key that no failure stops. -/
def trims : (rounds : Nat) → List ShardId → List ShardId
  | 0, _ => []
  | rounds + 1, shards => match c.excessShard shards with
    | none => []
    | some x => x :: trims rounds (shards.filter (· != x))

variable {c}

theorem shardsOf_eq {key : Key} (h : c.catalog.get key = some entry) : c.shardsOf key = entry.shards := by
  rw [shardsOf, h]
  rfl

theorem firstCopy_eq_some {shards : List ShardId} {a : ShardId × ShardId} :
    c.firstCopy shards = some a ↔
      (shards.find? fun id => c.isHealthy id) = some a.1 ∧ c.replicationTarget shards = some a.2 := by
  simp only [firstCopy, Option.bind_eq_bind, Option.bind_eq_some_iff, Option.pure_def, Option.some.injEq]
  constructor
  · intro ⟨x, hx, y, hy, h⟩
    subst h
    exact ⟨hx, hy⟩
  · intro ⟨hx, hy⟩
    exact ⟨a.1, hx, a.2, hy, rfl⟩

theorem replicationTarget_spec {shards : List ShardId} {x : ShardId} (h : c.replicationTarget shards = some x) :
    x ∉ shards ∧ c.isHealthy x = true := by
  have h1 := (List.mem_filter.mp (mem_of_maxByKey h)).2
  simpa using h1

theorem countHealth_append_one {states : List ShardHealth} (shards : List ShardId) {x : ShardId} (hx : c.isHealthy x = true)
    (hs : ShardHealth.healthy ∈ states) : c.countHealth (shards ++ [x]) states = c.countHealth shards states + 1 := by
  have hh : c.healthOf x = some .healthy := by simpa [isHealthy] using hx
  simp [countHealth, List.filter_append, hh, hs]

/-- What can go leaves enough behind. -/
theorem lt_of_excessShard {shards : List ShardId} {x : ShardId} (h : c.excessShard shards = some x) :
    c.countHealth (shards.filter (· != x)) [.healthy] < c.countHealth shards [.healthy] ∧
      c.config.replicationFactor ≤ c.countHealth (shards.filter (· != x)) [.healthy] := by
  obtain ⟨hmem, hh, hsafe⟩ := excessShard_safe h
  refine ⟨?_, hsafe⟩
  rw [countHealth_healthy, countHealth_healthy, List.filter_comm]
  exact List.length_filter_lt_length_iff_exists.mpr ⟨x, List.mem_filter.mpr ⟨hmem, hh⟩, by simp⟩

theorem excessShard_eq_none_of_le {shards : List ShardId} (h : c.countHealth shards [.healthy] ≤ c.config.replicationFactor) :
    c.excessShard shards = none := by
  by_contra hn
  obtain ⟨x, hx⟩ := Option.ne_none_iff_exists'.mp hn
  have h1 := lt_of_excessShard hx
  omega

/-- Copying does not give a key more Healthy replicas than it should have. -/
theorem healthy_after_copies (rounds : Nat) (shards : List ShardId) :
    c.copies rounds shards ≠ [] → c.countHealth (shards ++ (c.copies rounds shards).map (·.2)) [.healthy, .syncing] ≤
      c.config.replicationFactor := by
  induction rounds generalizing shards with
  | zero => exact fun h => absurd rfl h
  | succ rounds ih =>
    unfold copies
    split
    · exact fun h => absurd rfl h
    · next henough =>
      split
      · exact fun h => absurd rfl h
      · next a ha =>
        intro _
        have hh := (replicationTarget_spec (firstCopy_eq_some.mp ha).2).2
        rw [List.map_cons, List.append_cons]
        by_cases hnil : c.copies rounds (shards ++ [a.2]) = []
        · rw [hnil, List.map_nil, List.append_nil, countHealth_append_one shards hh (by simp)]
          omega
        · exact ih _ hnil

/-- The plan foresees the first copy. -/
theorem take_copies {shards : List ShardId} {rounds : Nat} (hr : 0 < rounds)
    (henough : c.countHealth shards [.healthy, .syncing] < c.config.replicationFactor) :
    (c.copies rounds shards).take 1 = (c.firstCopy shards).toList := by
  obtain ⟨rounds, rfl⟩ := Nat.exists_eq_succ_of_ne_zero (Nat.ne_of_gt hr)
  rw [copies, if_neg (Nat.not_le_of_lt henough)]
  cases c.firstCopy shards <;> rfl

theorem take_trims {shards : List ShardId} {rounds : Nat} (hr : 0 < rounds) :
    (c.trims rounds shards).take 1 = (c.excessShard shards).toList := by
  obtain ⟨rounds, rfl⟩ := Nat.exists_eq_succ_of_ne_zero (Nat.ne_of_gt hr)
  rw [trims]
  cases c.excessShard shards <;> rfl

theorem length_cons_le_one {α : Type} {a : α} {l : List α} : (a :: l).length ≤ 1 ↔ l = [] := by
  rw [List.length_cons, ← List.length_eq_zero_iff]
  omega

/-- One copy of a key is all. -/
theorem length_copies_le_one_iff {shards : List ShardId} {rounds : Nat} (hr : c.shards.length < rounds)
    (henough : c.countHealth shards [.healthy, .syncing] < c.config.replicationFactor) :
    (c.copies rounds shards).length ≤ 1 ↔ ∀ a, c.firstCopy shards = some a →
      c.config.replicationFactor ≤ c.countHealth (shards ++ [a.2]) [.healthy, .syncing] ∨
        c.replicationTarget (shards ++ [a.2]) = none := by
  obtain ⟨rounds, rfl⟩ := Nat.exists_eq_succ_of_ne_zero (Nat.ne_of_gt (Nat.zero_lt_of_lt hr))
  rw [copies, if_neg (Nat.not_le_of_lt henough)]
  cases ha : c.firstCopy shards with
  | none => simp
  | some a =>
    obtain ⟨hsource, htarget⟩ := firstCopy_eq_some.mp ha
    have hpos := Nat.zero_lt_of_lt (lt_of_isHealthy (replicationTarget_spec htarget).2)
    obtain ⟨rounds, rfl⟩ := Nat.exists_eq_succ_of_ne_zero (show rounds ≠ 0 by omega)
    simp only [length_cons_le_one, Option.some.injEq, forall_eq']
    rw [copies]
    split
    · next h => simp [h]
    · next h =>
      have hagain : (shards ++ [a.2]).find? (fun id => c.isHealthy id) = some a.1 := by
        rw [List.find?_append, hsource]
        rfl
      cases hb : c.replicationTarget (shards ++ [a.2]) with
      | none =>
        have hnone : c.firstCopy (shards ++ [a.2]) = none := by simp [firstCopy, hb]
        simp [hnone]
      | some y =>
        have hsome : c.firstCopy (shards ++ [a.2]) = some (a.1, y) := firstCopy_eq_some.mpr ⟨hagain, hb⟩
        simp [hsome, h]

/-- One removal is all. -/
theorem length_trims_le_one_iff {shards : List ShardId} {rounds : Nat} (hr : shards.length < rounds) :
    (c.trims rounds shards).length ≤ 1 ↔
      ∀ x, c.excessShard shards = some x → c.excessShard (shards.filter (· != x)) = none := by
  obtain ⟨rounds, rfl⟩ := Nat.exists_eq_succ_of_ne_zero (Nat.ne_of_gt (Nat.zero_lt_of_lt hr))
  rw [trims]
  cases hx : c.excessShard shards with
  | none => simp
  | some x =>
    have hlen := List.length_pos_of_mem (excessShard_safe hx).1
    obtain ⟨rounds, rfl⟩ := Nat.exists_eq_succ_of_ne_zero (show rounds ≠ 0 by omega)
    simp only [length_cons_le_one, Option.some.injEq, forall_eq']
    rw [trims]
    cases c.excessShard (shards.filter (· != x)) <;> simp

/-! Only the configuration and the shards decide. -/

section Congr

variable {c' : Cluster} (hc : c'.config = c.config) (hs : c'.shards = c.shards)
include hs

theorem replicationTarget_congr (shards : List ShardId) : c'.replicationTarget shards = c.replicationTarget shards := by
  unfold replicationTarget freeSpaceOf
  simp only [isHealthy_congr hs, hs]

theorem firstCopy_congr (shards : List ShardId) : c'.firstCopy shards = c.firstCopy shards := by
  unfold firstCopy
  simp only [replicationTarget_congr hs, isHealthy_congr hs]

include hc

theorem excessShard_congr (shards : List ShardId) : c'.excessShard shards = c.excessShard shards := by
  unfold excessShard freeSpaceOf
  simp only [isHealthy_congr hs, hs, hc]

theorem copies_congr (rounds : Nat) (shards : List ShardId) : c'.copies rounds shards = c.copies rounds shards := by
  induction rounds generalizing shards with
  | zero => rfl
  | succ rounds ih => simp only [copies, hc, countHealth_congr hs, firstCopy_congr hs, ih]

theorem trims_congr (rounds : Nat) (shards : List ShardId) : c'.trims rounds shards = c.trims rounds shards := by
  induction rounds generalizing shards with
  | zero => rfl
  | succ rounds ih => simp only [trims, excessShard_congr hc hs, ih]

end Congr

end Cluster

/-! ## The placement after a step -/

/-- The same keys in the same order, on these shards; nothing else changed. -/
structure PlacedOn (s s' : Sys) (f : Key → List ShardId) : Prop where
  config : s'.cluster.config = s.cluster.config
  shards : s'.cluster.shards = s.cluster.shards
  keys : s'.cluster.catalog.inner.keys = s.cluster.catalog.inner.keys
  shardsOf : s'.cluster.shardsOf = f

theorem PlacedOn.of_cluster (h : s'.cluster = s.cluster) : PlacedOn s s' s.cluster.shardsOf :=
  ⟨by rw [h], by rw [h], by rw [h], by rw [h]⟩

theorem PlacedOn.trans {s'' : Sys} {f f' : Key → List ShardId} (h : PlacedOn s s' f) (h' : PlacedOn s' s'' f') :
    PlacedOn s s'' f' :=
  ⟨h'.config.trans h.config, h'.shards.trans h.shards, h'.keys.trans h.keys, h'.shardsOf⟩

theorem keys_set {V : Type} {m : FMap V} {k : Key} (h : k ∈ m) (v : V) : (m.set k v).keys = m.keys := by
  unfold FMap.set
  rw [if_pos h]
  simp [AList.keys, FMap.mapValues, List.keys]

/-- A copy adds the shard at the end. -/
theorem Copied.placed {key : Key} {src dst : ShardId} {size : Nat} {t : Steps Event Sys}
    (h : Copied key src dst s (.ok size) s' t) (hentry : s.cluster.catalog.get key = some entry) (hdst : dst ∉ entry.shards) :
    (∃ ml, s'.cluster.catalog.get key = some (entry.withReplica dst ml)) ∧
      PlacedOn s s' (Function.update s.cluster.shardsOf key (entry.shards ++ [dst])) := by
  obtain ⟨ml, htouch, hget⟩ := Copied.listed h hentry
  obtain ⟨s1, t1, h1, ml', rfl, -⟩ := h
  refine ⟨⟨ml, hget⟩, htouch.config, htouch.shards, ?_, ?_⟩
  · rw [← h1.cluster] at hentry ⊢
    exact keys_set (AList.lookup_isSome.mp (Option.isSome_of_eq_some hentry)) _
  · funext k
    by_cases hk : k = key
    · subst hk
      rw [Function.update_self, Cluster.shardsOf_eq hget]
      simp [PlacementEntry.withReplica, hdst]
    · rw [Function.update_of_ne hk, Cluster.shardsOf, htouch.others k (by simpa using hk)]
      rfl

/-- A removal takes the shard out. -/
theorem Removed.placed {key : Key} {x : ShardId} {t : Steps Event Sys} (h : Removed key x s (.ok ()) s' t)
    (hentry : s.cluster.catalog.get key = some entry) (hne : (entry.without x).shards ≠ []) :
    s'.cluster.catalog.get key = some (entry.without x) ∧
      PlacedOn s s' (Function.update s.cluster.shardsOf key (entry.without x).shards) := by
  obtain ⟨htouch, hget⟩ := Removed.unlisted h hentry hne
  obtain ⟨s1, t1, h1, rfl, -⟩ := h
  refine ⟨hget, htouch.config, htouch.shards, ?_, ?_⟩
  · rw [← h1.cluster] at hentry ⊢
    show (s1.cluster.catalog.removeShard key x).inner.keys = _
    rw [Catalog.removeShard, hentry]
    dsimp only
    rw [if_neg (by simpa using hne)]
    exact keys_set (AList.lookup_isSome.mp (Option.isSome_of_eq_some hentry)) _
  · funext k
    by_cases hk : k = key
    · subst hk
      rw [Function.update_self, Cluster.shardsOf_eq hget]
    · rw [Function.update_of_ne hk, Cluster.shardsOf, htouch.others k (by simpa using hk)]
      rfl

/-! ## One key -/

/-- What the loop over one key leaves: a failure, or all its steps and the shards after them. The
    key gets no more Healthy replicas than it should have, unless it had more. -/
def KeyRan (key : Key) (steps : List PlannedActionKind) (after : List ShardId) (s : Sys) (done : Tried) (s' : Sys) : Prop :=
  ∃ p, PlacedOn s s' (Function.update s.cluster.shardsOf key p) ∧
    s.cluster.countHealth p [.healthy] ≤
      max s.cluster.config.replicationFactor (s.cluster.countHealth (s.cluster.shardsOf key) [.healthy]) ∧
    ((∃ a ∈ done, a.2 = false) ∨ done = steps.map (·, true) ∧ p = after)

/-- Nothing changed. -/
theorem KeyRan.stay {key : Key} {steps : List PlannedActionKind} {after : List ShardId} {done : Tried} (h : s'.cluster = s.cluster)
    (hdone : (∃ a ∈ done, a.2 = false) ∨ done = steps.map (·, true) ∧ s.cluster.shardsOf key = after) :
    KeyRan key steps after s done s' := by
  refine ⟨s.cluster.shardsOf key, ?_, le_max_right _ _, hdone⟩
  rw [Function.update_eq_self]
  exact .of_cluster h

/-- One step, and then the others. -/
theorem KeyRan.step {key : Key} {a : PlannedActionKind} {steps : List PlannedActionKind} {p after : List ShardId}
    {done : Tried} {s1 : Sys}
    (h1 : PlacedOn s s1 (Function.update s.cluster.shardsOf key p))
    (hp : s.cluster.countHealth p [.healthy] ≤
      max s.cluster.config.replicationFactor (s.cluster.countHealth (s.cluster.shardsOf key) [.healthy]))
    (h : KeyRan key steps after s1 done s') : KeyRan key (a :: steps) after s ((a, true) :: done) s' := by
  obtain ⟨p', hplaced, hle, hdone⟩ := h
  have hkey : s1.cluster.shardsOf key = p := by rw [h1.shardsOf, Function.update_self]
  rw [h1.shardsOf, Function.update_idem] at hplaced
  rw [hkey, h1.config, Cluster.countHealth_congr h1.shards, Cluster.countHealth_congr h1.shards] at hle
  refine ⟨p', h1.trans hplaced, hle.trans (max_le (le_max_left _ _) hp), ?_⟩
  rcases hdone with ⟨b, hb, hf⟩ | ⟨hd, hafter⟩
  · exact .inl ⟨b, List.mem_cons_of_mem _ hb, hf⟩
  · refine .inr ⟨?_, hafter⟩
    rw [hd]
    rfl

theorem wp_repairKeyLog (refs : Option RawRefRegistry) {key : Key} {rounds : Nat} (tried : Tried)
    (hentry : s.cluster.catalog.get key = some entry) (hr : (s.cluster.missing entry).length < rounds) :
    (repairKeyLog refs key rounds tried).wp (fun r s' _ => ∃ done, r = some (tried ++ done) ∧
      KeyRan key ((s.cluster.copies rounds entry.shards).map fun a => .replicate a.1 a.2)
        (entry.shards ++ (s.cluster.copies rounds entry.shards).map (·.2)) s done s') s := by
  induction rounds generalizing s tried entry with
  | zero => exact absurd hr (Nat.not_lt_zero _)
  | succ rounds ih =>
    have hkey := Cluster.shardsOf_eq hentry
    -- where the loop ends there is no copy to make
    have hstop : s.cluster.copies (rounds + 1) entry.shards = [] → ∃ done, some tried = some (tried ++ done) ∧
        KeyRan key ((s.cluster.copies (rounds + 1) entry.shards).map fun a => .replicate a.1 a.2)
          (entry.shards ++ (s.cluster.copies (rounds + 1) entry.shards).map (·.2)) s done s := by
      intro h
      rw [h]
      exact ⟨[], by simp, .stay rfl (.inr ⟨rfl, by simpa using hkey⟩)⟩
    unfold repairKeyLog
    rw [wp_bind, catalogGet, wp_look, hentry]
    dsimp only
    rw [wp_bind, wp_look]
    split
    · next h =>
      rw [wp_pure]
      exact hstop (by rw [Cluster.copies, if_pos (of_decide_eq_true h)])
    · next henough =>
      have hno : ¬ s.cluster.config.replicationFactor ≤ s.cluster.countHealth entry.shards [.healthy, .syncing] := by
        simpa using henough
      rw [wp_bind, wp_look]
      split
      · next h =>
        rw [wp_pure]
        refine hstop ?_
        rw [Cluster.copies, if_neg hno]
        simp [Cluster.firstCopy, h]
      · next source h =>
        rw [wp_bind, findReplicationTarget, wp_bind, catalogGet, wp_look, wp_look, hentry]
        split
        · next htarget =>
          rw [wp_pure]
          have htarget' : s.cluster.replicationTarget entry.shards = none := htarget
          refine hstop ?_
          rw [Cluster.copies, if_neg hno]
          simp [Cluster.firstCopy, htarget']
        · next target htarget =>
          have htarget' : s.cluster.replicationTarget entry.shards = some target := htarget
          have hdst : target ∈ s.cluster.missing entry := mem_of_maxByKey htarget
          obtain ⟨hnew, hh⟩ := Cluster.mem_missing.mp hdst
          have hfirst : s.cluster.firstCopy entry.shards = some (source, target) :=
            Cluster.firstCopy_eq_some.mpr ⟨h, htarget'⟩
          have hcopies : s.cluster.copies (rounds + 1) entry.shards =
              (source, target) :: s.cluster.copies rounds (entry.shards ++ [target]) := by
            simp only [Cluster.copies, if_neg hno, hfirst]
          rw [hcopies, wp_bind]
          refine wp_mono (wp_replicateObject _ _ _ _) fun r s1 t1 h1 => ?_
          cases r with
          | error e =>
            obtain ⟨s2, t2, h2, rfl, -, -⟩ := h1
            rw [wp_pure]
            exact ⟨[(.replicate source target, false)], rfl, .stay h2.cluster (.inl ⟨_, List.mem_singleton_self _, rfl⟩)⟩
          | ok size =>
            obtain ⟨⟨ml, hget⟩, hplaced⟩ := Copied.placed h1 hentry hnew
            have hshards : (entry.withReplica target ml).shards = entry.shards ++ [target] := by
              simp [PlacementEntry.withReplica, hnew]
            have hmiss := Cluster.length_missing_withReplica hdst ml
            have hmiss1 : s1.cluster.missing (entry.withReplica target ml) = s.cluster.missing (entry.withReplica target ml) := by
              unfold Cluster.missing
              simp only [isHealthy_congr hplaced.shards, hplaced.shards]
            have hone : s.cluster.countHealth (entry.shards ++ [target]) [.healthy, .syncing] =
                s.cluster.countHealth entry.shards [.healthy, .syncing] + 1 :=
              Cluster.countHealth_append_one entry.shards hh (by simp)
            have hle : s.cluster.countHealth (entry.shards ++ [target]) [.healthy] ≤
                s.cluster.countHealth (entry.shards ++ [target]) [.healthy, .syncing] := Cluster.countHealth_mono _ (by simp)
            refine wp_mono (ih (tried ++ [(.replicate source target, true)]) hget ?_) fun r s4 t4 h4 => ?_
            · rw [hmiss1]
              omega
            · obtain ⟨done, hr4, hran⟩ := h4
              rw [hshards, Cluster.copies_congr hplaced.config hplaced.shards, List.append_assoc] at hran
              refine ⟨(.replicate source target, true) :: done, by rw [hr4, List.append_assoc]; rfl, ?_⟩
              have hrf : s.cluster.countHealth (entry.shards ++ [target]) [.healthy] ≤ s.cluster.config.replicationFactor := by
                omega
              exact .step hplaced (hrf.trans (le_max_left _ _)) hran

theorem wp_trimKeyLog {key : Key} {rounds : Nat} (tried : Tried) (hentry : s.cluster.catalog.get key = some entry)
    (hr : s.cluster.countHealth entry.shards [.healthy] - s.cluster.config.replicationFactor < rounds) :
    (trimKeyLog key rounds tried).wp (fun r s' _ => ∃ done, r = some (tried ++ done) ∧
      KeyRan key ((s.cluster.trims rounds entry.shards).map .trim)
        ((s.cluster.trims rounds entry.shards).foldl (fun l x => l.filter (· != x)) entry.shards) s done s') s := by
  induction rounds generalizing s tried entry with
  | zero => exact absurd hr (Nat.not_lt_zero _)
  | succ rounds ih =>
    have hkey := Cluster.shardsOf_eq hentry
    unfold trimKeyLog
    rw [wp_bind, pickExcessShard, wp_bind, catalogGet, wp_look, hentry]
    dsimp only
    rw [wp_look]
    cases hx : s.cluster.excessShard entry.shards with
    | none =>
      have htrims : s.cluster.trims (rounds + 1) entry.shards = [] := by rw [Cluster.trims, hx]
      rw [wp_pure, htrims]
      exact ⟨[], by simp, .stay rfl (.inr ⟨rfl, hkey⟩)⟩
    | some x =>
      obtain ⟨hmem, hh, -⟩ := Cluster.excessShard_safe hx
      obtain ⟨hlt, hsafe⟩ := Cluster.lt_of_excessShard hx
      have htrims : s.cluster.trims (rounds + 1) entry.shards =
          x :: s.cluster.trims rounds (entry.shards.filter (· != x)) := by simp only [Cluster.trims, hx]
      have hne : (entry.without x).shards ≠ [] := by
        intro h0
        have h1 := s.cluster.config.one_le_minWrites
        have h2 := s.cluster.config.minWrites_le
        have h3 : s.cluster.countHealth (entry.shards.filter (· != x)) [.healthy] = 0 := by
          rw [show entry.shards.filter (· != x) = [] from h0]
          rfl
        omega
      dsimp only
      rw [htrims, wp_bind]
      refine wp_mono (wp_removeReplica _ _) fun r s1 t1 h1 => ?_
      cases r with
      | error e =>
        obtain ⟨s2, t2, h2, rfl, -, -⟩ := h1
        rw [wp_pure]
        exact ⟨[(.trim x, false)], rfl, .stay h2.cluster (.inl ⟨_, List.mem_singleton_self _, rfl⟩)⟩
      | ok u =>
        obtain ⟨hget, hplaced⟩ := Removed.placed h1 hentry hne
        refine wp_mono (ih (tried ++ [(.trim x, true)]) hget ?_) fun r s4 t4 h4 => ?_
        · rw [hplaced.config, Cluster.countHealth_congr hplaced.shards]
          show s.cluster.countHealth (entry.shards.filter (· != x)) [.healthy] - _ < _
          omega
        · obtain ⟨done, hr4, hran⟩ := h4
          rw [Cluster.trims_congr hplaced.config hplaced.shards] at hran
          refine ⟨(.trim x, true) :: done, by rw [hr4, List.append_assoc]; rfl, ?_⟩
          refine KeyRan.step hplaced ?_ hran
          rw [hkey]
          exact (Nat.le_of_lt hlt).trans (le_max_right _ _)

/-! ## One phase -/

def AllSucceeded (log : List (Key × Tried)) : Prop := ∀ k ∈ log, ∀ a ∈ k.2, a.2 = true

instance (log : List (Key × Tried)) : Decidable (AllSucceeded log) :=
  inferInstanceAs (Decidable (∀ k ∈ log, ∀ a ∈ k.2, a.2 = true))

/-- One loop for each key of a list: the log, and the placement after it. -/
theorem wp_forKeysLog {keys : List (Key × Nat)} {f : Key → ClusterM (Option Tried)} {steps : Key → List PlannedActionKind}
    {after : Key → List ShardId} (hnd : (keys.map (·.1)).Nodup)
    (hf : ∀ k ∈ keys.map (·.1), ∀ s1 g, PlacedOn s s1 g → s1.cluster.shardsOf k = s.cluster.shardsOf k →
      (f k).wp (fun r s' _ => ∃ done, r = some done ∧ KeyRan k (steps k) (after k) s1 done s') s1) :
    (forKeysLog keys f).wp (fun r s' _ => ∃ log g, r = some log ∧ PlacedOn s s' g ∧
      (∀ k, s.cluster.countHealth (g k) [.healthy] ≤
        max s.cluster.config.replicationFactor (s.cluster.countHealth (s.cluster.shardsOf k) [.healthy])) ∧
      (AllSucceeded log → log = (keys.map fun k => (k.1, (steps k.1).map (·, true))) ∧
        g = fun k => if k ∈ keys.map (·.1) then after k else s.cluster.shardsOf k)) s := by
  unfold forKeysLog
  refine wp_foldlM (fun done acc s' _ => ∃ log g, acc = some log ∧ PlacedOn s s' g ∧
      (∀ k, k ∉ done.map (·.1) → g k = s.cluster.shardsOf k) ∧
      (∀ k, s.cluster.countHealth (g k) [.healthy] ≤
        max s.cluster.config.replicationFactor (s.cluster.countHealth (s.cluster.shardsOf k) [.healthy])) ∧
      (AllSucceeded log → log = (done.map fun k => (k.1, (steps k.1).map (·, true))) ∧
        ∀ k ∈ done.map (·.1), g k = after k)) ?_ ?_ ?_
  · refine ⟨[], s.cluster.shardsOf, rfl, .of_cluster rfl, fun _ _ => rfl, fun _ => le_max_right _ _, ?_⟩
    exact fun _ => ⟨rfl, by simp⟩
  · intro done k rest hl acc s1 t hI
    obtain ⟨log, g, rfl, hplaced, hsame, hle, hall⟩ := hI
    have hkm : k.1 ∈ keys.map (·.1) := List.mem_map_of_mem (by simp [hl])
    have hnew : k.1 ∉ done.map (·.1) := by
      rw [hl, List.map_append, List.nodup_append] at hnd
      exact fun hm => hnd.2.2 k.1 hm k.1 (by simp) rfl
    have hk : s1.cluster.shardsOf k.1 = s.cluster.shardsOf k.1 := by rw [hplaced.shardsOf, hsame k.1 hnew]
    rw [wp_bind]
    refine wp_mono (hf k.1 hkm s1 g hplaced hk) fun r s2 t2 h2 => ?_
    obtain ⟨tried, rfl, p, hplaced2, hle2, htried⟩ := h2
    rw [wp_pure]
    rw [hplaced.shardsOf] at hplaced2
    rw [hk, hplaced.config, Cluster.countHealth_congr hplaced.shards, Cluster.countHealth_congr hplaced.shards] at hle2
    refine ⟨log ++ [(k.1, tried)], Function.update g k.1 p, rfl, hplaced.trans hplaced2, fun k' hk' => ?_, fun k' => ?_,
      fun hok => ?_⟩
    · simp only [List.map_append, List.map_cons, List.map_nil, List.mem_append, List.mem_singleton, not_or] at hk'
      rw [Function.update_of_ne hk'.2]
      exact hsame k' hk'.1
    · by_cases hkk : k' = k.1
      · subst hkk
        rw [Function.update_self]
        exact hle2
      · rw [Function.update_of_ne hkk]
        exact hle k'
    · obtain ⟨hlog, hafter⟩ := hall fun e he => hok e (List.mem_append_left _ he)
      rcases htried with ⟨a, ha, hfail⟩ | ⟨hsteps, hp⟩
      · have htrue := hok (k.1, tried) (by simp) a ha
        rw [hfail] at htrue
        cases htrue
      · refine ⟨by rw [hlog, hsteps, List.map_append]; rfl, fun k' hk' => ?_⟩
        by_cases hkk : k' = k.1
        · subst hkk
          rw [Function.update_self, hp]
        · rw [Function.update_of_ne hkk]
          simp only [List.map_append, List.map_cons, List.map_nil, List.mem_append, List.mem_singleton] at hk'
          exact hafter k' (hk'.resolve_right hkk)
  · intro acc s' t hI
    obtain ⟨log, g, hr, hplaced, hsame, hle, hall⟩ := hI
    refine ⟨log, g, hr, hplaced, hle, fun hok => ⟨(hall hok).1, funext fun k => ?_⟩⟩
    split
    · next hk => exact (hall hok).2 k hk
    · next hk => exact hsame k hk

/-! ## The batches -/

namespace Cluster

variable (c : Cluster)

def underBatch (batchSize : Nat) : List Key :=
  (c.catalog.inner.keys.filter fun k =>
    decide (c.countHealth (c.shardsOf k) [.healthy, .syncing] < c.config.replicationFactor)).take batchSize

def overBatch (placement : Key → List ShardId) (batchSize : Nat) : List Key :=
  (c.catalog.inner.keys.filter fun k =>
    decide (c.config.replicationFactor < c.countHealth (placement k) [.healthy, .degraded])).take batchSize

variable {c}

theorem selected_eq (n : List ShardId → Nat) (p : Nat → Bool) :
    c.selected (fun e => n e.shards) p =
      (c.catalog.inner.keys.filter fun k => p (n (c.shardsOf k))).map fun k => (k, n (c.shardsOf k)) := by
  have hmap : (c.catalog.inner.entries.map fun e => (e.1, n e.2.shards)) =
      c.catalog.inner.keys.map fun k => (k, n (c.shardsOf k)) := by
    rw [AList.keys, List.keys, List.map_map]
    refine List.map_congr_left fun e he => ?_
    have hget : c.catalog.get e.1 = some e.2 := AList.mem_lookup_iff.mpr he
    rw [Function.comp_apply, shardsOf_eq hget]
  rw [selected, hmap, List.filter_map]
  rfl

theorem underBatch_eq (batchSize : Nat) : (c.findUnderReplicated.take batchSize).map (·.1) = c.underBatch batchSize := by
  rw [findUnderReplicated_eq, selected_eq (fun l => c.countHealth l [.healthy, .syncing]), List.map_take, List.map_map]
  exact congrArg _ (List.map_id _)

theorem overBatch_eq (batchSize : Nat) : (c.findOverReplicated.take batchSize).map (·.1) = c.overBatch c.shardsOf batchSize := by
  rw [findOverReplicated_eq, selected_eq (fun l => c.countHealth l [.healthy, .degraded]), List.map_take, List.map_map]
  exact congrArg _ (List.map_id _)

theorem nodup_underBatch (batchSize : Nat) : (c.underBatch batchSize).Nodup :=
  ((List.take_sublist _ _).trans List.filter_sublist).nodup c.catalog.inner.nodupKeys

theorem nodup_overBatch (placement : Key → List ShardId) (batchSize : Nat) : (c.overBatch placement batchSize).Nodup :=
  ((List.take_sublist _ _).trans List.filter_sublist).nodup c.catalog.inner.nodupKeys

theorem of_mem_underBatch {key : Key} {batchSize : Nat} (h : key ∈ c.underBatch batchSize) :
    (∃ e, c.catalog.get key = some e) ∧ c.countHealth (c.shardsOf key) [.healthy, .syncing] < c.config.replicationFactor := by
  obtain ⟨hkey, hlt⟩ := List.mem_filter.mp (List.take_subset _ _ h)
  exact ⟨Option.isSome_iff_exists.mp (AList.lookup_isSome.mpr hkey), of_decide_eq_true hlt⟩

theorem of_mem_overBatch {key : Key} {placement : Key → List ShardId} {batchSize : Nat}
    (h : key ∈ c.overBatch placement batchSize) :
    ∃ e, c.catalog.get key = some e :=
  Option.isSome_iff_exists.mp (AList.lookup_isSome.mpr (List.mem_filter.mp (List.take_subset _ _ h)).1)

/-- The sweep selects from the same keys, on the shards that it has left. -/
theorem overBatch_placed {g : Key → List ShardId} (h : PlacedOn s s' g) (batchSize : Nat) :
    s'.cluster.overBatch s'.cluster.shardsOf batchSize = s.cluster.overBatch g batchSize := by
  unfold overBatch
  rw [h.shardsOf, h.keys, h.config]
  simp only [countHealth_congr h.shards]

end Cluster

/-! ## What the sweep does -/

def performed (log : List (Key × Tried)) : List (Key × PlannedActionKind) :=
  log.flatMap fun k => (k.2.filter (·.2)).map fun a => (k.1, a.1)

/-- The number of selected keys for which nothing was done. -/
def leftAlone (log : List (Key × Tried)) : Nat := log.countP fun k => (k.2.filter (·.2)).isEmpty

theorem performed_all (keys : List Key) (steps : Key → List PlannedActionKind) :
    performed (keys.map fun k => (k, (steps k).map (·, true))) = stepsOf keys steps := by
  unfold performed stepsOf
  rw [List.flatMap_map]
  refine List.flatMap_congr fun k _ => ?_
  simp [List.filter_map, Function.comp_def]

theorem leftAlone_all (keys : List Key) (steps : Key → List PlannedActionKind) :
    leftAlone (keys.map fun k => (k, (steps k).map (·, true))) = keys.countP fun k => (steps k).isEmpty := by
  unfold leftAlone
  rw [List.countP_map]
  congr 1
  funext k
  simp [List.filter_map, Function.comp_def]

def SweepLog.Succeeded (log : SweepLog) : Prop := AllSucceeded log.copied ∧ AllSucceeded log.trimmed

def Cluster.copySteps (c : Cluster) (rounds : Nat) (key : Key) : List PlannedActionKind :=
  (c.copies rounds (c.shardsOf key)).map fun a => .replicate a.1 a.2

def Cluster.trimSteps (c : Cluster) (rounds : Nat) (key : Key) : List PlannedActionKind :=
  (c.trims rounds (c.shardsOf key)).map .trim

/-- The shards of each key after the first phase. -/
def Cluster.afterCopies (c : Cluster) (rounds batchSize : Nat) (key : Key) : List ShardId :=
  if key ∈ c.underBatch batchSize then c.shardsOf key ++ (c.copies rounds (c.shardsOf key)).map (·.2) else c.shardsOf key

/-- The entry of a key in the changed placement. -/
theorem PlacedOn.listed {g : Key → List ShardId} {key : Key} (h : PlacedOn s s' g)
    (hentry : ∃ e, s.cluster.catalog.get key = some e) :
    ∃ e, s'.cluster.catalog.get key = some e := by
  obtain ⟨e, he⟩ := hentry
  have hmem : key ∈ s.cluster.catalog.inner.keys := AList.lookup_isSome.mp (Option.isSome_of_eq_some he)
  rw [← h.keys] at hmem
  exact Option.isSome_iff_exists.mp (AList.lookup_isSome.mpr hmem)

/-- The loop over a key that the loops before it left as it was. -/
theorem wp_repairKeyLog_placed {rounds : Nat} {g : Key → List ShardId} {key : Key} (refs : Option RawRefRegistry)
    (hentry : ∃ e, s.cluster.catalog.get key = some e) (hr : s.cluster.shards.length < rounds) (hplaced : PlacedOn s s' g)
    (hsame : s'.cluster.shardsOf key = s.cluster.shardsOf key) :
    (repairKeyLog refs key rounds []).wp (fun r s'' _ => ∃ done, r = some done ∧
      KeyRan key (s.cluster.copySteps rounds key)
        (s.cluster.shardsOf key ++ (s.cluster.copies rounds (s.cluster.shardsOf key)).map (·.2)) s' done s'') s' := by
  obtain ⟨e, he⟩ := hplaced.listed hentry
  have hshards := (Cluster.shardsOf_eq he).symm.trans hsame
  refine wp_mono (wp_repairKeyLog refs [] he (Nat.lt_of_le_of_lt (Cluster.length_missing_le e) ?_)) fun r s'' t h => ?_
  · rw [hplaced.shards]
    exact hr
  · rw [Cluster.copies_congr hplaced.config hplaced.shards, hshards] at h
    exact h

theorem wp_trimKeyLog_placed {rounds : Nat} {g : Key → List ShardId} {key : Key}
    (hentry : ∃ e, s.cluster.catalog.get key = some e)
    (hr : s.cluster.countHealth (s.cluster.shardsOf key) [.healthy] - s.cluster.config.replicationFactor < rounds)
    (hplaced : PlacedOn s s' g) (hsame : s'.cluster.shardsOf key = s.cluster.shardsOf key) :
    (trimKeyLog key rounds []).wp (fun r s'' _ => ∃ done, r = some done ∧
      KeyRan key ((s.cluster.trims rounds (s.cluster.shardsOf key)).map .trim)
        ((s.cluster.trims rounds (s.cluster.shardsOf key)).foldl (fun l x => l.filter (· != x)) (s.cluster.shardsOf key))
        s' done s'') s' := by
  obtain ⟨e, he⟩ := hplaced.listed hentry
  have hshards := (Cluster.shardsOf_eq he).symm.trans hsame
  refine wp_mono (wp_trimKeyLog [] he ?_) fun r s'' t h => ?_
  · rw [hplaced.config, Cluster.countHealth_congr hplaced.shards, hshards]
    exact hr
  · rw [Cluster.trims_congr hplaced.config hplaced.shards, hshards] at h
    exact h

theorem Cluster.countHealth_le_length (c : Cluster) (l : List ShardId) (states : List ShardHealth) :
    c.countHealth l states ≤ l.length := List.length_filter_le _ _

/-- Without a failure the sweep ends, and does for each selected key what is decided for it. -/
theorem wp_sweepLog {rounds batchSize : Nat} (refs : Option RawRefRegistry) (hr : s.cluster.shards.length < rounds)
    (hr' : ∀ k, (s.cluster.shardsOf k).length < rounds) :
    (sweepLog rounds batchSize refs).wp (fun r _ _ => ∃ log, r = some log ∧ (log.Succeeded →
      log.copied = (s.cluster.underBatch batchSize).map (fun k => (k, (s.cluster.copySteps rounds k).map (·, true))) ∧
      log.trimmed = (s.cluster.overBatch (s.cluster.afterCopies rounds batchSize) batchSize).map fun k =>
        (k, ((s.cluster.trims rounds (s.cluster.afterCopies rounds batchSize k)).map .trim).map (·, true)))) s := by
  have hunder := Cluster.underBatch_eq (c := s.cluster) batchSize
  have hphase1 := wp_forKeysLog (s := s) (f := fun key => repairKeyLog refs key rounds [])
    (by rw [hunder]; exact Cluster.nodup_underBatch batchSize) (fun k hk s1 g hplaced hsame =>
      wp_repairKeyLog_placed refs (by rw [hunder] at hk; exact (Cluster.of_mem_underBatch hk).1) hr hplaced hsame)
  unfold sweepLog
  rw [wp_bind, wp_look, wp_bind]
  refine wp_mono hphase1 fun r1 s1 t1 h1 => ?_
  obtain ⟨copied, g, rfl, hplaced, hle, hcopied⟩ := h1
  have hover : (s1.cluster.findOverReplicated.take batchSize).map (·.1) = s.cluster.overBatch g batchSize := by
    rw [Cluster.overBatch_eq, Cluster.overBatch_placed hplaced]
  have hphase2 := wp_forKeysLog (s := s1) (f := fun key => trimKeyLog key rounds [])
    (by rw [hover]; exact Cluster.nodup_overBatch g batchSize) (fun k hk s2 g2 hplaced2 hsame =>
      wp_trimKeyLog_placed (by
        rw [hover] at hk
        exact PlacedOn.listed hplaced (Cluster.of_mem_overBatch hk)) (by
        rw [hplaced.shardsOf, hplaced.config, Cluster.countHealth_congr hplaced.shards]
        have h1 := hle k
        have h2 := hr' k
        have h3 := Cluster.countHealth_le_length s.cluster (s.cluster.shardsOf k) [.healthy]
        omega) hplaced2 hsame)
  rw [wp_bind, wp_look, wp_bind]
  refine wp_mono hphase2 fun r2 s2 t2 h2 => ?_
  obtain ⟨trimmed, g2, rfl, hplaced2, -, htrimmed⟩ := h2
  rw [wp_pure]
  refine ⟨⟨copied, trimmed⟩, rfl, fun hok => ?_⟩
  obtain ⟨hlog1, hg⟩ := hcopied hok.1
  obtain ⟨hlog2, -⟩ := htrimmed hok.2
  rw [hunder] at hg
  refine ⟨?_, ?_⟩
  · show copied = _
    rw [hlog1, ← hunder, List.map_map]
    rfl
  · show trimmed = _
    have hg' : g = s.cluster.afterCopies rounds batchSize := hg
    rw [hlog2, ← hg', ← hover, List.map_map]
    refine List.map_congr_left fun k _ => ?_
    rw [Function.comp_apply, Cluster.trims_congr hplaced.config hplaced.shards, hplaced.shardsOf]

end ObjStr.Sharded
