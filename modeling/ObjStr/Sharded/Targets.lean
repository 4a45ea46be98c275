/-
  ObjStr.Sharded.Targets — which shards a new object is placed on, as their health changes
  (`select_targets`).

  The targets are chosen in two ways: all writable shards, in the order of their ids, when there are not
  more than the replication factor; else the first ones clockwise from the key's home. As sets both are the
  first that are writable clockwise from home (`mem_selectTargets`), so what is stable about the walk is
  stable across the switch as well. The order is not: it changes with the switch.
-/

import ObjStr.Lib.Pick
import ObjStr.Sharded.Fanout

namespace ObjStr.Sharded

open ObjStr.Lib ObjStr.Raw

variable [Crates] {c c' : Cluster} {path : Key} {x y : ShardId}

/-! ## One walk -/

omit [Crates] in
/-- The writable shards clockwise from anywhere are as many as there are. -/
theorem Cluster.perm_writable (c : Cluster) (home : Nat) :
    ((clockwise c.shards.length home).filter fun id => c.writable id).Perm
      ((List.range c.shards.length).filter fun id => c.writable id) := by
  apply (List.perm_ext_iff_of_nodup ((nodup_clockwise _ _).filter _) (List.nodup_range.filter _)).mpr
  intro id
  simp only [List.mem_filter, mem_clockwise, List.mem_range]

/-- The targets are the first writable shards clockwise from the key's home, in one order or the other. -/
theorem Cluster.perm_selectTargets (c : Cluster) (path : Key) :
    (c.selectTargets path).Perm
      (pick (fun id => c.writable id) c.config.replicationFactor (clockwise c.shards.length (c.home path))) := by
  have hp := c.perm_writable (c.home path)
  unfold selectTargets
  dsimp only
  by_cases hle : ((List.range c.shards.length).filter fun id => c.writable id).length ≤ c.config.replicationFactor
  · rw [if_pos hle, pick_of_le (by rw [hp.length_eq]; exact hle)]
    exact hp.symm
  · rw [if_neg hle]
    exact List.Perm.refl _

theorem Cluster.mem_selectTargets : x ∈ c.selectTargets path ↔
    x ∈ pick (fun id => c.writable id) c.config.replicationFactor (clockwise c.shards.length (c.home path)) :=
  (c.perm_selectTargets path).mem_iff

/-- As many shards as the replication factor says, or all writable ones. -/
theorem Cluster.length_selectTargets (c : Cluster) (path : Key) : (c.selectTargets path).length =
    min c.config.replicationFactor ((List.range c.shards.length).filter fun id => c.writable id).length := by
  rw [(c.perm_selectTargets path).length_eq, length_pick, (c.perm_writable _).length_eq]

omit [Crates] in
theorem Cluster.writable_iff : c.writable x = true ↔
    ∃ h, c.healthOf x = some h ∧ h ≠ .offline ∧ h ≠ .detached ∧ h ≠ .syncing := by
  unfold writable
  cases hx : c.healthOf x with
  | none => simp
  | some h => cases h <;> simp [ShardHealth.isUnavailable]

/-! ## One shard fewer -/

/-- Shard `x` is no longer writable, and the cluster is otherwise as it was to a writer. -/
structure Cluster.Loses (c c' : Cluster) (x : ShardId) : Prop where
  config : c'.config = c.config
  shards : c'.shards.length = c.shards.length
  writable : Lib.Loses (fun id => c.writable id) (fun id => c'.writable id) x

theorem Cluster.Loses.mem (h : c.Loses c' x) : y ∈ c'.selectTargets path ↔
    y ∈ pick (fun id => c'.writable id) c.config.replicationFactor (clockwise c.shards.length (c.home path)) := by
  have hhome : c'.home path = c.home path := by rw [Cluster.home, Cluster.home, h.shards]
  rw [Cluster.mem_selectTargets, h.config, h.shards, hhome]

omit [Crates] in
theorem Cluster.Loses.on (h : c.Loses c' x) (home : Nat) : x ∈ clockwise c.shards.length home :=
  mem_clockwise.mpr (Cluster.mem_writable_lt h.writable.was)

/-- The targets are different shards, each neither offline, detached nor syncing, as many as the
    replication factor says or else all of these. When one writable shard no longer is, the other targets
    stay and at most one is new; when it was no target, the targets are the same. -/
theorem targets_are_sound_and_stable (c : Cluster) (path : Key) :
    (c.selectTargets path).Nodup ∧
    (∀ x ∈ c.selectTargets path, ∃ h, c.healthOf x = some h ∧ h ≠ .offline ∧ h ≠ .detached ∧ h ≠ .syncing) ∧
    (c.selectTargets path).length =
      min c.config.replicationFactor ((List.range c.shards.length).filter fun id => c.writable id).length ∧
    ∀ c' x, c.Loses c' x →
      (∀ y ∈ c.selectTargets path, y ≠ x → y ∈ c'.selectTargets path) ∧
      (∀ y z, y ∈ c'.selectTargets path → y ∉ c.selectTargets path →
        z ∈ c'.selectTargets path → z ∉ c.selectTargets path → y = z) ∧
      (x ∉ c.selectTargets path → ∀ y, y ∈ c'.selectTargets path ↔ y ∈ c.selectTargets path) := by
  refine ⟨c.nodup_selectTargets path, ?_, c.length_selectTargets path, ?_⟩
  · intro x hx
    exact Cluster.writable_iff.mp (Cluster.writable_of_mem_selectTargets hx)
  · intro c' x h
    have hon := h.on (c.home path)
    have hnd := nodup_clockwise c.shards.length (c.home path)
    refine ⟨?_, ?_, ?_⟩
    · intro y hy hne
      rw [Cluster.mem_selectTargets] at hy
      rw [h.mem]
      exact mem_pick_of_lose h.writable hnd hon hy hne
    · intro y z hy hy' hz hz'
      rw [h.mem] at hy hz
      rw [Cluster.mem_selectTargets] at hy' hz'
      exact eq_of_new h.writable hnd hon hy hy' hz hz'
    · intro hx y
      rw [Cluster.mem_selectTargets] at hx
      rw [h.mem, Cluster.mem_selectTargets, pick_lose h.writable hnd hon hx]

end ObjStr.Sharded
