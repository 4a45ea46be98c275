/-
  ObjStr.Sharded.Bookkeeping — what a shard says of its health: since when it is out, why, and whether its objects are left
  alone (`set_shard_health`, `invalidate_shard`, `attach_shard`, `detach_shard`, `hold_offline`, `release_hold`,
  `set_detach_reason` of `shardedobjstr/src/lib.rs`, and the marking after a failed write).

  The rule (`Consistent`): a shard that is Offline or Detached has the time at which it last left full service, which is
  neither out nor Degraded; a Healthy shard has no time, no reason and is not left alone; a Detached shard has a reason. When
  a shard left is not in its record, and is read from the states that a run went through (`leftAt`).

  The operations run in any number of threads, each one operation after another, and take their steps in any order. A step
  writes one record or none (`HealthWrite`, `Moved`):
  - `consistent_apply_iff`: a write keeps the rule exactly if it `Fits` the record.
  - `bookkeeping_iff`: the rule holds in every state of a run if and only if it holds in the first, and every write of
    the run fits.
  - `offline_without_time`: a Healthy shard is invalidated, its scan fails, and it is set Offline: it has no time.
-/

import ObjStr.Lib.History
import ObjStr.Sharded.Sample
import ObjStr.Sharded.Service

namespace ObjStr.Sharded

open ObjStr.Lib ObjStr.Raw Proc

/-! ## Operations -/

section Operations

variable [Crates]

inductive HealthOp where
  | setShardHealth (id : ShardId) (health : ShardHealth)
  | attachShard (id : ShardId) (force : Bool)
  | detachShard (id : ShardId)
  | holdOffline (id : ShardId) (suppressReplication : Bool) (reason : DetachReason)
  | releaseHold (id : ShardId)
  | setDetachReason (id : ShardId) (reason : DetachReason)
  | invalidateShard (id : ShardId)
  | markWriteFailures (placed failed tried : List ShardId) (location : Key)

def HealthOp.run : HealthOp → ClusterM Unit
  | .setShardHealth id health => Sharded.setShardHealth id health
  | .attachShard id force => do
    let _ ← Sharded.attachShard id force
    pure ()
  | .detachShard id => Sharded.detachShard id
  | .holdOffline id suppressReplication reason => Sharded.holdOffline id suppressReplication reason
  | .releaseHold id => Sharded.releaseHold id
  | .setDetachReason id reason => Sharded.setDetachReason id reason
  | .invalidateShard id => do
    let _ ← Sharded.invalidateShard id
    pure ()
  | .markWriteFailures placed failed tried location => do
    let _ ← Sharded.markWriteFailures placed failed tried location
    pure ()

def healthThreads {ι : Type} (ops : ι → List HealthOp) (s : Sys) : Pool ι Event Sys PUnit :=
  ⟨fun i => (ops i).forM HealthOp.run, s, []⟩

end Operations

/-! ## Writes -/

/-- What is written to the record of a shard while the lock is held. -/
inductive HealthWrite where
  /-- `set_shard_health`. -/
  | setHealth (health : ShardHealth)
  | detach
  | hold (suppressReplication : Bool) (reason : DetachReason)
  | release
  | annotate (reason : DetachReason)
  /-- `invalidate_shard`, before the scan and after it. -/
  | rescanning
  | rescanned
  /-- `attach_shard`, before the scan, and after one that worked or not. -/
  | attaching
  | attached
  | notAttached

def HealthWrite.apply (now : DateTime) (i : ShardInfo) : HealthWrite → ShardInfo
  | .setHealth health => i.setHealth health now
  | .detach => i.detach .offline now
  | .hold suppressReplication reason => { i.detach .detached now with detachReason := some reason, suppressReplication }
  | .release =>
    if i.health = .detached then { i with health := .offline, detachReason := none, suppressReplication := false } else i
  | .annotate reason => { i with detachReason := some reason }
  | .rescanning => { i with health := .degraded }
  | .rescanned => { i with health := .healthy, offlineSince := none }
  | .attaching =>
    { i with
      attached := true
      health := .syncing
      freeSpace := 2 ^ 64 - 1
      offlineSince := none
      suppressReplication := false
      detachReason := none }
  | .attached => { i with health := .healthy }
  | .notAttached => { i with health := .offline, offlineSince := some now }

def Sys.Wrote (x : ShardId) (w : HealthWrite) (s s' : Sys) : Prop :=
  s'.cluster.shards = s.cluster.shards.modify x fun i => w.apply s.now i

def Sys.Moved (s s' : Sys) : Prop := s'.cluster.shards = s.cluster.shards ∨ ∃ x w, s.Wrote x w s'

abbrev Moving {α : Type} (p : ClusterM α) : Prop := Only (fun s _ s' => s.Moved s') p

theorem moving_look {α : Type} (f : Sys → α) : Moving (look f) := only_step fun _ => .inl rfl

theorem moving_call {α : Type} (r : StoreRef) (kind : Call) (key : Key) (f : Store → Except StoreError α × Store) :
    Moving (r.call kind key f) := only_call fun _ => only_step fun _ => .inl rfl

theorem moving_changeShard (x : ShardId) (w : HealthWrite) (f : DateTime → ShardInfo → ShardInfo)
    (hf : ∀ now i, f now i = w.apply now i) : Moving (changeShard x f) := by
  refine only_step fun s => .inr ⟨x, w, ?_⟩
  show s.cluster.shards.modify x (f s.now) = _
  rw [funext (hf s.now)]

theorem moving_setShardHealth (x : ShardId) (h : ShardHealth) : Moving (setShardHealth x h) :=
  only_step fun _ => .inr ⟨x, .setHealth h, rfl⟩

theorem moving_scanShard (refs : Option RawRefRegistry) (x : ShardId) (store : StoreRef) : Moving (scanShard refs x store) := by
  unfold scanShard
  cases refs.bind (·.get x) with
  | none => exact only_bind (moving_call _ _ _ _) fun _ => only_pure _
  | some raw => exact moving_look _

theorem moving_rebuildCatalogForShard (x : ShardId) : Moving (rebuildCatalogForShard x) := by
  refine only_bind (moving_look _) fun store => ?_
  cases store with
  | none => exact only_pure _
  | some store =>
    refine only_bind (only_step fun _ => .inl rfl) fun _ => only_bind (moving_look _) fun refs =>
      only_bind (moving_scanShard _ _ _) fun r => ?_
    cases r with
    | error e => exact only_pure _
    | ok items => exact only_bind (only_forM fun _ => only_step fun _ => .inl rfl) fun _ => only_pure _

theorem moving_invalidateShard (x : ShardId) : Moving (invalidateShard x) := by
  refine only_bind (moving_look _) fun known => ?_
  split
  · exact only_pure _
  · refine only_bind (moving_changeShard x .rescanning _ fun _ _ => rfl) fun _ => only_bind (moving_look _) fun _ =>
      only_bind (only_step fun _ => .inl rfl) fun _ => only_bind (moving_rebuildCatalogForShard x) fun scanned =>
      only_bind (moving_look _) fun _ => ?_
    split
    · exact only_bind (moving_changeShard x .rescanned _ fun _ _ => rfl) fun _ => only_pure _
    · exact only_pure _

theorem moving_attachShard (x : ShardId) (force : Bool) : Moving (attachShard x force) := by
  have hfinish : ∀ result : Except Error Nat, Moving (do
      changeShard x fun now i =>
        if result.toOption.isSome then { i with health := .healthy } else { i with health := .offline, offlineSince := some now }
      pure result) := fun result => by
    refine only_bind ?_ fun _ => only_pure _
    by_cases hok : result.toOption.isSome
    · exact moving_changeShard x .attached _ fun _ _ => if_pos hok
    · exact moving_changeShard x .notAttached _ fun _ _ => if_neg hok
  refine only_bind (only_step fun _ => .inr ⟨x, .attaching, rfl⟩) fun known => ?_
  split
  · exact only_pure _
  · split
    · exact only_bind (moving_rebuildCatalogForShard x) hfinish
    · refine only_bind (moving_invalidateShard x) fun report => ?_
      exact hfinish _

section Operations

variable [Crates]

theorem moving_markWriteFailures (placed failed tried : List ShardId) (location : Key) :
    Moving (markWriteFailures placed failed tried location) := by
  unfold markWriteFailures
  split
  · exact only_bind (only_forM fun x => moving_setShardHealth x _) fun _ => only_bind (moving_look _) fun _ => only_pure _
  · split
    · refine only_bind (only_forM fun x => only_bind (moving_look _) fun h => ?_) fun _ => only_pure _
      split
      · exact moving_setShardHealth x _
      · exact only_pure _
    · exact only_pure _

/-- Every step of every operation writes one record or none. -/
theorem moving_run (op : HealthOp) : Moving op.run := by
  cases op with
  | setShardHealth id health => exact moving_setShardHealth id health
  | attachShard id force => exact only_bind (moving_attachShard id force) fun _ => only_pure _
  | detachShard id => exact moving_changeShard id .detach _ fun _ _ => rfl
  | holdOffline id suppress reason => exact moving_changeShard id (.hold suppress reason) _ fun _ _ => rfl
  | releaseHold id => exact moving_changeShard id .release _ fun _ _ => rfl
  | setDetachReason id reason => exact moving_changeShard id (.annotate reason) _ fun _ _ => rfl
  | invalidateShard id => exact only_bind (moving_invalidateShard id) fun _ => only_pure _
  | markWriteFailures placed failed tried location =>
    exact only_bind (moving_markWriteFailures placed failed tried location) fun _ => only_pure _

end Operations

/-! ## The rule -/

/-- In service, and not Degraded. -/
def ShardHealth.InFull (h : ShardHealth) : Prop := h.isUnavailable = false ∧ h ≠ .degraded

instance (h : ShardHealth) : Decidable h.InFull := inferInstanceAs (Decidable (_ ∧ _))

/-- When a record leaves full service: now, or when it did before. -/
def ShardInfo.leaves (i i' : ShardInfo) (now : DateTime) (before : Option DateTime) : Option DateTime :=
  if i.health.InFull ∧ ¬ i'.health.InFull then some now else before

/-- When the shard last left full service; before the first state of the run, the record is taken at its word. -/
def leftAt (x : ShardId) : List Sys → Option DateTime
  | [] => none
  | [s] => s.cluster.shards[x]?.bind (·.offlineSince)
  | s' :: s :: h =>
    match s.cluster.shards[x]?, s'.cluster.shards[x]? with
    | some i, some i' => i.leaves i' s.now (leftAt x (s :: h))
    | _, _ => leftAt x (s :: h)

/-- The time in the record is the one at which the shard left. -/
def ShardInfo.Dated (i : ShardInfo) (left : Option DateTime) : Prop := i.offlineSince = left ∧ left.isSome

structure ShardInfo.Consistent (i : ShardInfo) (left : Option DateTime) : Prop where
  dated : i.health.isUnavailable → i.Dated left
  healthy : i.health = .healthy → i.offlineSince = none ∧ i.suppressReplication = false ∧ i.detachReason = none
  reason : i.health = .detached → i.detachReason.isSome

def Bookkept (h : List Sys) : Prop := ∀ s ∈ h.head?, ∀ x (i : ShardInfo), s.cluster.shards[x]? = some i → i.Consistent (leftAt x h)

/-- The writes that keep the rule, by the record and by when the shard left:
    - one that is Degraded goes out only if it is dated, and by `detach_shard` and `hold_offline` only at the time it left;
    - to be set Detached it has a reason, and to get one it is not Healthy;
    - the scan of `invalidate_shard` makes no record Healthy that has a reason or is left alone, nor does that of
      `attach_shard`, or one with a time; a scan that fails puts out what is in full service, or left just now. -/
def HealthWrite.Fits (now : DateTime) (i : ShardInfo) (left : Option DateTime) : HealthWrite → Prop
  | .setHealth .offline => i.health = .degraded → i.Dated left
  | .setHealth .detached => (i.health = .degraded → i.Dated left) ∧ i.detachReason.isSome
  | .setHealth _ | .release | .rescanning | .attaching => True
  | .detach | .hold _ _ => i.health = .degraded → left = some now
  | .annotate _ => i.health ≠ .healthy
  | .rescanned => i.suppressReplication = false ∧ i.detachReason = none
  | .attached => i.offlineSince = none ∧ i.suppressReplication = false ∧ i.detachReason = none
  | .notAttached => ¬ i.health.InFull → left = some now

section Writes

variable {i i' : ShardInfo} {left : Option DateTime} {now : DateTime}

theorem consistent_healthy (h : i.health = .healthy) :
    i.Consistent left ↔ i.offlineSince = none ∧ i.suppressReplication = false ∧ i.detachReason = none := by
  constructor
  · intro hi
    exact hi.healthy h
  · intro hi
    exact ⟨fun hout => by simp [h, ShardHealth.isUnavailable] at hout, fun _ => hi, fun hd => by simp [h] at hd⟩

theorem consistent_offline (h : i.health = .offline) : i.Consistent left ↔ i.Dated left := by
  constructor
  · intro hi
    exact hi.dated (by simp [h, ShardHealth.isUnavailable])
  · intro hi
    exact ⟨fun _ => hi, fun hh => by simp [h] at hh, fun hd => by simp [h] at hd⟩

theorem consistent_detached (h : i.health = .detached) : i.Consistent left ↔ i.Dated left ∧ i.detachReason.isSome := by
  constructor
  · intro hi
    exact ⟨hi.dated (by simp [h, ShardHealth.isUnavailable]), hi.reason h⟩
  · intro hi
    exact ⟨fun _ => hi.1, fun hh => by simp [h] at hh, fun _ => hi.2⟩

theorem consistent_between (h : i.health = .degraded ∨ i.health = .syncing) : i.Consistent left := by
  rcases h with h | h <;>
    exact ⟨fun hout => by simp [h, ShardHealth.isUnavailable] at hout, fun hh => by simp [h] at hh, fun hd => by simp [h] at hd⟩

/-- In full service, Degraded, or out. -/
theorem ShardHealth.cases_full (h : ShardHealth) : h.InFull ∨ h = .degraded ∨ h.isUnavailable := by
  cases h <;> decide

theorem not_inFull_of_unavailable {h : ShardHealth} (hout : h.isUnavailable) : ¬ h.InFull := by
  intro hfull
  rw [hfull.1] at hout
  cases hout

theorem leaves_of_inFull (h : i.health.InFull) (h' : ¬ i'.health.InFull) : i.leaves i' now left = some now := if_pos ⟨h, h'⟩

theorem leaves_of_not_inFull (h : ¬ i.health.InFull) : i.leaves i' now left = left := if_neg fun hboth => h hboth.1

/-- A record that goes out with a new time unless it is out already. -/
theorem dated_stamped_iff (hi : i.Consistent left) (hout : i'.health.isUnavailable)
    (hsince : i'.offlineSince = if i.health.isUnavailable then i.offlineSince else some now) :
    i'.Dated (i.leaves i' now left) ↔ (i.health = .degraded → left = some now) := by
  unfold ShardInfo.Dated
  rcases i.health.cases_full with hfull | hdeg | hun
  · rw [leaves_of_inFull hfull (not_inFull_of_unavailable hout), hsince, if_neg (by simp [hfull.1])]
    exact iff_of_true ⟨rfl, rfl⟩ fun h => absurd h hfull.2
  · rw [leaves_of_not_inFull (by simp [hdeg, ShardHealth.InFull]), hsince, if_neg (by simp [hdeg, ShardHealth.isUnavailable])]
    constructor
    · intro h _
      exact h.1.symm
    · intro h
      rw [h hdeg]
      exact ⟨rfl, rfl⟩
  · rw [leaves_of_not_inFull (not_inFull_of_unavailable hun), hsince, if_pos hun]
    refine iff_of_true (hi.dated hun) fun h => ?_
    rw [h] at hun
    cases hun

/-- A record that goes out with a new time only from full service. -/
theorem dated_kept_iff (hi : i.Consistent left) (hout : i'.health.isUnavailable)
    (hsince : i'.offlineSince = if i.health.InFull then some now else i.offlineSince) :
    i'.Dated (i.leaves i' now left) ↔ (i.health = .degraded → i.Dated left) := by
  unfold ShardInfo.Dated
  rcases i.health.cases_full with hfull | hdeg | hun
  · rw [leaves_of_inFull hfull (not_inFull_of_unavailable hout), hsince, if_pos hfull]
    exact iff_of_true ⟨rfl, rfl⟩ fun h => absurd h hfull.2
  · have hnot : ¬ i.health.InFull := by simp [hdeg, ShardHealth.InFull]
    rw [leaves_of_not_inFull hnot, hsince, if_neg hnot]
    exact ⟨fun h _ => h, fun h => h hdeg⟩
  · have hnot : ¬ i.health.InFull := not_inFull_of_unavailable hun
    rw [leaves_of_not_inFull hnot, hsince, if_neg hnot]
    exact iff_of_true (hi.dated hun) fun _ => hi.dated hun

theorem setHealth_out (h : ShardHealth) (hout : h.isUnavailable) :
    (i.setHealth h now).health = h ∧ (i.setHealth h now).detachReason = i.detachReason ∧
      (i.setHealth h now).offlineSince = if i.health.InFull then some now else i.offlineSince := by
  unfold ShardInfo.setHealth
  rw [hout, Bool.true_or, if_pos rfl]
  by_cases hfull : i.health.InFull
  · simp [hfull, hfull.1, hfull.2]
  · have hnot : (!i.health.isUnavailable && i.health != .degraded) = false := by
      by_contra hne
      rw [Bool.not_eq_false, Bool.and_eq_true, Bool.not_eq_true', bne_iff_ne] at hne
      exact hfull hne
    simp [hfull, hnot]

/-- A write keeps the rule exactly if it fits the record. -/
theorem consistent_apply_iff (hi : i.Consistent left) (w : HealthWrite) :
    (w.apply now i).Consistent (i.leaves (w.apply now i) now left) ↔ w.Fits now i left := by
  cases w with
  | setHealth h =>
    cases h with
    | healthy => exact iff_of_true ((consistent_healthy rfl).mpr ⟨rfl, rfl, rfl⟩) trivial
    | degraded =>
      have hh : (i.setHealth .degraded now).health = .degraded := by
        unfold ShardInfo.setHealth
        split <;> split <;> rfl
      exact iff_of_true (consistent_between (.inl hh)) trivial
    | syncing => exact iff_of_true (consistent_between (.inr rfl)) trivial
    | offline =>
      obtain ⟨hh, -, hsince⟩ := @setHealth_out i now .offline rfl
      show (i.setHealth .offline now).Consistent _ ↔ _
      rw [consistent_offline hh]
      exact dated_kept_iff hi (by rw [hh]; rfl) hsince
    | detached =>
      obtain ⟨hh, hreason, hsince⟩ := @setHealth_out i now .detached rfl
      show (i.setHealth .detached now).Consistent _ ↔ _
      rw [consistent_detached hh, hreason]
      exact and_congr_left' (dated_kept_iff hi (by rw [hh]; rfl) hsince)
  | detach => exact (consistent_offline rfl).trans (dated_stamped_iff hi rfl rfl)
  | hold suppress reason =>
    refine (consistent_detached rfl).trans ?_
    rw [and_iff_left (by rfl)]
    exact dated_stamped_iff hi rfl rfl
  | release =>
    refine iff_of_true ?_ trivial
    by_cases hd : i.health = .detached
    · have hnot : ¬ i.health.InFull := by simp [hd, ShardHealth.InFull, ShardHealth.isUnavailable]
      rw [leaves_of_not_inFull hnot]
      unfold HealthWrite.apply
      rw [if_pos hd]
      exact (consistent_offline rfl).mpr ((consistent_detached hd).mp hi).1
    · unfold HealthWrite.apply
      rw [if_neg hd]
      rwa [ShardInfo.leaves, if_neg fun hboth => hboth.2 hboth.1]
  | annotate reason =>
    have hsame : i.leaves (HealthWrite.apply now i (.annotate reason)) now left = left := if_neg fun hboth => hboth.2 hboth.1
    rw [hsame]
    constructor
    · intro h hh
      cases (h.healthy hh).2.2
    · intro hne
      exact ⟨hi.dated, fun hh => absurd hh hne, fun _ => rfl⟩
  | rescanning => exact iff_of_true (consistent_between (.inl rfl)) trivial
  | rescanned => exact (consistent_healthy rfl).trans (and_iff_right rfl)
  | attaching => exact iff_of_true (consistent_between (.inr rfl)) trivial
  | attached => exact consistent_healthy rfl
  | notAttached =>
    refine (consistent_offline rfl).trans ?_
    unfold ShardInfo.Dated
    by_cases hfull : i.health.InFull
    · rw [leaves_of_inFull hfull (not_inFull_of_unavailable rfl)]
      exact iff_of_true ⟨rfl, rfl⟩ fun h => absurd hfull h
    · rw [leaves_of_not_inFull hfull]
      constructor
      · intro h _
        exact h.1.symm
      · intro h
        rw [h hfull]
        exact ⟨rfl, rfl⟩

end Writes

/-! ## Runs -/

variable {s s' : Sys} {h : List Sys} {x : ShardId}

def StepFits (s' s : Sys) (h : List Sys) : Prop :=
  ∀ x w, s.Wrote x w s' → ∀ i, s.cluster.shards[x]? = some i → w.Fits s.now i (leftAt x (s :: h))

theorem leftAt_of_same (hx : s'.cluster.shards[x]? = s.cluster.shards[x]?) : leftAt x (s' :: s :: h) = leftAt x (s :: h) := by
  show (match s.cluster.shards[x]?, s'.cluster.shards[x]? with
    | some i, some i' => i.leaves i' s.now (leftAt x (s :: h))
    | _, _ => leftAt x (s :: h)) = _
  rw [hx]
  cases s.cluster.shards[x]? with
  | none => rfl
  | some i => exact if_neg fun hboth => hboth.2 hboth.1

theorem Sys.Wrote.same {w : HealthWrite} {y : ShardId} (hw : s.Wrote x w s') (hne : y ≠ x) :
    s'.cluster.shards[y]? = s.cluster.shards[y]? := by
  rw [hw, List.getElem?_modify]
  cases s.cluster.shards[y]? with
  | none => rfl
  | some i => simp [Ne.symm hne]

/-- What a write leaves in the record, and when the shard left then. -/
theorem Sys.Wrote.at {w : HealthWrite} {i : ShardInfo} (hw : s.Wrote x w s') (hi : s.cluster.shards[x]? = some i) :
    s'.cluster.shards[x]? = some (w.apply s.now i) ∧
      leftAt x (s' :: s :: h) = i.leaves (w.apply s.now i) s.now (leftAt x (s :: h)) := by
  have hi' : s'.cluster.shards[x]? = some (w.apply s.now i) := by
    rw [hw, List.getElem?_modify, hi]
    simp
  refine ⟨hi', ?_⟩
  show (match s.cluster.shards[x]?, s'.cluster.shards[x]? with
    | some i, some i' => i.leaves i' s.now (leftAt x (s :: h))
    | _, _ => leftAt x (s :: h)) = _
  rw [hi, hi']

theorem bookkept_cons_iff (hmoved : s.Moved s') (hs : Bookkept (s :: h)) : Bookkept (s' :: s :: h) ↔ StepFits s' s h := by
  have hs : ∀ y (i : ShardInfo), s.cluster.shards[y]? = some i → i.Consistent (leftAt y (s :: h)) := hs s rfl
  -- a record that stays as it was is as consistent as it was
  have hsame : ∀ y, s'.cluster.shards[y]? = s.cluster.shards[y]? → ∀ i : ShardInfo, s'.cluster.shards[y]? = some i →
      i.Consistent (leftAt y (s' :: s :: h)) := by
    intro y hy i hi
    rw [leftAt_of_same hy]
    exact hs y i (hy ▸ hi)
  constructor
  · intro hbook x w hw i hi
    obtain ⟨hi', hleft⟩ := hw.at (h := h) hi
    rw [← consistent_apply_iff (hs x i hi) w, ← hleft]
    exact hbook s' rfl x _ hi'
  · intro hfits t ht y i' hi'
    obtain rfl : s' = t := Option.some.inj ht
    rcases hmoved with hmoved | ⟨x, w, hw⟩
    · exact hsame y (by rw [hmoved]) i' hi'
    by_cases hy : y = x
    · subst hy
      cases hi : s.cluster.shards[y]? with
      | none =>
        rw [hw, List.getElem?_modify, hi] at hi'
        cases hi'
      | some i =>
        obtain ⟨hwritten, hleft⟩ := hw.at (h := h) hi
        rw [hwritten] at hi'
        rw [← Option.some.inj hi', hleft]
        exact (consistent_apply_iff (hs y i hi) w).mpr (hfits y w hw i hi)
    · exact hsame y (hw.same hy) i' hi'

/-- A cluster as it is made, some of its shards without a store. -/
theorem bookkept_new (hnew : ∀ i ∈ s.cluster.shards, i.health = .healthy ∧ i.offlineSince = none ∧
    i.suppressReplication = false ∧ i.detachReason = none ∨ i.health = .offline ∧ i.offlineSince.isSome) : Bookkept [s] := by
  intro t ht x i hi
  obtain rfl : s = t := Option.some.inj ht
  rcases hnew i (List.mem_of_getElem? hi) with ⟨hhealth, hrest⟩ | ⟨hhealth, hsince⟩
  · exact (consistent_healthy hhealth).mpr hrest
  · have hleft : leftAt x [s] = i.offlineSince := by
      show s.cluster.shards[x]?.bind (·.offlineSince) = _
      rw [hi]
      rfl
    rw [hleft]
    exact (consistent_offline hhealth).mpr ⟨rfl, hsince⟩

section Runs

variable [Crates]

/-- The rule holds in every state of a run of the threads if and only if it holds in the first, and every write fits. -/
theorem bookkeeping_iff {ι : Type} [DecidableEq ι] (ops : ι → List HealthOp) (s : Sys) {h : List Sys}
    {q : Pool ι Event Sys PUnit} (hrun : Pool.Passes (healthThreads ops s) h q) :
    Always Bookkept h ↔ Bookkept [s] ∧ EachStep StepFits h := by
  have hchain : h.IsChain fun s' s => s.Moved s' :=
    hrun.isChain (fun _ => .inl rfl) fun i => only_forM fun op => moving_run op
  exact always_iff hchain hrun.ends.2 fun _ _ _ hmoved hs => bookkept_cons_iff hmoved hs

end Runs

/-! ## A shard that goes out without a time -/

namespace Sample

open ObjStr.Raw.Sample

def unlisted : Sys := sys 1 (config 1 1) fun _ => Store.failing fresh .list [broken]

def invalidateThenOffline : Unit → List HealthOp := fun _ => [.invalidateShard 0, .setShardHealth 0 .offline]

def unlistedStates : List Sys := Pool.trail (List.replicate 10 ()) (healthThreads invalidateThenOffline unlisted) [unlisted]

theorem passes_unlisted : ∃ q, Pool.Passes (healthThreads invalidateThenOffline unlisted) unlistedStates q :=
  ⟨_, Pool.passes_trail _ .start⟩

theorem bookkept_unlisted : Bookkept [unlisted] := bookkept_new fun i hi => by
  have hhealthy : i = healthyShard := List.eq_of_mem_replicate hi
  subst hhealthy
  exact .inl ⟨rfl, rfl, rfl, rfl⟩

/-- In the end it is Offline and has no time. -/
theorem not_bookkept_unlisted : ¬ Bookkept unlistedStates := by
  have hlast : unlistedStates.head?.bind (fun s => s.cluster.shards[0]?) = some { healthyShard with health := .offline } := by
    decide
  intro hbook
  obtain ⟨s, hs, hi⟩ := Option.bind_eq_some_iff.mp hlast
  have hdated := (consistent_offline rfl).mp (hbook s hs 0 _ hi)
  have hnone : leftAt 0 unlistedStates = none := hdated.1.symm
  have hsome := hdated.2
  rw [hnone] at hsome
  cases hsome

/-- The invalidation leaves it Degraded without a time, and so the write that sets it Offline does not fit. -/
theorem unlisted_does_not_fit : ¬ EachStep StepFits unlistedStates := by
  obtain ⟨q, hrun⟩ := passes_unlisted
  intro hfits
  have halways := (bookkeeping_iff invalidateThenOffline unlisted hrun).mpr ⟨bookkept_unlisted, hfits⟩
  exact not_bookkept_unlisted (halways unlistedStates (List.suffix_refl _) (by decide))

/-- So the rule does not hold in every state that operations lead to, with one thread even. -/
theorem offline_without_time : ¬ ∀ (ops : Unit → List HealthOp) (s : Sys) (h : List Sys) (q : Pool Unit Event Sys PUnit),
    Bookkept [s] → Pool.Passes (healthThreads ops s) h q → Bookkept h := by
  intro hall
  obtain ⟨q, hrun⟩ := passes_unlisted
  exact not_bookkept_unlisted (hall _ _ _ q bookkept_unlisted hrun)

end Sample

end ObjStr.Sharded
