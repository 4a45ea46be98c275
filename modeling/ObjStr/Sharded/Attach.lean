/-
  ObjStr.Sharded.Attach — what `attach_shard` publishes (`shardedobjstr/src/lib.rs`).

  The shard is Syncing from the moment its store is in place, so that no write is placed on it before its objects are
  listed. What comes between is `rebuild_catalog_for_shard`, or `invalidate_shard` around it, which has a health of its own
  for the shard: Degraded while it scans, and a scan that fails is a report and not an error.
  - `attach_is_guarded_iff`: the shard is published only after a scan that completed, and no write is placed on it before, if
    and only if the attach is forced.
  - `a_failed_scan_is_published`: one shard, whose listing fails.
-/

import ObjStr.Sharded.Holds

namespace ObjStr.Sharded

open ObjStr.Lib ObjStr.Raw Proc

/-! ## The parts of an attach -/

/-- What there is when the scan returns. -/
structure Scan where
  oldKeys : List Key
  entriesPurged : Nat
  result : Except Error Nat

def swapStore (id : ShardId) : ClusterM Bool :=
  Proc.step (fun s => (decide (id < s.cluster.shards.length),
    { s with cluster := s.cluster.onShard id fun i =>
      { i with
        attached := true
        health := .syncing
        freeSpace := 2 ^ 64 - 1
        offlineSince := none
        suppressReplication := false
        detachReason := none } })) fun _ => .other

def attachScan (id : ShardId) (force : Bool) : ClusterM (Except Error Scan) :=
  if force then do
    let scanned ← rebuildCatalogForShard id
    pure (.ok ⟨[], 0, scanned⟩)
  else do
    let known ← look fun s => decide (id < s.cluster.shards.length)
    if !known then pure (.error .noShards)
    else do
      changeShard id fun _ i => { i with health := .degraded }
      let oldKeys ← look fun s => (s.cluster.catalog.entriesForShard id).map (·.1)
      let purged ← catalogRemoveAllForShard id
      let scanned ← rebuildCatalogForShard id
      pure (.ok ⟨oldKeys, purged, scanned⟩)

/-- The end of `invalidate_shard`. -/
def finishInvalidate (id : ShardId) (scan : Scan) : ClusterM (Except Error InvalidateReport) := do
  let newKeys ← look fun s => (s.cluster.catalog.entriesForShard id).map (·.1)
  let report : InvalidateReport :=
    ⟨scan.entriesPurged, scan.result.toOption.getD 0, scan.oldKeys.filter fun k => !newKeys.contains k,
      scan.result.toOption.isSome⟩
  if scan.result.toOption.isSome then do
    changeShard id fun _ i => { i with health := .healthy, offlineSince := none }
    pure (.ok report)
  else pure (.ok report)

def attachResult (id : ShardId) (force : Bool) : Except Error Scan → ClusterM (Except Error Nat)
  | .error e => pure (.error e)
  | .ok scan =>
    if force then pure scan.result
    else do
      let report ← finishInvalidate id scan
      pure (report.map (·.entriesRestored))

def finishAttach (id : ShardId) (result : Except Error Nat) : ClusterM (Except Error Nat) := do
  changeShard id fun now i =>
    if result.toOption.isSome then { i with health := .healthy } else { i with health := .offline, offlineSince := some now }
  pure result

theorem attachShard_eq (id : ShardId) (force : Bool) :
    attachShard id force = (do
      let known ← swapStore id
      if !known then pure (.error .noShards)
      else do
        let scan ← attachScan id force
        let result ← attachResult id force scan
        finishAttach id result) := by
  unfold attachShard attachScan swapStore
  congr 1
  funext known
  cases known with
  | false => rfl
  | true =>
    simp only [Bool.not_true, Bool.false_eq_true, if_false]
    cases force with
    | true =>
      simp only [if_true, bind_assoc, pure_bind]
      rfl
    | false =>
      simp only [Bool.false_eq_true, if_false, invalidateShard, bind_assoc]
      congr 1
      funext known
      cases known with
      | false =>
        simp only [Bool.not_false, if_true, pure_bind]
        rfl
      | true =>
        simp only [Bool.not_true, Bool.false_eq_true, if_false, bind_assoc, pure_bind, attachResult, finishInvalidate]
        rfl

/-! ## What an attach must keep -/

def Sys.swapped (s : Sys) (id : ShardId) : Sys := ((swapStore id).exec s).2

def ScanCompletes (s : Sys) (id : ShardId) (force : Bool) : Prop :=
  ∃ scan n, ((attachScan id force).exec (s.swapped id)).1 = .ok scan ∧ scan.result = .ok n

/-- What runs next to the attach may do anything but change the health of the shard. -/
def Beside (id : ShardId) (p : ClusterM Unit) : Prop := ∀ h, Keeps (fun s => s.cluster.healthOf id = some h) p fun _ => True

def attachPool (id : ShardId) (force : Bool) (others : Nat → ClusterM Unit) : Nat → ClusterM Unit
  | 0 => do
    let _ ← attachScan id force
    pure ()
  | i + 1 => others i

section Guarded

variable [Crates] {s : Sys} {id : ShardId}

/-- A shard is published only after a scan that completed; one that fails leaves it Offline; and no write is placed on
    it before. -/
structure Guarded (s : Sys) (id : ShardId) (force : Bool) : Prop where
  published : ((attachShard id force).exec s).2.cluster.healthOf id = some .healthy → ScanCompletes s id force
  refused : ¬ ScanCompletes s id force → ((attachShard id force).exec s).2.cluster.healthOf id = some .offline ∧
    ∃ e, ((attachShard id force).exec s).1 = .error e
  unseen : ∀ others, (∀ i, Beside id (others i)) → ∀ q, Pool.Runs ⟨attachPool id force others, s.swapped id, []⟩ q →
    ∀ path, id ∉ q.state.cluster.selectTargets path

omit [Crates] in
theorem healthOf_changeShard (f : DateTime → ShardInfo → ShardInfo) :
    ((changeShard id f).exec s).2.cluster.healthOf id = (s.cluster.shards[id]?).map fun i => (f s.now i).health := by
  show (s.cluster.onShard id (f s.now)).healthOf id = _
  unfold Cluster.healthOf Cluster.onShard
  rw [List.getElem?_modify_eq]
  cases s.cluster.shards[id]? <;> rfl

omit [Crates] in
theorem Sys.health_swapped (hid : id < s.cluster.shards.length) : (s.swapped id).cluster.healthOf id = some .syncing := by
  show (s.cluster.onShard id _).healthOf id = _
  unfold Cluster.healthOf Cluster.onShard
  rw [List.getElem?_modify_eq, List.getElem?_eq_getElem hid]
  rfl

omit [Crates] in
theorem Sys.length_swapped : (s.swapped id).cluster.shards.length = s.cluster.shards.length := by
  show (s.cluster.onShard id _).shards.length = _
  unfold Cluster.onShard
  exact List.length_modify _ _ _

/-- A shard that is Syncing is not written to. -/
theorem not_target_of_syncing {path : Key} (h : s.cluster.healthOf id = some .syncing) : id ∉ s.cluster.selectTargets path := by
  intro hmem
  have hw := Cluster.writable_of_mem_selectTargets hmem
  rw [Cluster.writable, h] at hw
  exact Bool.false_ne_true hw

/-- The only shard that can be written to is written to. -/
theorem target_of_alone {path : Key} (hid : id < s.cluster.shards.length) (h : s.cluster.writable id = true)
    (halone : ∀ x, s.cluster.writable x = true → x = id) : id ∈ s.cluster.selectTargets path := by
  have hnodup : ((List.range s.cluster.shards.length).filter fun x => s.cluster.writable x).Nodup := List.nodup_range.filter _
  have hall : ∀ x ∈ (List.range s.cluster.shards.length).filter (fun x => s.cluster.writable x), x = id :=
    fun x hx => halone x (List.mem_filter.mp hx).2
  have hshort : ((List.range s.cluster.shards.length).filter fun x => s.cluster.writable x).length ≤ 1 := by
    have hsub : List.Subperm _ [id] := hnodup.subperm fun x hx => List.mem_singleton.mpr (hall x hx)
    exact hsub.length_le
  have hrf := Nat.le_trans s.cluster.config.one_le_minWrites s.cluster.config.minWrites_le
  unfold Cluster.selectTargets
  dsimp only
  rw [if_pos (Nat.le_trans hshort hrf)]
  exact List.mem_filter.mpr ⟨List.mem_range.mpr hid, h⟩

/-! ## Forced -/

omit [Crates] in
theorem attachScan_forced : attachScan id true = (do
    let scanned ← rebuildCatalogForShard id
    pure (.ok ⟨[], 0, scanned⟩)) := rfl

/-- The scan does not touch the health of the shard. -/
theorem forced_unseen (hid : id < s.cluster.shards.length) {others : Nat → ClusterM Unit} (ho : ∀ i, Beside id (others i))
    {q : Pool Nat Event Sys Unit} (hruns : Pool.Runs ⟨attachPool id true others, s.swapped id, []⟩ q) (path : Key) :
    id ∉ q.state.cluster.selectTargets path := by
  have hserving : Serving (attachPool id true others 0) := by
    unfold attachPool
    rw [attachScan_forced]
    exact only_bind (only_bind (serving_rebuildCatalogForShard id) fun _ => only_pure _) fun _ => only_pure _
  have hkeeps : ∀ i, Keeps (fun s => s.cluster.healthOf id = some .syncing) (attachPool id true others i) fun _ => True := by
    intro i
    cases i with
    | zero => exact hserving.keeps fun _ _ _ hstep hs => (hstep.health id).trans hs
    | succ i => exact ho i _
  exact not_target_of_syncing (Pool.keeps hruns (Sys.health_swapped hid) hkeeps).1

omit [Crates] in
theorem exec_scanned (p : ClusterM (Except Error Nat)) (s : Sys) :
    ((p >>= fun scanned => pure (.ok ⟨[], 0, scanned⟩)) >>= fun scan => attachResult id true scan >>= finishAttach id).exec s =
      (finishAttach id (p.exec s).1).exec (p.exec s).2 := by
  rw [exec_bind, exec_bind p, exec_pure, exec_bind]
  rfl

omit [Crates] in
/-- A forced attach, alone. -/
theorem exec_forced (hid : id < s.cluster.shards.length) :
    (attachShard id true).exec s = (finishAttach id ((rebuildCatalogForShard id).exec (s.swapped id)).1).exec
      ((rebuildCatalogForShard id).exec (s.swapped id)).2 := by
  have hknown : ((swapStore id).exec s).1 = true := decide_eq_true hid
  rw [attachShard_eq, exec_bind, hknown, ← exec_scanned]
  rfl

omit [Crates] in
theorem length_rebuilt : ((rebuildCatalogForShard id).exec (s.swapped id)).2.cluster.shards.length = s.cluster.shards.length := by
  have hrun := (serving_rebuildCatalogForShard id).run (fun s => inService_of_shards rfl rfl)
    (fun _ _ _ h h' => ⟨h'.config.trans h.config, h'.length.trans h.length, fun x => (h'.health x).trans (h.health x),
      fun x => (h'.refs x).trans (h.refs x)⟩) (s.swapped id)
  exact hrun.length.trans Sys.length_swapped

omit [Crates] in
theorem scanCompletes_forced : ScanCompletes s id true ↔
    ∃ n, ((rebuildCatalogForShard id).exec (s.swapped id)).1 = .ok n := by
  unfold ScanCompletes
  rw [attachScan_forced, exec_bind]
  constructor
  · intro h
    obtain ⟨scan, n, hscan, hresult⟩ := h
    obtain rfl := Except.ok.inj hscan
    exact ⟨n, hresult⟩
  · intro h
    obtain ⟨n, hn⟩ := h
    exact ⟨_, n, rfl, hn⟩

theorem guarded_forced (hid : id < s.cluster.shards.length) : Guarded s id true := by
  have hrun := exec_forced hid
  have hlen : ((rebuildCatalogForShard id).exec (s.swapped id)).2.cluster.shards.length = _ := length_rebuilt
  have hcompletes : ScanCompletes s id true ↔ _ := scanCompletes_forced
  generalize (rebuildCatalogForShard id).exec (s.swapped id) = w at hrun hlen hcompletes
  obtain ⟨r, s1⟩ := w
  have hcompletes : ScanCompletes s id true ↔ r.toOption.isSome = true := by
    rw [hcompletes]
    cases r with
    | ok n => exact iff_of_true ⟨n, rfl⟩ rfl
    | error e => exact iff_of_false (fun h => nomatch h.choose_spec) (fun h => nomatch h)
  obtain ⟨info, hinfo⟩ : ∃ info, s1.cluster.shards[id]? = some info :=
    ⟨_, List.getElem?_eq_getElem (Nat.lt_of_lt_of_eq hid hlen.symm)⟩
  have hhealth : ((attachShard id true).exec s).2.cluster.healthOf id =
      some (if r.toOption.isSome then .healthy else .offline) := by
    rw [hrun]
    unfold finishAttach
    rw [exec_bind, exec_pure]
    dsimp only
    rw [healthOf_changeShard, hinfo]
    cases r <;> rfl
  have hresult : ((attachShard id true).exec s).1 = r := by
    rw [hrun]
    rfl
  refine ⟨fun h => ?_, fun h => ?_, fun others ho q hruns path => forced_unseen hid ho hruns path⟩
  · rw [hcompletes]
    by_contra hnot
    rw [hhealth, if_neg hnot] at h
    exact absurd (Option.some.inj h) (by decide)
  · rw [hcompletes] at h
    refine ⟨by rw [hhealth, if_neg h], ?_⟩
    rw [hresult]
    cases r with
    | ok n => exact absurd rfl h
    | error e => exact ⟨e, rfl⟩

/-! ## Not forced -/

def failOthers (id : ShardId) (n : Nat) : ClusterM Unit :=
  ((List.range n).filter fun x => x != id).forM fun x => setShardHealth x .offline

omit [Crates] in
theorem failOthers_beside (n : Nat) : Beside id (failOthers id n) := by
  intro h
  refine keeps_forM fun x hx => keeps_step fun s hs => ⟨?_, trivial⟩
  have hne : id ≠ x := fun heq => absurd heq.symm (bne_iff_ne.mp (List.mem_filter.mp hx).2)
  show (s.cluster.setShardHealth x .offline s.now).healthOf id = some h
  rw [Cluster.healthOf_setShardHealth, hs, Option.map_some, if_neg hne]

/-- When the others are out, a Degraded shard is the one place left for every key. -/
theorem target_when_others_fail (hid : id < s.cluster.shards.length) (hs : s.cluster.healthOf id = some .degraded)
    (path : Key) : id ∈ ((failOthers id s.cluster.shards.length).exec s).2.cluster.selectTargets path := by
  have hmark := wp_markOffline (s := s) ((List.range s.cluster.shards.length).filter fun x => x != id)
  obtain ⟨⟨hmarked, -⟩, hhealth⟩ := hmark
  change Marked s ((failOthers id s.cluster.shards.length).exec s).2 at hmarked
  change ∀ x, ((failOthers id s.cluster.shards.length).exec s).2.cluster.healthOf x = _ at hhealth
  generalize ((failOthers id s.cluster.shards.length).exec s).2 = s' at hmarked hhealth
  have hlen : s'.cluster.shards.length = s.cluster.shards.length := by
    simpa using congrArg List.length hmarked.attached
  have hself : s'.cluster.healthOf id = some .degraded := by
    rw [hhealth, Cluster.healthOf_offline, hs]
    simp
  refine target_of_alone (Nat.lt_of_lt_of_eq hid hlen.symm) (by rw [Cluster.writable, hself]; rfl) fun x hx => ?_
  by_contra hne
  have hlt : x < s'.cluster.shards.length := Cluster.mem_writable_lt hx
  have hmem : (List.filter (fun x => x != id) (List.range s.cluster.shards.length)).contains x = true := by
    simp [hne, hlen ▸ hlt]
  rw [Cluster.writable, hhealth, Cluster.healthOf_offline, hmem] at hx
  cases h : s.cluster.healthOf x with
  | none =>
    rw [h] at hx
    exact Bool.false_ne_true hx
  | some v =>
    rw [h] at hx
    exact Bool.false_ne_true hx

def markDegraded (id : ShardId) : ClusterM Bool := do
  let known ← look fun s => decide (id < s.cluster.shards.length)
  if !known then pure false
  else do
    changeShard id fun _ i => { i with health := .degraded }
    pure true

def degradedScan (id : ShardId) : ClusterM (Except Error Scan) := do
  let oldKeys ← look fun s => (s.cluster.catalog.entriesForShard id).map (·.1)
  let purged ← catalogRemoveAllForShard id
  let scanned ← rebuildCatalogForShard id
  pure (.ok ⟨oldKeys, purged, scanned⟩)

def rescan (id : ShardId) (known : Bool) : ClusterM (Except Error Scan) :=
  if known then degradedScan id else pure (.error .noShards)

omit [Crates] in
theorem attachScan_degraded : attachScan id false = markDegraded id >>= rescan id := by
  unfold attachScan markDegraded
  simp only [Bool.false_eq_true, if_false, bind_assoc]
  congr 1
  funext known
  cases known <;> rfl

omit [Crates] in
theorem health_markDegraded (hid : id < s.cluster.shards.length) :
    ((markDegraded id).exec s).2.cluster.healthOf id = some .degraded ∧
      ((markDegraded id).exec s).2.cluster.shards.length = s.cluster.shards.length := by
  have hrun : (markDegraded id).exec s = (true, ((changeShard id fun _ i => { i with health := .degraded }).exec s).2) := by
    unfold markDegraded
    rw [exec_bind]
    show (if !decide (id < s.cluster.shards.length) then (pure false : ClusterM Bool) else _).exec s = _
    rw [decide_eq_true hid]
    rfl
  rw [hrun]
  constructor
  · rw [healthOf_changeShard, List.getElem?_eq_getElem hid]
    rfl
  · show (s.cluster.onShard id _).shards.length = _
    unfold Cluster.onShard
    exact List.length_modify _ _ _

theorem not_guarded (hid : id < s.cluster.shards.length) : ¬ Guarded s id false := by
  intro hg
  obtain ⟨others, hfirst, hbeside⟩ : ∃ others : Nat → ClusterM Unit,
      others 0 = failOthers id s.cluster.shards.length ∧ ∀ i, Beside id (others i) := by
    refine ⟨fun i => if i = 0 then failOthers id s.cluster.shards.length else pure (), if_pos rfl, fun i => ?_⟩
    dsimp only
    by_cases hi : i = 0
    · rw [if_pos hi]
      exact failOthers_beside _
    · rw [if_neg hi]
      exact fun h => keeps_pure trivial
  have hscan : attachPool id false others 0 = markDegraded id >>= fun known => rescan id known >>= fun _ => pure () := by
    unfold attachPool
    rw [attachScan_degraded, bind_assoc]
  -- the mark, then the writes of another
  obtain ⟨tr, hmark⟩ := Pool.runs_bind (i := 0) (p := ⟨attachPool id false others, s.swapped id, []⟩) hscan
  obtain ⟨hhealth, hlen⟩ := health_markDegraded (show id < (s.swapped id).cluster.shards.length by rw [Sys.length_swapped]; exact hid)
  rw [Sys.length_swapped] at hlen
  dsimp only at hmark
  generalize ((markDegraded id).exec (s.swapped id)) = w at hmark hhealth hlen
  generalize hprocs : Function.update (attachPool id false others) 0 (rescan id w.1 >>= fun _ => pure ()) = procs at hmark
  have hother : procs 1 = failOthers id s.cluster.shards.length >>= pure := by
    rw [← hprocs, bind_pure, ← hfirst]
    rfl
  obtain ⟨tr', hfail⟩ := Pool.runs_bind (p := ⟨procs, w.2, tr⟩) (i := 1) hother
  have htarget := target_when_others_fail (s := w.2) (by rw [hlen]; exact hid) hhealth ""
  rw [hlen] at htarget
  exact hg.unseen _ hbeside _ (hmark.trans hfail) "" htarget

/-- An attach publishes only what has been scanned exactly if it is forced. -/
theorem attach_is_guarded_iff (s : Sys) (id : ShardId) (force : Bool) (hid : id < s.cluster.shards.length) :
    Guarded s id force ↔ force = true := by
  cases force with
  | true => exact ⟨fun _ => rfl, fun _ => guarded_forced hid⟩
  | false => exact ⟨fun h => absurd h (not_guarded hid), fun h => nomatch h⟩

end Guarded

/-! ## One shard -/

section Sample

open Sample Raw.Sample

def Sample.listing (failure : Option StoreError) : Sys := sys 1 (config 1 1) fun _ => Store.failing fresh .list [failure]

/-- The shard is Offline after the failed listing. -/
theorem a_forced_attach_is_guarded : 0 < (listing broken).cluster.shards.length ∧ Guarded (listing broken) 0 true :=
  ⟨by decide, (attach_is_guarded_iff (listing broken) 0 true (by decide)).mpr rfl⟩

/-- The listing fails, and the shard is Healthy with no objects. -/
theorem a_failed_scan_is_published : ¬ ∀ (s : Sys) (id : ShardId) (force : Bool), id < s.cluster.shards.length →
    Guarded s id force := by
  intro hall
  have hguarded := hall (listing broken) 0 false (by decide)
  have hhealthy : ((attachShard 0 false).exec (listing broken)).2.cluster.healthOf 0 = some .healthy := by decide
  obtain ⟨scan, n, hscan, hresult⟩ := hguarded.published hhealthy
  have hfails : ((attachScan 0 false).exec ((listing broken).swapped 0)).1 = .ok ⟨[], 0, .error (.store (.backend false))⟩ := rfl
  rw [hfails] at hscan
  obtain rfl := Except.ok.inj hscan
  exact nomatch hresult

end Sample

end ObjStr.Sharded
