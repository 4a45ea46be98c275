/-
  ObjStr.Sharded.Rounds — the rounds of a write, run alone, exactly: which shards take it and what
  state it leaves (`Sys.wrote`, `TwoRounds`).

  All writes send the object to the shards that are selected, mark the ones that failed, and,
  if all failed, send it to the others that are selected then. `put` (`PutAs`) may go through
  two more rounds; a write with metadata (`FinishedAs`) ends after these, and one that
  streams a file passes over the shards that are not raw.
-/

import ObjStr.Sharded.MetaWrites
import ObjStr.Raw.Bodies

namespace ObjStr.Sharded

open ObjStr.Lib ObjStr.Raw Proc

variable {s s' s'' : Sys} {k : Key} {p : Bytes} {up : Upload}

/-! ## Two rounds -/

omit s' s'' in
theorem exec_fanOut {ids : List ShardId} (hnd : ids.Nodup) :
    (fanOut (ids.map fun id => (id, s.cluster.storeRef id)) k up).exec s =
      (ids.map fun id => (id, s.answer id), s.written ids k up) :=
  Prod.ext (wp_fanOut hnd k up).1 (wp_fanOut hnd k up).2.1

section Writes

variable [Crates]

/-- The first round: the shards to send the write to when all have failed, and the state. -/
def Sys.firstRound (s : Sys) (k : Key) (up : Upload) (targets : List ShardId) : List ShardId × Sys :=
  (markWriteFailures (targets.filter fun x => s.accepts x) (targets.filter fun x => !s.accepts x) targets k).exec
    (s.written targets k up)

/-- The shards that take a write, and the state after it: of those it is sent to, or, if all of them
    fail, of the others it is sent to then. -/
def Sys.wrote (s : Sys) (keep : ShardId → Bool) (k : Key) (up : Upload) (targets : List ShardId) : List ShardId × Sys :=
  let took := targets.filter fun x => s.accepts x
  let m := s.firstRound k up targets
  if took = [] then ((m.1.filter keep).filter fun x => m.2.accepts x, m.2.written (m.1.filter keep) k up) else (took, m.2)

/-- No shard is passed over. -/
def every : ShardId → Bool := fun _ => true

omit [Crates] in
@[simp] theorem filter_every (l : List ShardId) : l.filter every = l := List.filter_eq_self.mpr fun _ _ => rfl

omit [Crates] in
theorem exec_requireWrites (placed : List ShardId) (errors : List WriteFailure) (required : Nat) :
    (required ≤ placed.length → (requireWrites k placed errors required true).exec s = (.ok placed, s)) ∧
    (placed.length < required →
      ((requireWrites k placed errors required true).exec s).1 =
        .error (.insufficientWrites k required placed.length errors)) := by
  unfold requireWrites
  constructor
  · intro h
    rw [if_neg (by omega)]
    rfl
  · intro h
    rw [if_pos h]
    dsimp only
    rw [if_pos rfl, exec_bind]
    rfl

/-- What `write_to_shards` ends in, when the two rounds of it end in `w`. -/
structure WroteAs (k : Key) (required : Nat) (w : List ShardId × Sys) (r : Except Error (List ShardId) × Sys) : Prop where
  enough : w.1 ≠ [] → required ≤ w.1.length → r = (.ok w.1, w.2)
  few : w.1 ≠ [] → w.1.length < required → ∃ errors, r.1 = .error (.insufficientWrites k required w.1.length errors)
  nowhere : w.1 = [] → ∃ errors, r = (.error (.allReplicasFailed k errors), w.2)

omit [Crates] in
theorem wroteAs_requireWrites {placed : List ShardId} (hne : placed ≠ []) (errors : List WriteFailure) (required : Nat) :
    WroteAs k required (placed, s) ((requireWrites k placed errors required true).exec s) where
  enough _ h := (exec_requireWrites placed errors required).1 h
  few _ h := ⟨errors, (exec_requireWrites placed errors required).2 h⟩
  nowhere h := absurd h hne

omit [Crates] in
theorem exec_storesOf {ids : List ShardId} (h : ∀ x ∈ ids, x < s.cluster.shards.length) :
    (storesOf ids).exec s = (ids.map fun id => (id, s.cluster.storeRef id), s) := by
  show (((ids.filter _).map _, s) : _ × Sys) = _
  rw [List.filter_eq_self.mpr fun x hx => decide_eq_true (h x hx)]

theorem wroteAs_writeToShards {targets : List ShardId} (hnd : targets.Nodup)
    (hlt : ∀ x ∈ targets, x < s.cluster.shards.length) (hne : targets ≠ []) :
    WroteAs k s.cluster.config.minWrites (s.wrote every k { body := p } targets) ((writeToShards k p targets).exec s) := by
  unfold writeToShards
  rw [exec_bind]
  show WroteAs _ _ _ ((writeToShardsInner k p targets s.cluster.config.minWrites true).exec s)
  unfold writeToShardsInner Sys.wrote
  rw [exec_bind, exec_storesOf hlt, exec_bind, exec_fanOut hnd]
  simp only [accepted_answers, rejected_answers, filter_every]
  have hm := wp_markWriteFailures (s := s.written targets k { body := p }) (targets.filter fun x => s.accepts x)
    (targets.filter fun x => !s.accepts x) targets k
  by_cases htook : (targets.filter fun x => s.accepts x) = []
  · have hall : (targets.filter fun x => !s.accepts x) = targets := by
      rw [List.filter_eq_self]
      intro x hx
      have h1 := List.filter_eq_nil_iff.mp htook x hx
      simpa using h1
    have hfailed : (targets.filter fun x => !s.accepts x).isEmpty = false := by
      rw [hall]
      simpa using hne
    simp only [htook, List.isEmpty_nil, hfailed, Bool.not_false, Bool.and_self, if_true]
    rw [htook] at hm
    obtain ⟨hmarked, -, hids, hsel⟩ := hm
    have hmdef : s.firstRound k { body := p } targets =
        (markWriteFailures [] (targets.filter fun x => !s.accepts x) targets k).exec (s.written targets k { body := p }) := by
      unfold Sys.firstRound
      rw [htook]
    rw [← hmdef] at hmarked hids hsel
    set m := s.firstRound k { body := p } targets
    have hlt' : ∀ x ∈ m.1, x < m.2.cluster.shards.length := by
      intro x hx
      rw [hsel] at hx
      simp only [List.isEmpty_nil, hfailed, Bool.not_false, Bool.and_self, if_true] at hx
      exact Cluster.mem_writable_lt (Cluster.writable_of_mem_selectTargets (List.mem_filter.mp hx).1)
    rw [exec_bind, ← hmdef, exec_bind, exec_storesOf hlt', exec_bind, exec_fanOut hids]
    simp only [accepted_answers]
    by_cases hretry : (m.1.filter fun x => m.2.accepts x) = []
    · simp only [hretry, List.isEmpty_nil, if_true]
      exact ⟨fun h => absurd rfl h, fun h => absurd rfl h, fun _ => ⟨_, rfl⟩⟩
    · rw [if_neg (by simpa using hretry)]
      exact wroteAs_requireWrites hretry _ _
  · have hne' : (targets.filter fun x => s.accepts x).isEmpty = false := by simpa using htook
    simp only [hne', Bool.false_and, Bool.false_eq_true, if_false, if_neg htook]
    rw [exec_bind]
    exact wroteAs_requireWrites htook _ _

/-! ## Who takes a write -/

/-- The shards a write is sent to when it fails everywhere. -/
def Cluster.others (c : Cluster) (k : Key) (targets : List ShardId) : List ShardId :=
  if targets = [] then [] else c.retryIds k targets

def Cluster.takers (c : Cluster) (keep accepts : ShardId → Bool) (k : Key) (targets : List ShardId) : List ShardId :=
  if targets.filter accepts = [] then ((c.others k targets).filter keep).filter accepts else targets.filter accepts

def Cluster.sentTo (c : Cluster) (keep accepts : ShardId → Bool) (k : Key) (targets : List ShardId) : List ShardId :=
  if targets.filter accepts = [] then targets ++ (c.others k targets).filter keep else targets

/-- A write goes nowhere when it fails everywhere, and then its targets are offline. -/
theorem wp_markWriteFailures_health (placed failed tried : List ShardId) :
    (markWriteFailures placed failed tried k).wp (fun _ s' _ =>
      (placed = [] → ∀ x, s'.cluster.healthOf x = (s.cluster.offline failed).healthOf x) ∧
      (placed ≠ [] → ∀ x, s'.cluster.available x = s.cluster.available x)) s := by
  unfold markWriteFailures
  split
  · next h =>
    rw [wp_bind]
    refine wp_mono (wp_markOffline failed) fun _ s1 t1 h1 => ?_
    rw [wp_bind, selectTargets, wp_look, wp_pure]
    simp only [Bool.and_eq_true, List.isEmpty_iff] at h
    exact ⟨fun _ => h1.2, fun hne => absurd h.1 hne⟩
  · split
    · next h h2 =>
      have hne : placed ≠ [] := by
        intro hp
        rw [hp] at h
        exact h (by simpa using h2)
      rw [wp_bind]
      refine wp_forM (fun _ s' _ => ∀ x, s'.cluster.available x = s.cluster.available x) (fun _ => rfl) ?_ ?_
      · intro done y rest _ s1 t h1
        rw [wp_bind, shardHealth, wp_look]
        split
        · next hy =>
          rw [setShardHealth, wp_step]
          intro x
          rw [← h1 x]
          show Cluster.available (s1.cluster.setShardHealth y .degraded s1.now) x = _
          unfold Cluster.available
          rw [Cluster.healthOf_setShardHealth]
          by_cases hx : x = y
          · subst hx
            rw [hy, Option.map_some, if_pos rfl]
            rfl
          · simp [hx]
        · exact h1
      · intro s1 t h1
        exact ⟨fun hp => absurd hp hne, fun _ => h1⟩
    · next h h2 =>
      rw [wp_pure]
      have hf : failed = [] := by simpa using h2
      refine ⟨fun _ x => ?_, fun _ _ => rfl⟩
      rw [hf, Cluster.healthOf_offline]
      cases s.cluster.healthOf x <;> rfl

omit [Crates] in
/-- A write to other shards, and what this one answers. -/
theorem Sys.accepts_written {ids : List ShardId} {x : ShardId} (hx : x ∉ ids) :
    (s.written ids k up).accepts x = s.accepts x := by
  have hst : ∀ st, s.cluster.storeRef x = some st → (s.written ids k up).stores st = s.stores st := by
    intro st hr
    have hn : some st ∉ ids.map s.cluster.storeRef := by
      intro hm
      obtain ⟨y, hy, hr'⟩ := List.mem_map.mp hm
      have h1 := (Cluster.storeRef_eq_some hr).1.symm.trans (Cluster.storeRef_eq_some hr').1
      exact hx (s.cluster.config.storeOf.injective h1 ▸ hy)
    simp only [Sys.written, if_neg hn]
  cases hr : s.cluster.storeRef x with
  | none => rw [Sys.accepts_none hr, Sys.accepts_none (s := s.written ids k up) hr]
  | some st => rw [Sys.accepts_some hr, Sys.accepts_some (s := s.written ids k up) hr, hst st hr]

omit [Crates] in
theorem Sys.accepts_congr (h : SameRefs s.cluster s'.cluster) (hs : s'.stores = s.stores) (x : ShardId) :
    s'.accepts x = s.accepts x := by
  unfold Sys.accepts Sys.answer
  rw [h.storeRef, hs]

omit [Crates] in
/-- Two writes, one after the other, to different shards. -/
theorem Sys.written_written {ids more : List ShardId} (hd : ∀ x ∈ more, x ∉ ids) (h : SameRefs s.cluster s'.cluster)
    (hs : s'.stores = (s.written ids k up).stores) :
    (s'.written more k up).stores = (s.written (ids ++ more) k up).stores := by
  funext st
  have href : more.map s'.cluster.storeRef = more.map s.cluster.storeRef := List.map_congr_left fun x _ => h.storeRef x
  simp only [Sys.written, href, hs, List.map_append, List.mem_append]
  by_cases h1 : some st ∈ ids.map s.cluster.storeRef
  · by_cases h2 : some st ∈ more.map s.cluster.storeRef
    · obtain ⟨x, hx, hr⟩ := List.mem_map.mp h1
      obtain ⟨y, hy, hr'⟩ := List.mem_map.mp h2
      have h3 := (Cluster.storeRef_eq_some hr).1.symm.trans (Cluster.storeRef_eq_some hr').1
      exact absurd hx (s.cluster.config.storeOf.injective h3 ▸ hd y hy)
    · simp [h1, h2]
  · by_cases h2 : some st ∈ more.map s.cluster.storeRef <;> simp [h1, h2]

structure TwoRounds (s : Sys) (keep : ShardId → Bool) (k : Key) (up : Upload) (targets : List ShardId)
    (w : List ShardId × Sys) : Prop where
  placed : w.1 = s.cluster.takers keep (fun x => s.accepts x) k targets
  refs : SameRefs s.cluster w.2.cluster
  catalog : w.2.cluster.catalog = s.cluster.catalog
  stores : w.2.stores = (s.written (s.cluster.sentTo keep (fun x => s.accepts x) k targets) k up).stores
  offline : targets.filter (fun x => s.accepts x) = [] → ∀ x, w.2.cluster.healthOf x = (s.cluster.offline targets).healthOf x
  available : targets.filter (fun x => s.accepts x) ≠ [] → ∀ x, w.2.cluster.available x = s.cluster.available x

omit [Crates] in
theorem filter_not_of_filter_nil {targets : List ShardId} {f : ShardId → Bool} (h : targets.filter f = []) :
    (targets.filter fun x => !f x) = targets := by
  rw [List.filter_eq_self]
  intro x hx
  simpa using List.filter_eq_nil_iff.mp h x hx

/-- What the first round leaves, when it went nowhere. -/
theorem firstRound_failed (k : Key) (up : Upload) {targets : List ShardId} (htook : (targets.filter fun x => s.accepts x) = []) :
    (s.firstRound k up targets).1 = s.cluster.others k targets ∧
      ∀ x, (s.firstRound k up targets).2.cluster.healthOf x = (s.cluster.offline targets).healthOf x := by
  have hall := filter_not_of_filter_nil htook
  have hm := wp_markWriteFailures_ids (s := s.written targets k up) (targets.filter fun x => s.accepts x)
    (targets.filter fun x => !s.accepts x) targets k
  have hh := wp_markWriteFailures_health (s := s.written targets k up) (k := k) (targets.filter fun x => s.accepts x)
    (targets.filter fun x => !s.accepts x) targets
  obtain ⟨-, -, hnone, hids⟩ := hm
  constructor
  · unfold Cluster.others
    by_cases hne : targets = []
    · rw [if_pos hne]
      exact hnone (.inr (by rw [hall, hne]))
    · rw [if_neg hne]
      exact hids htook hall hne
  · intro x
    refine (hh.1 htook x).trans ?_
    rw [hall]
    rfl

theorem marked_firstRound (s : Sys) (k : Key) (up : Upload) (targets : List ShardId) : Marked (s.written targets k up) (s.firstRound k up targets).2 :=
  (wp_markWriteFailures_ids _ _ _ _).1

theorem Cluster.mem_others {c : Cluster} {targets : List ShardId} {x : ShardId} (h : x ∈ c.others k targets) :
    c.writable x = true ∧ x ∉ targets := by
  unfold others at h
  split at h
  · cases h
  · exact mem_retryIds h

theorem Cluster.nodup_others (c : Cluster) (k : Key) (targets : List ShardId) : (c.others k targets).Nodup := by
  unfold others
  split
  · exact List.nodup_nil
  · exact c.nodup_retryIds k targets

theorem twoRounds_wrote (s : Sys) (k : Key) (up : Upload) (keep : ShardId → Bool) (targets : List ShardId) :
    TwoRounds s keep k up targets (s.wrote keep k up targets) := by
  have hmarked := marked_firstRound s k up targets
  unfold Sys.wrote
  dsimp only
  by_cases htook : (targets.filter fun x => s.accepts x) = []
  · obtain ⟨hothers, hhealth⟩ := firstRound_failed k up htook
    have hnew : ∀ x ∈ s.cluster.others k targets, x ∉ targets := fun x hx => (Cluster.mem_others hx).2
    have hacc : ∀ x ∈ s.cluster.others k targets, (s.firstRound k up targets).2.accepts x = s.accepts x := by
      intro x hx
      rw [Sys.accepts_congr (s := s.written targets k up) hmarked.refs hmarked.stores, Sys.accepts_written (hnew x hx)]
    rw [if_pos htook, hothers]
    refine ⟨?_, hmarked.refs, hmarked.catalog, ?_, fun _ => hhealth, fun h => absurd htook h⟩
    · unfold Cluster.takers
      rw [if_pos htook]
      exact List.filter_congr fun x hx => hacc x (List.mem_filter.mp hx).1
    · unfold Cluster.sentTo
      rw [if_pos htook]
      exact Sys.written_written (fun x hx => hnew x (List.mem_filter.mp hx).1) hmarked.refs hmarked.stores
  · rw [if_neg htook]
    refine ⟨?_, hmarked.refs, hmarked.catalog, ?_, fun h => absurd h htook, fun _ => ?_⟩
    · unfold Cluster.takers
      rw [if_neg htook]
    · unfold Cluster.sentTo
      rw [if_neg htook]
      exact hmarked.stores
    · exact (wp_markWriteFailures_health (s := s.written targets k up) (k := k) _ _ _).2 htook

/-! ## The write with metadata -/

/-- The raw stores of a registry are those of the writable raw shards. -/
structure RawRefRegistry.Matches (refs : RawRefRegistry) (c : Cluster) : Prop where
  raw : ∀ x, c.writable x = true → refs.kind x = .raw → ∃ st, refs.get x = some st
  only : ∀ x st, c.writable x = true → refs.get x = some st → refs.kind x = .raw ∧ c.storeRef x = some st

variable {refs : RawRefRegistry} {m : Bytes}

omit [Crates] in
theorem RawRefRegistry.Matches.get (h : refs.Matches s.cluster) {x : ShardId} (hw : s.cluster.writable x = true)
    (hk : refs.kind x = .raw) : refs.get x = s.cluster.storeRef x := by
  obtain ⟨st, hst⟩ := h.raw x hw hk
  rw [hst, (h.only x st hw hst).2]

omit [Crates] in
/-- Without metadata each kind of shard is sent the same object. -/
theorem Store.putMeta_nil (kind : ShardKind) (st : Store) : st.putMeta kind k p [] = st.put k { body := p } := by
  cases kind with
  | raw => rfl
  | s3Like => rfl
  | sidecar =>
    unfold Store.putMeta
    dsimp only
    generalize st.put k { body := p } = o
    obtain ⟨_ | _, _⟩ := o <;> rfl

/-- A fan-out that reaches these shards and passes over the others. -/
def Sends (f : List ShardId → ClusterM Outcomes) (keep : ShardId → Bool) (k : Key) (up : Upload) (ids : List ShardId)
    (s : Sys) : Prop :=
  ∃ o : Outcomes, (f ids).exec s = (o, s.written (ids.filter keep) k up) ∧
    o.accepted = (ids.filter keep).filter (fun x => s.accepts x) ∧
    o.rejected = (ids.filter keep).filter fun x => !s.accepts x

omit [Crates] in
theorem sends_fanOutWithMeta {ids : List ShardId} (hnd : ids.Nodup) (hlt : ∀ x ∈ ids, x < s.cluster.shards.length)
    (hraw : ∀ x ∈ ids, refs.kind x = .raw → refs.get x = s.cluster.storeRef x)
    (hup : ∀ x ∈ ids, ∀ st : Store, st.putMeta (refs.kind x) k p m = st.put k up) :
    Sends (fanOutWithMeta refs k p m) every k up ids s := by
  have href : ∀ x ∈ ids, s.cluster.metaRef refs x = s.cluster.storeRef x := by
    intro x hx
    unfold Cluster.metaRef
    split
    · next hk => exact hraw x hx hk
    · rfl
  have h := wp_eachStore (s := s) hnd (fun x => s.cluster.metaRef refs x) (fun x => Store.putMeta (refs.kind x) k p m)
    (fun x => metaError refs x) (p := fun x => do
      let r ← tryPutShard refs x k p m
      pure (x, r))
    (fun x hx y hy st hxs hys => by
      rw [href x hx] at hxs
      rw [href y hy] at hys
      exact s.cluster.config.storeOf.injective
        ((Cluster.storeRef_eq_some hxs).1.symm.trans (Cluster.storeRef_eq_some hys).1))
    (fun x hx s1 h1 => by
      rw [wp_bind]
      refine wp_mono (wp_tryPutShard (by rw [h1]; exact hlt x hx)) fun r s2 t h2 => ?_
      rw [wp_pure, h2.1, h2.2, h1]
      exact ⟨rfl, rfl⟩)
  obtain ⟨ho, hran⟩ := h
  have hans : ∀ x ∈ ids, (failure (s.answerOf (s.cluster.metaRef refs x) (Store.putMeta (refs.kind x) k p m)
      (metaError refs x))).isNone = s.accepts x := by
    intro x hx
    rw [href x hx]
    unfold Sys.accepts Sys.answer Sys.answerOf
    cases s.cluster.storeRef x with
    | none => rfl
    | some st =>
      dsimp only
      rw [hup x hx, Store.put_answer]
  have hstores : ((fanOutWithMeta refs k p m ids).exec s).2.stores = (s.written ids k up).stores := by
    funext st
    by_cases hst : some st ∈ ids.map s.cluster.storeRef
    · obtain ⟨x, hx, hr⟩ := List.mem_map.mp hst
      simp only [Sys.written, if_pos hst]
      exact (hran.ran x hx st ((href x hx).trans hr)).trans (by rw [hup x hx])
    · simp only [Sys.written, if_neg hst]
      refine hran.kept st fun x hx hr => hst (List.mem_map.mpr ⟨x, hx, ?_⟩)
      rw [← href x hx, hr]
  refine ⟨((fanOutWithMeta refs k p m ids).exec s).1, Prod.ext rfl ?_, ?_, ?_⟩
  · rw [filter_every]
    exact Sys.ext hstores hran.cluster hran.clock
  · refine (congrArg Outcomes.accepted ho).trans ?_
    rw [accepted_map, filter_every]
    exact List.filter_congr hans
  · refine (congrArg Outcomes.rejected ho).trans ?_
    rw [rejected_map, filter_every]
    exact List.filter_congr fun x hx => by rw [hans x hx]

omit [Crates] in
/-- A shard that is not raw is passed over. -/
theorem sends_streamToShards {ids : List ShardId} (hnd : ids.Nodup)
    (hraw : ∀ x ∈ ids, refs.get x = if refs.kind x = .raw then s.cluster.storeRef x else none)
    (hhas : ∀ x ∈ ids, refs.kind x = .raw → s.cluster.storeRef x ≠ none) :
    Sends (streamToShards refs k p m) (fun x => refs.kind x = .raw) k { body := p, metadata := m } ids s := by
  have h : (streamToShards refs k p m ids).wp (fun o s' _ =>
      o = (ids.filter fun x => refs.kind x = .raw).map (fun x => (x, s.answer x)) ∧
      s' = s.written (ids.filter fun x => refs.kind x = .raw) k { body := p, metadata := m }) s := by
    refine wp_foldlM (fun done o s' _ => o = (done.filter fun x => refs.kind x = .raw).map (fun x => (x, s.answer x)) ∧
      s' = s.written (done.filter fun x => refs.kind x = .raw) k { body := p, metadata := m }) ⟨rfl, ?_⟩ ?_ (fun _ _ _ h => h)
    · simp [Sys.written]
    · intro done x rest hl o s1 t h1
      obtain ⟨rfl, rfl⟩ := h1
      have hx : x ∈ ids := by simp [hl]
      rw [hraw x hx, List.filter_append, List.map_append]
      by_cases hk : refs.kind x = .raw
      · have hnew : x ∉ done.filter fun x => refs.kind x = .raw := fun hm =>
          notMem_done hnd hl (List.mem_filter.mp hm).1
        obtain ⟨st, hst⟩ := Option.ne_none_iff_exists'.mp (hhas x hx hk)
        obtain ⟨hsame, hw⟩ := Sys.written_cons k { body := p, metadata := m } hst hnew
        rw [if_pos hk, hst]
        dsimp only
        rw [wp_bind, StoreRef.put, StoreRef.call, onStore, wp_step, wp_pure]
        have hfx : ([x].filter fun x => decide (refs.kind x = .raw)) = [x] := by simp [hk]
        rw [hfx, hw, hsame]
        refine ⟨?_, rfl⟩
        have hans : s.answer x = ((s.stores st).put k { body := p, metadata := m }).1 := by
          unfold Sys.answer
          rw [hst, Store.put_answer]
        rw [List.map_singleton, hans]
      · have hfx : ([x].filter fun x => decide (refs.kind x = .raw)) = [] := by simp [hk]
        rw [if_neg hk, hfx]
        simp
  obtain ⟨ho, hs⟩ := h
  refine ⟨_, Prod.ext rfl hs, ?_, ?_⟩
  · exact (congrArg Outcomes.accepted ho).trans (accepted_answers s _)
  · exact (congrArg Outcomes.rejected ho).trans (rejected_answers s _)

omit [Crates] in
/-- A streamed round reaches the raw shards among those it is sent to. -/
theorem sends_streamed (hr : refs.Matches s.cluster) (s1 : Sys) (ids : List ShardId) (h1 : SameRefs s.cluster s1.cluster)
    (hnd : ids.Nodup) (hw : ∀ x ∈ ids, s.cluster.writable x = true) :
    Sends (streamToShards refs k p m) (fun x => refs.kind x = .raw) k { body := p, metadata := m } ids s1 := by
  refine sends_streamToShards hnd (fun x hx => ?_) fun x hx hk => ?_
  · by_cases hk : refs.kind x = .raw
    · rw [if_pos hk, hr.get (hw x hx) hk, h1.storeRef]
    · rw [if_neg hk]
      by_contra hn
      obtain ⟨st, hst⟩ := Option.ne_none_iff_exists'.mp hn
      exact hk (hr.only x st (hw x hx) hst).1
  · obtain ⟨st, hst⟩ := hr.raw x (hw x hx) hk
    rw [h1.storeRef, (hr.only x st (hw x hx) hst).2]
    simp

/-- The end of a write with metadata, when its rounds end in `w`. -/
structure FinishedAs (k : Key) (p : Bytes) (w : List ShardId × Sys) (r : Except Error Unit × Sys) : Prop where
  enough : w.2.cluster.config.minWrites ≤ w.1.length → r = (.ok (), w.2.record k p w.1)
  few : w.1.length < w.2.cluster.config.minWrites → ∃ e, r.1 = .error e

theorem finishedAs_finishWithMeta (placed : List ShardId) (o : Outcomes) :
    FinishedAs k p (placed, s) ((finishWithMeta k placed o p.length (crc32c p) 0).exec s) := by
  unfold finishWithMeta
  have hmin := s.cluster.config.one_le_minWrites
  constructor
  · intro h
    have hne : placed.isEmpty = false := by
      cases placed with
      | nil => exact absurd (hmin.trans h) (by simp)
      | cons x l => rfl
    rw [hne]
    simp only [Bool.false_eq_true, if_false]
    rw [exec_bind]
    show ((if placed.length < s.cluster.config.minWrites then _ else _ : ClusterM _).exec s) = _
    rw [if_neg (Nat.not_lt.mpr h)]
    rfl
  · intro h
    split
    · exact ⟨_, rfl⟩
    · rw [exec_bind]
      show ∃ e, ((if placed.length < s.cluster.config.minWrites then _ else _ : ClusterM _).exec s).1 = _
      rw [if_pos h, exec_bind]
      exact ⟨_, rfl⟩

/-- Two rounds of a fan-out, and what comes after them. -/
theorem exec_rounds {α : Type} {f : List ShardId → ClusterM Outcomes} {keep : ShardId → Bool}
    (g : List ShardId → Outcomes → ClusterM α)
    (hf : ∀ s1 ids, SameRefs s.cluster s1.cluster → ids.Nodup → (∀ x ∈ ids, s.cluster.writable x = true) →
      Sends f keep k up ids s1)
    (hkeep : (s.cluster.selectTargets k).filter keep = s.cluster.selectTargets k) :
    ∃ o : Outcomes, (do
      let outcomes ← f (s.cluster.selectTargets k)
      let retryIds ← markWriteFailures outcomes.accepted outcomes.rejected (s.cluster.selectTargets k) k
      let retried ← if outcomes.accepted.isEmpty then f retryIds else pure []
      g (outcomes.accepted ++ retried.accepted) (outcomes ++ retried) : ClusterM α).exec s =
        (g (s.wrote keep k up (s.cluster.selectTargets k)).1 o).exec (s.wrote keep k up (s.cluster.selectTargets k)).2 := by
  obtain ⟨o, ho, hacc, hrej⟩ := hf s (s.cluster.selectTargets k) (.refl _) (s.cluster.nodup_selectTargets k)
    fun x hx => Cluster.writable_of_mem_selectTargets hx
  rw [hkeep] at ho hacc hrej
  set targets := s.cluster.selectTargets k
  rw [exec_bind, ho, exec_bind]
  dsimp only
  have hround : (markWriteFailures o.accepted o.rejected targets k).exec (s.written targets k up) =
      s.firstRound k up targets := by
    unfold Sys.firstRound
    rw [hacc, hrej]
  rw [hround, hacc]
  unfold Sys.wrote
  dsimp only
  by_cases htook : (targets.filter fun x => s.accepts x) = []
  · obtain ⟨hothers, -⟩ := firstRound_failed k up htook
    obtain ⟨o2, ho2, hacc2, -⟩ := hf (s.firstRound k up targets).2 (s.cluster.others k targets)
      (marked_firstRound s k up targets).refs (s.cluster.nodup_others k targets)
      fun x hx => (Cluster.mem_others hx).1
    simp only [htook, List.isEmpty_nil, if_true, List.nil_append]
    rw [hothers, exec_bind, ho2]
    dsimp only
    rw [hacc2]
    exact ⟨_, rfl⟩
  · have hne : (targets.filter fun x => s.accepts x).isEmpty = false := by simpa using htook
    simp only [hne, Bool.false_eq_true, if_false, if_neg htook]
    rw [exec_bind, exec_pure]
    dsimp only
    have hnil : Outcomes.accepted [] = [] := rfl
    rw [hnil, List.append_nil, List.append_nil]
    exact ⟨_, rfl⟩

theorem finishedAs_rounds (f : List ShardId → ClusterM Outcomes) (keep : ShardId → Bool)
    (hf : ∀ s1 ids, SameRefs s.cluster s1.cluster → ids.Nodup → (∀ x ∈ ids, s.cluster.writable x = true) →
      Sends f keep k { body := p } ids s1)
    (hkeep : (s.cluster.selectTargets k).filter keep = s.cluster.selectTargets k) :
    FinishedAs k p (s.wrote keep k { body := p } (s.cluster.selectTargets k))
      ((do
        let outcomes ← f (s.cluster.selectTargets k)
        let retryIds ← markWriteFailures outcomes.accepted outcomes.rejected (s.cluster.selectTargets k) k
        let retried ← if outcomes.accepted.isEmpty then f retryIds else pure []
        finishWithMeta k (outcomes.accepted ++ retried.accepted) (outcomes ++ retried) p.length (crc32c p) 0 :
          ClusterM (Except Error Unit)).exec s) := by
  obtain ⟨o, ho⟩ := exec_rounds (fun placed o => finishWithMeta k placed o p.length (crc32c p) 0) hf hkeep
  rw [ho]
  exact finishedAs_finishWithMeta _ _

theorem finishedAs_putWithMeta (hr : refs.Matches s.cluster) (hro : s.cluster.config.readOnly = false) :
    FinishedAs k p (s.wrote every k { body := p } (s.cluster.selectTargets k)) ((putWithMeta refs k p []).exec s) := by
  unfold putWithMeta
  rw [exec_bind]
  show FinishedAs _ _ _ ((if s.cluster.config.readOnly = true then _ else _ : ClusterM _).exec s)
  rw [if_neg (by rw [hro]; decide), exec_bind]
  refine finishedAs_rounds (fanOutWithMeta refs k p []) every (fun s1 ids h1 hnd hw => ?_) (filter_every _)
  refine sends_fanOutWithMeta hnd (fun x hx => ?_) (fun x hx hk => ?_) fun x _ st => Store.putMeta_nil _ st
  · rw [h1.length]
    exact Cluster.mem_writable_lt (hw x hx)
  · rw [hr.get (hw x hx) hk, h1.storeRef]

/-! ## The write from a file -/

omit [Crates] in
theorem flatten_toChunks_go {n : Nat} (xs : Bytes) (last : Array UInt8) (done : Array Bytes) :
    (List.toChunks.go n xs last done).flatten = done.toList.flatten ++ last.toList ++ xs := by
  induction xs generalizing last done with
  | nil => simp [List.toChunks.go]
  | cons x xs ih =>
    unfold List.toChunks.go
    split
    · rw [ih]
      simp
    · rw [ih]
      simp

omit [Crates] in
theorem flatten_toChunks (n : Nat) (xs : Bytes) : (xs.toChunks n).flatten = xs := by
  unfold List.toChunks
  split
  · rfl
  · simp
  · rw [flatten_toChunks_go]
    simp

theorem foldl_crc32cAppend (chunks : List Bytes) (crc : UInt32) :
    chunks.foldl crc32cAppend crc = crc32cAppend crc chunks.flatten := by
  induction chunks generalizing crc with
  | nil => exact (Crates.crc32cAppend_nil crc).symm
  | cons c chunks ih => rw [List.foldl_cons, ih, List.flatten_cons, crc32cAppend_append]

/-- The checksum of a file is that of its payload, in whatever chunks it is read. -/
theorem crcOfChunks_eq (body : Bytes) : crcOfChunks body = crc32c body := by
  rw [crcOfChunks, foldl_crc32cAppend, flatten_toChunks, crc32c]

/-- All targets are raw shards: the file is streamed. -/
def Cluster.streams (c : Cluster) (refs : RawRefRegistry) (k : Key) : Bool :=
  (c.selectTargets k).all fun x => refs.kind x = .raw

theorem finishedAs_putWithMetaFromFile (hr : refs.Matches s.cluster) (hraw : s.cluster.streams refs k = true) :
    FinishedAs k p (s.wrote (fun x => refs.kind x = .raw) k { body := p } (s.cluster.selectTargets k))
      ((putWithMetaFromFile refs k p 0).exec s) := by
  unfold putWithMetaFromFile
  rw [exec_bind]
  show FinishedAs _ _ _ ((if (s.cluster.selectTargets k).all (fun x => refs.kind x = .raw) = true then _ else _ :
    ClusterM _).exec s)
  unfold Cluster.streams at hraw
  rw [if_pos hraw]
  have hlen : p.length - UInt16.toNat 0 = p.length := rfl
  have hfull : ¬ p.length < UInt16.toNat 0 := Nat.not_lt_zero _
  rw [if_neg hfull]
  simp only [hlen, List.take_length, List.drop_length, crcOfChunks_eq]
  exact finishedAs_rounds (streamToShards refs k p []) (fun x => refs.kind x = .raw) (sends_streamed hr)
    (List.filter_eq_self.mpr fun x hx => List.all_eq_true.mp hraw x hx)

theorem exec_putWithMetaFromFile (hraw : s.cluster.streams refs k = false) :
    (putWithMetaFromFile refs k p 0).exec s = (putWithMeta refs k p []).exec s := by
  unfold putWithMetaFromFile
  rw [exec_bind]
  show ((if (s.cluster.selectTargets k).all (fun x => refs.kind x = .raw) = true then _ else _ : ClusterM _).exec s) = _
  unfold Cluster.streams at hraw
  rw [if_neg (by rw [hraw]; decide)]
  have hlen : p.length - UInt16.toNat 0 = p.length := rfl
  rw [hlen, List.take_length, List.drop_length]

/-! ## The plain put -/

omit [Crates] in
def Sys.acceptsAgain (s : Sys) (x : ShardId) : Bool :=
  (s.cluster.storeRef x).any fun st => (((s.stores st).outcomes .put).tail.head?.join).isNone

def Sys.takers (s : Sys) (keep : ShardId → Bool) (k : Key) : List ShardId :=
  s.cluster.takers keep (fun x => s.accepts x) k (s.cluster.selectTargets k)

/-- The shards that take it in the next two, when nobody did: those of the second round are asked
    once more, and then others. -/
def Sys.lateTakers (s : Sys) (k : Key) : List ShardId :=
  let targets := s.cluster.selectTargets k
  let others := s.cluster.others k targets
  (s.cluster.offline targets).takers every (fun x => if others.contains x then s.acceptsAgain x else s.accepts x) k others

theorem Cluster.others_congr {c c' : Cluster} (hlen : c'.shards.length = c.shards.length) (hcfg : c'.config = c.config)
    (hh : ∀ x, c'.healthOf x = c.healthOf x) (targets : List ShardId) : c'.others k targets = c.others k targets := by
  have hsel : (c'.offline targets).selectTargets k = (c.offline targets).selectTargets k := by
    refine @selectTargets_congr _ (c.offline targets) (c'.offline targets) ?_ hcfg (fun x => ?_) k
    · rw [length_offline, length_offline, hlen]
    · rw [healthOf_offline, healthOf_offline, hh]
  unfold others retryIds
  rw [hsel]

theorem Cluster.takers_congr {c c' : Cluster} (hlen : c'.shards.length = c.shards.length) (hcfg : c'.config = c.config)
    (hh : ∀ x, c'.healthOf x = c.healthOf x) {keep f g : ShardId → Bool} {targets : List ShardId}
    (hf : ∀ x, x ∈ targets ∨ x ∈ c.others k targets → f x = g x) :
    c'.takers keep f k targets = c.takers keep g k targets := by
  unfold takers
  rw [others_congr hlen hcfg hh, List.filter_congr fun x hx => hf x (.inl hx),
    List.filter_congr fun x hx => hf x (.inr (List.mem_filter.mp hx).1)]

omit [Crates] in
theorem Cluster.not_writable_offline (c : Cluster) {targets : List ShardId} {x : ShardId} (h : x ∈ targets) :
    (c.offline targets).writable x = false := by
  have hc : targets.contains x = true := by simpa using h
  unfold writable
  rw [healthOf_offline, hc]
  cases c.healthOf x <;> rfl

/-- When the targets are offline none of them is selected. -/
theorem Cluster.selectTargets_offline (c : Cluster) {targets : List ShardId} (h : targets ≠ []) :
    (c.offline targets).selectTargets k = c.others k targets := by
  unfold others retryIds
  rw [if_neg h]
  refine (List.filter_eq_self.mpr fun x hx => ?_).symm
  have hw := writable_of_mem_selectTargets hx
  have hn : x ∉ targets := by
    intro hm
    rw [c.not_writable_offline hm] at hw
    cases hw
  simpa using hn

theorem exec_retryTargets (k : Key) (s s' : Sys) {targets others : List ShardId}
    (hh : ∀ x, s.cluster.healthOf x = (s'.cluster.offline targets).healthOf x) (hrefs : SameRefs s'.cluster s.cluster)
    (hne : targets ≠ []) (hothers : s'.cluster.others k targets = others) :
    ∃ s2, (retryTargets k targets).exec s = (if others = [] then none else some others, s2) ∧ Marked s s2 ∧
      ∀ x, s2.cluster.healthOf x = (s'.cluster.offline targets).healthOf x := by
  have hm := wp_markOffline (s := s) targets
  unfold retryTargets
  rw [exec_bind]
  obtain ⟨⟨hmarked, -⟩, hhealth⟩ := hm
  set s2 := ((targets.forM fun x => setShardHealth x .offline).exec s).2
  have hh2 : ∀ x, s2.cluster.healthOf x = (s'.cluster.offline targets).healthOf x := by
    intro x
    refine (hhealth x).trans ?_
    rw [Cluster.healthOf_offline, hh x, Cluster.healthOf_offline]
    cases s'.cluster.healthOf x with
    | none => rfl
    | some h =>
      simp only [Option.map_some, Option.some.injEq]
      split <;> rfl
  have hsel : s2.cluster.selectTargets k = others := by
    rw [← hothers, ← Cluster.selectTargets_offline _ hne]
    refine Cluster.selectTargets_congr (c := s'.cluster.offline targets) ?_ (hmarked.config.trans hrefs.config) hh2 k
    rw [hmarked.refs.length, hrefs.length, Cluster.length_offline]
  refine ⟨s2, ?_, hmarked, hh2⟩
  show ((pure (if (s2.cluster.selectTargets k).isEmpty || decide (s2.cluster.selectTargets k = targets) then none
    else some (s2.cluster.selectTargets k)) : ClusterM (Option (List ShardId))).exec s2) = _
  rw [hsel, exec_pure]
  have hdiff : others ≠ [] → others ≠ targets := by
    intro h1 h2
    obtain ⟨x, hx⟩ := List.exists_mem_of_ne_nil others h1
    have h3 := (Cluster.mem_others (hothers ▸ hx)).2
    exact h3 (h2 ▸ hx)
  by_cases ho : others = []
  · simp [ho]
  · have h1 : others.isEmpty = false := by simpa using ho
    have h2 : decide (others = targets) = false := by simpa using hdiff ho
    rw [h1, h2]
    simp [ho]

theorem exec_recordPut (placed : List ShardId) :
    (recordPut k p placed).exec s = (.ok (), ((removeDeleteMarker k).exec (s.record k p placed)).2) := by
  unfold recordPut
  rw [exec_bind, exec_bind]
  rfl

/-- What `put` does when some shard is selected. -/
theorem exec_put (hro : s.cluster.config.readOnly = false) (hne : s.cluster.selectTargets k ≠ []) :
    (put k p).exec s =
      match (writeToShards k p (s.cluster.selectTargets k)).exec s with
      | (.ok placed, s1) => (recordPut k p placed).exec s1
      | (.error e, s1) =>
        if e.isInsufficientWrites then (.error e, s1)
        else match (retryTargets k (s.cluster.selectTargets k)).exec s1 with
          | (none, s2) => (.error .noShards, s2)
          | (some others, s2) =>
            match (writeToShards k p others).exec s2 with
            | (.ok placed, s3) => (recordPut k p placed).exec s3
            | (.error e, s3) => (.error e, s3) := by
  have hread : readOnly.exec s = (s.cluster.config.readOnly, s) := rfl
  have hsel : (selectTargets k).exec s = (s.cluster.selectTargets k, s) := rfl
  unfold put
  rw [exec_bind, hread, hro, if_neg (by simp), exec_bind, hsel]
  dsimp only
  rw [if_neg (by simpa using hne), exec_bind]
  rcases hw : (writeToShards k p (s.cluster.selectTargets k)).exec s with ⟨r, s1⟩
  cases r with
  | ok placed => rfl
  | error e =>
    dsimp only
    by_cases he : e.isInsufficientWrites = true
    · rw [if_pos he, if_pos he, exec_pure]
    · rw [if_neg he, if_neg he, exec_bind]
      rcases (retryTargets k (s.cluster.selectTargets k)).exec s1 with ⟨r2, s2⟩
      cases r2 with
      | none => rfl
      | some others =>
        dsimp only
        rw [exec_bind]
        rcases (writeToShards k p others).exec s2 with ⟨r3, s3⟩
        cases r3 <;> rfl

theorem Cluster.takers_nil (c : Cluster) (keep accepts : ShardId → Bool) : c.takers keep accepts k [] = [] := rfl

/-- What `put` ends in, by who takes the object. -/
structure PutAs (s : Sys) (k : Key) (p : Bytes) (r : Except Error Unit × Sys) : Prop where
  enough : s.cluster.config.minWrites ≤ (s.takers every k).length →
    r = (.ok (), ((removeDeleteMarker k).exec
      ((s.wrote every k { body := p } (s.cluster.selectTargets k)).2.record k p (s.takers every k))).2)
  few : s.takers every k ≠ [] → (s.takers every k).length < s.cluster.config.minWrites → ∃ e, r.1 = .error e
  late : s.takers every k = [] → s.cluster.config.minWrites ≤ (s.lateTakers k).length → r.1 = .ok ()
  never : s.takers every k = [] → (s.lateTakers k).length < s.cluster.config.minWrites → ∃ e, r.1 = .error e

omit [Crates] in
/-- A shard that has been sent a write answers to the next one. -/
theorem Sys.accepts_written_again {ids : List ShardId} {x : ShardId} (hx : x ∈ ids) :
    (s.written ids k up).accepts x = s.acceptsAgain x := by
  unfold acceptsAgain
  cases hr : s.cluster.storeRef x with
  | none => exact Sys.accepts_none (s := s.written ids k up) hr
  | some st =>
    have hm : some st ∈ ids.map s.cluster.storeRef := List.mem_map.mpr ⟨x, hx, hr⟩
    have hst : (s.written ids k up).stores st = ((s.stores st).put k up).2 := by
      simp only [Sys.written, if_pos hm]
    rw [Sys.accepts_some (s := s.written ids k up) hr, hst, Store.outcome_of_put]
    rfl

theorem Cluster.took_nil {c : Cluster} {keep accepts : ShardId → Bool} {targets : List ShardId}
    (h : c.takers keep accepts k targets = []) : targets.filter accepts = [] := by
  unfold takers at h
  split at h
  · next h1 => exact h1
  · exact h

theorem writable_of_mem_others_offline {c : Cluster} {targets ids : List ShardId} {x : ShardId}
    (h : x ∈ (c.offline targets).others k ids) : c.writable x = true ∧ x ∉ targets := by
  have hw := (Cluster.mem_others h).1
  refine ⟨Cluster.writable_offline hw, fun hm => ?_⟩
  rw [c.not_writable_offline hm] at hw
  cases hw

/-- The third and the fourth round, after two that went nowhere. -/
theorem late_takers {s2 : Sys} (hnone : s.takers every k = [])
    (hmarked : Marked (s.wrote every k { body := p } (s.cluster.selectTargets k)).2 s2)
    (hh : ∀ x, s2.cluster.healthOf x = (s.cluster.offline (s.cluster.selectTargets k)).healthOf x) :
    s2.cluster.takers every (fun x => s2.accepts x) k (s.cluster.others k (s.cluster.selectTargets k)) = s.lateTakers k := by
  have hw := twoRounds_wrote s k { body := p } every (s.cluster.selectTargets k)
  have htook := Cluster.took_nil hnone
  unfold Sys.lateTakers
  refine Cluster.takers_congr (c := s.cluster.offline (s.cluster.selectTargets k)) ?_
    (hmarked.config.trans hw.refs.config) hh fun x hx => ?_
  · rw [hmarked.refs.length, hw.refs.length, Cluster.length_offline]
  · have hstores : s2.accepts x = (s.written (s.cluster.selectTargets k ++ s.cluster.others k (s.cluster.selectTargets k)) k
        { body := p }).accepts x := by
      refine Sys.accepts_congr (s := s.written _ k { body := p }) (hw.refs.trans hmarked.refs) ?_ x
      rw [hmarked.stores, hw.stores]
      unfold Cluster.sentTo
      rw [if_pos htook, filter_every]
    rw [hstores]
    by_cases ho : x ∈ s.cluster.others k (s.cluster.selectTargets k)
    · rw [if_pos (by simpa using ho)]
      exact Sys.accepts_written_again (by simp [ho])
    · rw [if_neg (by simpa using ho)]
      have hnew := (writable_of_mem_others_offline (hx.resolve_left ho)).2
      exact Sys.accepts_written (by simp [ho, hnew])

theorem putAs_put (hro : s.cluster.config.readOnly = false) : PutAs s k p ((put k p).exec s) := by
  have hmin := s.cluster.config.one_le_minWrites
  by_cases hne : s.cluster.selectTargets k = []
  · have htakers : s.takers every k = [] := by
      unfold Sys.takers
      rw [hne, Cluster.takers_nil]
    have hlate : s.lateTakers k = [] := by
      unfold Sys.lateTakers
      rw [hne]
      rfl
    have herr : ((put k p).exec s).1 = .error .noShards := by
      unfold put
      have hread : readOnly.exec s = (s.cluster.config.readOnly, s) := rfl
      have hsel : (selectTargets k).exec s = (s.cluster.selectTargets k, s) := rfl
      rw [exec_bind, hread, hro, if_neg (by simp), exec_bind, hsel, hne]
      rfl
    refine ⟨fun h => ?_, fun h => absurd htakers h, fun _ h => ?_, fun _ _ => ⟨_, herr⟩⟩
    · rw [htakers] at h
      exact absurd (hmin.trans h) (by simp)
    · rw [hlate] at h
      exact absurd (hmin.trans h) (by simp)
  · have hw := twoRounds_wrote s k { body := p } every (s.cluster.selectTargets k)
    have hwas := wroteAs_writeToShards (s := s) (k := k) (p := p) (s.cluster.nodup_selectTargets k)
      (fun x hx => Cluster.mem_writable_lt (Cluster.writable_of_mem_selectTargets hx)) hne
    have hplaced : (s.wrote every k { body := p } (s.cluster.selectTargets k)).1 = s.takers every k := hw.placed
    rw [exec_put hro hne]
    by_cases hnone : s.takers every k = []
    · obtain ⟨errors, hr⟩ := hwas.nowhere (hplaced.trans hnone)
      have htook := Cluster.took_nil hnone
      obtain ⟨s2, hretry, hmarked, hh⟩ := exec_retryTargets k (s.wrote every k { body := p }
        (s.cluster.selectTargets k)).2 s (hw.offline htook) hw.refs hne rfl
      have hlate := late_takers hnone hmarked hh
      rw [hr]
      simp only [Error.isInsufficientWrites, Bool.false_eq_true, if_false, hretry]
      by_cases ho : s.cluster.others k (s.cluster.selectTargets k) = []
      · have hnil : s.lateTakers k = [] := by
          rw [← hlate, ho, Cluster.takers_nil]
        rw [if_pos ho]
        refine ⟨fun h => ?_, fun h => absurd hnone h, fun _ h => ?_, fun _ _ => ⟨_, rfl⟩⟩
        · rw [hnone] at h
          exact absurd (hmin.trans h) (by simp)
        · rw [hnil] at h
          exact absurd (hmin.trans h) (by simp)
      · rw [if_neg ho]
        dsimp only
        have hlen : s2.cluster.shards.length = s.cluster.shards.length := by
          rw [hmarked.refs.length, hw.refs.length]
        have hwas2 := wroteAs_writeToShards (s := s2) (k := k) (p := p) (s.cluster.nodup_others k _)
          (fun x hx => by
            rw [hlen]
            exact Cluster.mem_writable_lt (Cluster.mem_others hx).1) ho
        have hcfg : s2.cluster.config = s.cluster.config := hmarked.config.trans hw.refs.config
        have hplaced2 := (twoRounds_wrote s2 k { body := p } every
          (s.cluster.others k (s.cluster.selectTargets k))).placed
        rw [hlate] at hplaced2
        rw [hcfg] at hwas2
        refine ⟨fun h => ?_, fun h => absurd hnone h, fun _ h => ?_, fun _ h => ?_⟩
        · rw [hnone] at h
          exact absurd (hmin.trans h) (by simp)
        · have hne2 : s.lateTakers k ≠ [] := by
            intro hnil
            rw [hnil] at h
            exact absurd (hmin.trans h) (by simp)
          rw [hwas2.enough (hplaced2 ▸ hne2) (hplaced2 ▸ h)]
          dsimp only
          rw [exec_recordPut]
        · by_cases hnil : s.lateTakers k = []
          · obtain ⟨errors2, hr2⟩ := hwas2.nowhere (hplaced2.trans hnil)
            rw [hr2]
            exact ⟨_, rfl⟩
          · obtain ⟨errors2, hr2⟩ := hwas2.few (hplaced2 ▸ hnil) (hplaced2 ▸ h)
            rcases hx : (writeToShards k p (s.cluster.others k (s.cluster.selectTargets k))).exec s2 with ⟨r, s3⟩
            rw [hx] at hr2
            cases hr2
            exact ⟨_, rfl⟩
    · refine ⟨fun h => ?_, fun _ h => ?_, fun h => absurd h hnone, fun h => absurd h hnone⟩
      · rw [hwas.enough (hplaced ▸ hnone) (hplaced ▸ h)]
        dsimp only
        rw [exec_recordPut, hplaced]
      · obtain ⟨errors, hr⟩ := hwas.few (hplaced ▸ hnone) (hplaced ▸ h)
        rcases hx : (writeToShards k p (s.cluster.selectTargets k)).exec s with ⟨r, s1⟩
        rw [hx] at hr
        cases hr
        exact ⟨_, rfl⟩

end Writes

open Sample Raw.Sample in
/-- A small cluster of raw shards. -/
theorem raws_match : (raws 2).Matches (cluster 2 (config 2 1)) := by
  have hlt : ∀ x, (cluster 2 (config 2 1)).writable x = true → x = 0 ∨ x = 1 := by
    intro x h
    match x, Cluster.mem_writable_lt h with
    | 0, _ => exact .inl rfl
    | 1, _ => exact .inr rfl
  constructor
  · intro x h _
    rcases hlt x h with rfl | rfl
    · exact ⟨0, rfl⟩
    · exact ⟨1, rfl⟩
  · intro x st h hst
    rcases hlt x h with rfl | rfl <;> cases hst <;> exact ⟨rfl, rfl⟩

end ObjStr.Sharded
