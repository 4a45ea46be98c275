/-
  ObjStr.Sharded.Quorum — what a write acknowledges: `write_to_shards_inner` with its retry, and
  `put` and `put_opts` with theirs.

  A write goes through up to three rounds, each on the shards that are writable then. Only a
  round that nobody took is followed by another one, so what is placed is what the last
  round placed.
-/

import ObjStr.Sharded.Removal
import ObjStr.Sharded.Paths
import ObjStr.Sharded.Sample

namespace ObjStr.Sharded

open ObjStr.Lib ObjStr.Raw Proc

variable {s s' s'' : Sys} {location : Key} {up : Upload} {placed : List ShardId}

/-! ## The answers to the writes of a call -/

def TookLast (c : Cluster) (location : Key) (es : List Event) (x : ShardId) : Prop :=
  (writesTo (c.config.storeOf x) location es).getLast? = some none

theorem TookLast.before {c : Cluster} {es es' : List Event} {x : ShardId} (h : TookLast c location es' x) :
    TookLast c location (es ++ es') x := by
  unfold TookLast at h ⊢
  rw [writesTo_append, List.getLast?_append, h]
  rfl

theorem TookLast.after {c : Cluster} {es es' : List Event} {x : ShardId} (h : TookLast c location es x)
    (h' : NoPuts es') : TookLast c location (es ++ es') x := by
  unfold TookLast at h ⊢
  rw [writesTo_append, h', List.append_nil]
  exact h

theorem tookLast_writeEvents {ids : List ShardId} (hnd : ids.Nodup) {x : ShardId}
    (hx : x ∈ ids.filter fun id => s.accepts id) : TookLast s.cluster location (s.writeEvents ids location) x := by
  obtain ⟨hx, ha⟩ := List.mem_filter.mp hx
  unfold TookLast
  rw [writesTo_writeEvents hnd hx (Sys.attached_of_accepts ha)]
  have h1 : failure (s.answer x) = none := by
    unfold Sys.accepts at ha
    exact Option.isNone_iff_eq_none.mp ha
  rw [h1]
  rfl

/-- The object landed on the shards, and they took it last. -/
structure Placed (s s' : Sys) (location : Key) (up : Upload) (placed : List ShardId) (es : List Event) : Prop where
  landed : Landed s s' location up placed
  took : ∀ x ∈ placed, TookLast s.cluster location es x

theorem Placed.marked {es es' : List Event} (h : Placed s s' location up placed es) (hm : Marked s' s'')
    (hq : Quiet es') : Placed s s'' location up placed (es ++ es') :=
  ⟨h.landed.marked hm, fun x hx => (h.took x hx).after hq.noPuts⟩

theorem Placed.after {es' : List Event} (h : Landed s s' location up []) (h' : Placed s' s'' location up placed es')
    (es : List Event) : Placed s s'' location up placed (es ++ es') := by
  refine ⟨h.after h'.landed, fun x hx => ?_⟩
  have h1 := h'.took x hx
  unfold TookLast at h1
  rw [h.refs.config] at h1
  exact TookLast.before h1

theorem Placed.before {es : List Event} (h : Placed s s' location up placed es) (es' : List Event) :
    Placed s s' location up placed (es' ++ es) :=
  ⟨h.landed, fun x hx => (h.took x hx).before⟩

theorem quiet_look (s : Sys) : Quiet (events [(s, Event.other, s)]) := by simp [Quiet, events]

/-- One round of writes. -/
theorem wp_round {ids : List ShardId} (hnd : ids.Nodup) :
    (fanOut ((ids.filter (· < s.cluster.shards.length)).map fun id => (id, s.cluster.storeRef id)) location up).wp
      (fun o s' t => o = (ids.filter (· < s.cluster.shards.length)).map (fun id => (id, s.answer id)) ∧
        Placed s s' location up (Outcomes.accepted o) (events t)) s := by
  refine wp_mono (wp_fanOut (hnd.filter _) location up) fun o s' t h => ?_
  obtain ⟨rfl, rfl, ht⟩ := h
  rw [ht, accepted_answers]
  exact ⟨rfl, landed_written (hnd.filter _), fun x hx => tookLast_writeEvents (hnd.filter _) hx⟩

/-! ## `write_to_shards_inner` -/

/-- What a write to shards ends in: it is placed on enough shards; or on too few, and then it may have
    been cleaned up; or nobody took it. -/
def WroteTo (location : Key) (data : Bytes) (minRequired : Nat) (cleanupOnFail : Bool) (s : Sys)
    (r : Except Error (List ShardId)) (s' : Sys) (es : List Event) : Prop :=
  match r with
  | .ok placed => Placed s s' location { body := data } placed es ∧ minRequired ≤ placed.length
  | .error (.insufficientWrites path required actual _) =>
    ∃ mid placed, Landed s mid location { body := data } placed ∧ path = location ∧ required = minRequired ∧
      actual = placed.length ∧ (placed ≠ [] ∧ placed.length < minRequired) ∧
      Deleted mid s' placed [location, metaSidecarPath location] ∧ s'.cluster = mid.cluster ∧
      (cleanupOnFail = false ∨ (s.cluster.catalog.get location).isSome → s' = mid) ∧
      (cleanupOnFail = true → s.cluster.catalog.get location = none → ∀ x ∈ placed, ∀ st,
        s.cluster.storeRef x = some st → (mid.stores st).Calm .delete 2 → (s'.stores st).objects.lookup location = none)
  | .error e => Landed s s' location { body := data } [] ∧ ∃ errors, e = .allReplicasFailed location errors

/-- A round that nobody took, and then a write. -/
theorem WroteTo.after {data : Bytes} {minRequired : Nat} {cleanupOnFail : Bool} {r : Except Error (List ShardId)}
    {es' : List Event} (h : Landed s s' location { body := data } [])
    (h' : WroteTo location data minRequired cleanupOnFail s' r s'' es') (es : List Event) :
    WroteTo location data minRequired cleanupOnFail s r s'' (es ++ es') := by
  unfold WroteTo at h' ⊢
  split at h'
  · exact ⟨h'.1.after h es, h'.2⟩
  · obtain ⟨mid, placed, h1, h2, h3, h4, h5, h6, h7, h8, h9⟩ := h'
    rw [h.catalog] at h8 h9
    refine ⟨mid, placed, h.after h1, h2, h3, h4, h5, h6, h7, h8, fun hc hn x hx st hst => ?_⟩
    exact h9 hc hn x hx st (by rw [h.refs.storeRef]; exact hst)
  · exact ⟨h.after h'.1, h'.2⟩

/-- A write that failed, but not for too few shards, landed nowhere. -/
theorem WroteTo.landed {data : Bytes} {minRequired : Nat} {cleanupOnFail : Bool} {e : Error} {es : List Event}
    (h : WroteTo location data minRequired cleanupOnFail s (.error e) s' es) (he : ¬ e.isInsufficientWrites = true) :
    Landed s s' location { body := data } [] := by
  cases e with
  | insufficientWrites => exact absurd rfl he
  | _ => exact h.1

theorem WroteTo.quiet {data : Bytes} {minRequired : Nat} {cleanupOnFail : Bool} {e : Error} {es : List Event}
    (h : WroteTo location data minRequired cleanupOnFail s (.error e) s' es) (es' : List Event) :
    WroteTo location data minRequired cleanupOnFail s (.error e) s' es' := by
  cases e <;> exact h

theorem wp_requireWrites {data : Bytes} {mid : Sys} {es : List Event} {errors : List WriteFailure} {minRequired : Nat}
    {cleanupOnFail : Bool} (h : Placed s mid location { body := data } placed es) (hne : placed ≠ []) :
    (requireWrites location placed errors minRequired cleanupOnFail).wp
      (fun r s' t => WroteTo location data minRequired cleanupOnFail s r s' (es ++ events t)) mid := by
  unfold requireWrites
  split
  · next hlt =>
    cases cleanupOnFail with
    | false =>
      simp only [Bool.false_eq_true, if_false, wp_pure]
      exact ⟨mid, placed, h.landed, rfl, rfl, rfl, ⟨hne, hlt⟩, .refl _ _ _, rfl, fun _ => rfl, by simp⟩
    | true =>
      simp only [if_true]
      rw [wp_bind]
      refine wp_mono wp_cleanupOrphanedWrites fun _ s' t hc => ?_
      obtain ⟨h1, h2, -, h4, h5⟩ := hc
      rw [h.landed.catalog] at h4 h5
      rw [wp_pure]
      refine ⟨mid, placed, h.landed, rfl, rfl, rfl, ⟨hne, hlt⟩, h1, h2, fun ho => h4 (by simpa using ho), fun _ hn x hx st hst => ?_⟩
      exact h5 hn h.landed.nodup x hx st (by rw [h.landed.refs.storeRef]; exact hst)
  · next hge =>
    rw [wp_pure, events_nil, List.append_nil]
    exact ⟨h, Nat.le_of_not_lt hge⟩

section Writes

variable [Crates]

/-- A write to some shards. -/
theorem wp_writeToShardsInner {data : Bytes} {targets : List ShardId} (hnd : targets.Nodup)
    (hne : targets.filter (· < s.cluster.shards.length) ≠ []) (minRequired : Nat) (cleanupOnFail : Bool) :
    (writeToShardsInner location data targets minRequired cleanupOnFail).wp
      (fun r s' t => WroteTo location data minRequired cleanupOnFail s r s' (events t)) s := by
  unfold writeToShardsInner
  rw [wp_bind, storesOf, wp_look, wp_bind]
  refine wp_mono (wp_round hnd) fun o s1 t1 h1 => ?_
  obtain ⟨ho, hp⟩ := h1
  split
  · next hnone =>
    -- nobody took the first round: what the second one places is all there is
    have hacc : Outcomes.accepted o = [] := by
      simp only [Bool.and_eq_true, List.isEmpty_iff] at hnone
      exact hnone.1
    rw [hacc] at hp
    rw [wp_bind]
    refine wp_mono (wp_markWriteFailures _ _ _ _) fun ids s2 t2 h2 => ?_
    obtain ⟨hm, hq, hids, -⟩ := h2
    have hp2 := hp.marked hm hq
    rw [wp_bind, storesOf, wp_look, wp_bind]
    refine wp_mono (wp_round hids) fun o3 s3 t3 h3 => ?_
    have hp3 := Placed.after hp2.landed h3.2 (events ([(s, Event.other, s)] ++ (t1 ++ (t2 ++ [(s2, Event.other, s2)]))))
    dsimp only
    split
    · next hacc3 =>
      rw [List.isEmpty_iff] at hacc3
      rw [hacc3] at hp3
      exact ⟨hp3.landed, _, rfl⟩
    · next hacc3 =>
      rw [List.isEmpty_iff] at hacc3
      refine wp_mono (wp_requireWrites hp3 hacc3) fun r s4 t4 h4 => ?_
      simpa only [events_append, List.append_assoc] using h4
  · next hsome =>
    -- somebody took it: each shard either did or did not
    have hacc : Outcomes.accepted o ≠ [] := by
      intro hacc
      rw [hacc, ho, rejected_answers] at hsome
      rw [ho, accepted_answers, List.filter_eq_nil_iff] at hacc
      simp only [List.isEmpty_nil, Bool.true_and, Bool.not_eq_true', Bool.not_eq_false, List.isEmpty_iff,
        List.filter_eq_nil_iff] at hsome
      obtain ⟨x, hx⟩ := List.exists_mem_of_ne_nil _ hne
      exact hacc x hx (hsome x hx)
    rw [wp_bind]
    refine wp_mono (wp_markWriteFailures _ _ _ _) fun ids s2 t2 h2 => ?_
    have hp2 := (hp.marked h2.1 h2.2.1).before (events [(s, Event.other, s)])
    refine wp_mono (wp_requireWrites hp2 hacc) fun r s3 t3 h3 => ?_
    simpa only [events_append, List.append_assoc] using h3

theorem wp_writeToShards {data : Bytes} {targets : List ShardId} (hnd : targets.Nodup)
    (hne : targets.filter (· < s.cluster.shards.length) ≠ []) :
    (writeToShards location data targets).wp
      (fun r s' t => WroteTo location data s.cluster.config.minWrites true s r s' (events t)) s := by
  unfold writeToShards
  rw [wp_bind, minWrites, wp_look]
  refine wp_mono (wp_writeToShardsInner hnd hne _ true) fun r s' t h => ?_
  rw [events_append]
  unfold WroteTo at h ⊢
  split at h
  · exact ⟨h.1.before _, h.2⟩
  · exact h
  · exact h

/-! ## `put` -/

def Sys.record (s : Sys) (location : Key) (payload : Bytes) (placed : List ShardId) : Sys :=
  s.tick.withCatalog (s.cluster.catalog.put location placed payload.length (some (crc32c payload)) 0 s.now)

def Recorded (location : Key) (payload : Bytes) (placed : List ShardId) (s s' : Sys) : Prop :=
  ∃ r es, DeletedRaw (Path.fromStr (deleteMarkerKey location)) (s.record location payload placed) r s' es

def PutTo (location : Key) (payload : Bytes) (s : Sys) (r : Except Error Unit) (s' : Sys) (es : List Event) : Prop :=
  match r with
  | .ok _ => ∃ mid placed, WroteTo location payload s.cluster.config.minWrites true s (.ok placed) mid es ∧
      Recorded location payload placed mid s'
  | .error e => WroteTo location payload s.cluster.config.minWrites true s (.error e) s' es ∨
      (e = .readOnly ∨ e = .noShards) ∧ Landed s s' location { body := payload } []

omit [Crates] in
theorem Landed.of_marked (h : Marked s s') : Landed s s' location up [] where
  refs := h.refs
  catalog := h.catalog
  nodup := List.nodup_nil
  attached := by simp
  stored := by simp
  kept := fun st _ => by rw [h.stores]
  others := fun st k _ => by rw [h.stores]
  calls := fun st c _ => by rw [h.stores]

theorem PutTo.before {payload : Bytes} {r : Except Error Unit} {es : List Event}
    (h : PutTo location payload s r s' es) (es' : List Event) : PutTo location payload s r s' (es' ++ es) := by
  match r with
  | .ok _ =>
    obtain ⟨mid, placed, hw, hrec⟩ := h
    exact ⟨mid, placed, ⟨hw.1.before es', hw.2⟩, hrec⟩
  | .error e => exact h.imp (fun h => h.quiet _) (fun h => h)

theorem wp_recordPut {payload : Bytes} {placed : List ShardId} :
    (recordPut location payload placed).wp
      (fun r s' t => r = .ok () ∧ Recorded location payload placed s s' ∧ NoPuts (events t)) s := by
  unfold recordPut
  rw [wp_bind, catalogPut, wp_step, wp_bind, removeDeleteMarker]
  refine wp_mono (wp_deleteRaw _) fun r s' t h => ?_
  rw [wp_pure]
  refine ⟨rfl, ⟨r, _, h⟩, ?_⟩
  rw [events_append, events_append]
  exact NoPuts.append (by simp [NoPuts, events, writesTo]) (h.puts.append .nil)

/-- What was placed is recorded. -/
theorem wp_recordPlaced {payload : Bytes} {placed : List ShardId} {mid : Sys} {es : List Event}
    (h : WroteTo location payload s.cluster.config.minWrites true s (.ok placed) mid es) :
    (recordPut location payload placed).wp
      (fun r s' t => r = .ok () ∧ PutTo location payload s r s' (es ++ events t)) mid := by
  refine wp_mono wp_recordPut fun r s' t h1 => ?_
  obtain ⟨rfl, hrec, hputs⟩ := h1
  refine ⟨rfl, mid, placed, ⟨⟨h.1.landed, fun x hx => (h.1.took x hx).after hputs⟩, h.2⟩, hrec⟩

theorem wp_retryTargets (targets : List ShardId) :
    (retryTargets location targets).wp
      (fun o s' t => Marked s s' ∧ Quiet (events t) ∧ ∀ l ∈ o, l = s'.cluster.selectTargets location ∧ l ≠ []) s := by
  unfold retryTargets
  rw [wp_bind]
  refine wp_mono (wp_markAll fun x s => wp_setShardHealth x _) fun _ s1 t1 h1 => ?_
  rw [wp_bind, selectTargets, wp_look, wp_pure]
  refine ⟨h1.1, ?_, fun l hl => ?_⟩
  · rw [events_append]
    exact h1.2.append (quiet_look s1)
  · split at hl
    · cases hl
    · next h =>
      obtain rfl := (Option.some.inj hl).symm
      simp only [Bool.or_eq_true, List.isEmpty_iff, decide_eq_true_eq, not_or] at h
      exact ⟨rfl, h.1⟩

theorem wp_put (payload : Bytes) :
    (put location payload).wp (fun r s' t => PutTo location payload s r s' (events t)) s := by
  have hnone : ∀ e, (e = .readOnly ∨ e = .noShards) → ∀ es, PutTo location payload s (.error e) s es :=
    fun e he es => .inr ⟨he, .of_marked (.refl s)⟩
  unfold put
  rw [wp_bind, readOnly, wp_look]
  split
  · rw [wp_pure]
    exact hnone _ (.inl rfl) _
  rw [wp_bind, selectTargets, wp_look]
  split
  · rw [wp_pure]
    exact hnone _ (.inr rfl) _
  next hne =>
  rw [List.isEmpty_iff] at hne
  rw [wp_bind]
  refine wp_mono (wp_writeToShards (s.cluster.nodup_selectTargets location) (Cluster.filter_selectTargets_ne hne)) fun r1 s1 t1 h1 => ?_
  have h1' := h1.after (.of_marked (.refl s)) (events ([(s, Event.other, s)] ++ [(s, Event.other, s)]))
  cases r1 with
  | ok placed =>
    refine wp_mono (wp_recordPlaced h1') fun r s2 t2 h2 => ?_
    simpa only [events_append, List.append_assoc] using h2.2
  | error e =>
    by_cases he : e.isInsufficientWrites
    · simp only [he, if_true, wp_pure]
      refine .inl ?_
      simpa only [events_append, List.append_assoc, events_nil, List.append_nil] using h1'
    · simp only [he, if_false, Bool.false_eq_true]
      have hl := h1.landed he
      rw [wp_bind]
      refine wp_mono (wp_retryTargets _) fun o s2 t2 h2 => ?_
      obtain ⟨hm, hq, ho⟩ := h2
      cases o with
      | none =>
        rw [wp_pure]
        exact .inr ⟨.inr rfl, hl.marked hm⟩
      | some others =>
        obtain ⟨rfl, hne'⟩ := ho others rfl
        rw [wp_bind]
        refine wp_mono (wp_writeToShards (s2.cluster.nodup_selectTargets location)
          (Cluster.filter_selectTargets_ne hne')) fun r3 s3 t3 h3 => ?_
        rw [hm.config, hl.refs.config] at h3
        have h3' := h3.after (hl.marked hm)
          (events ([(s, Event.other, s)] ++ ([(s, Event.other, s)] ++ (t1 ++ t2))))
        cases r3 with
        | ok placed =>
          refine wp_mono (wp_recordPlaced h3') fun r s4 t4 h4 => ?_
          simpa only [events_append, List.append_assoc] using h4.2
        | error e =>
          rw [wp_pure]
          refine .inl ?_
          simpa only [events_append, List.append_assoc, events_nil, List.append_nil] using h3'

/-! ## `put_opts` -/

def Sys.reserve (s : Sys) (location : Key) (targets : List ShardId) (size : Nat) : Sys :=
  s.tick.withCatalog (s.cluster.catalog.tryInsert location targets size s.now).2

/-- What a create ends in: a failed one takes its placeholder back. -/
def CreateTo (location : Key) (payload : Bytes) (s : Sys) (r : Except Error Unit) (s' : Sys) (es : List Event) : Prop :=
  let s1 := s.reserve location (s.cluster.selectTargets location) payload.length
  match r with
  | .ok _ => s.cluster.catalog.get location = none ∧
      ∃ mid placed, WroteTo location payload s.cluster.config.minWrites true s1 (.ok placed) mid es ∧
        Recorded location payload placed mid s'
  | .error e => (s.cluster.catalog.get location = none ∧ s.cluster.selectTargets location ≠ [] ∧
      ∃ mid, (WroteTo location payload s.cluster.config.minWrites true s1 (.error e) mid es ∨
        e = .noShards ∧ Landed s1 mid location { body := payload } []) ∧
        s' = mid.withCatalog (mid.cluster.catalog.remove location).2) ∨
      (e = .readOnly ∨ e = .noShards ∨ e = .alreadyExists location)

theorem CreateTo.before {payload : Bytes} {r : Except Error Unit} {es : List Event}
    (h : CreateTo location payload s r s' es) (es' : List Event) : CreateTo location payload s r s' (es' ++ es) := by
  match r with
  | .ok _ =>
    obtain ⟨hent, mid, placed, hw, hrec⟩ := h
    exact ⟨hent, mid, placed, ⟨hw.1.before es', hw.2⟩, hrec⟩
  | .error e =>
    refine h.imp (fun h => ?_) (fun h => h)
    obtain ⟨h1, h2, mid, h3, h4⟩ := h
    exact ⟨h1, h2, mid, h3.imp (fun h => h.quiet _) (fun h => h), h4⟩

omit [Crates] in
theorem get_reserve {targets : List ShardId} {size : Nat} (h : s.cluster.catalog.get location = none) (k : Key) :
    (s.reserve location targets size).cluster.catalog.get k =
      if k = location then some ⟨targets, size, none, s.now, 0⟩ else s.cluster.catalog.get k :=
  Catalog.get_tryInsert _ _ _ _ _ _ h

omit [Crates] in
/-- A placeholder that is still there is removed. -/
theorem wp_dropPlaceholder {e : PlacementEntry} (h : s.cluster.catalog.get location = some e) (hc : e.crc32c = none) :
    (dropPlaceholder location).wp (fun _ s' t =>
      s' = s.withCatalog (s.cluster.catalog.remove location).2 ∧ NoPuts (events t)) s := by
  unfold dropPlaceholder
  rw [wp_bind, catalogGet, wp_look, h]
  simp only [hc, Option.isNone_none, if_true]
  rw [wp_bind, catalogRemove, wp_step, wp_pure]
  refine ⟨rfl, ?_⟩
  rw [events_append, events_append]
  exact (noPuts_look s).append (NoPuts.append (by simp [NoPuts, events, writesTo]) .nil)

omit [Crates] in
/-- The catalog is as it was before a failed write. -/
theorem WroteTo.catalog {data : Bytes} {minRequired : Nat} {cleanupOnFail : Bool} {e : Error} {es : List Event}
    (h : WroteTo location data minRequired cleanupOnFail s (.error e) s' es) :
    s'.cluster.catalog = s.cluster.catalog := by
  unfold WroteTo at h
  split at h
  · contradiction
  · obtain ⟨mid, placed, h1, -, -, -, -, -, h7, -, -⟩ := h
    rw [h7, h1.catalog]
  · exact h.1.catalog

omit [Crates] in
/-- The placeholder goes with a failed write. -/
theorem wp_giveUp {targets : List ShardId} {size : Nat} {mid : Sys} {e : Error}
    (h : s.cluster.catalog.get location = none)
    (hcat : mid.cluster.catalog = (s.reserve location targets size).cluster.catalog) :
    (do
      dropPlaceholder location
      pure (.error e) : ClusterM (Except Error Unit)).wp
      (fun r s' _ => r = .error e ∧ s' = mid.withCatalog (mid.cluster.catalog.remove location).2) mid := by
  have hp : mid.cluster.catalog.get location = some ⟨targets, size, none, s.now, 0⟩ := by
    rw [hcat, get_reserve h, if_pos rfl]
  rw [wp_bind]
  refine wp_mono (wp_dropPlaceholder hp rfl) fun _ s' t h1 => ?_
  rw [wp_pure]
  exact ⟨rfl, h1.1⟩

theorem wp_putCreate (payload : Bytes) :
    (putCreate location payload).wp (fun r s' t => CreateTo location payload s r s' (events t)) s := by
  unfold putCreate
  rw [wp_bind, selectTargets, wp_look]
  split
  · rw [wp_pure]
    exact .inr (.inr (.inl rfl))
  next hne =>
  rw [List.isEmpty_iff] at hne
  rw [wp_bind, catalogTryInsert, wp_step]
  cases hent : s.cluster.catalog.get location with
  | some e =>
    have hd : (s.cluster.catalog.tryInsert location (s.cluster.selectTargets location) payload.length s.now).1 = false := by
      rw [Catalog.tryInsert, hent]
    simp only [hd, Bool.not_false, if_true, wp_pure]
    exact .inr (.inr (.inr rfl))
  | none =>
    have hd : (s.cluster.catalog.tryInsert location (s.cluster.selectTargets location) payload.length s.now).1 = true := by
      rw [Catalog.tryInsert, hent]
    simp only [hd, Bool.not_true, Bool.false_eq_true, if_false]
    rw [wp_bind]
    generalize hs1 : s.tick.withCatalog _ = s1
    have hs1' : s.reserve location (s.cluster.selectTargets location) payload.length = s1 := hs1
    have hcfg : s1.cluster.config = s.cluster.config := by rw [← hs1]; rfl
    -- a failed create: whatever else happened, its placeholder is removed
    have hfail : ∀ (mid : Sys) (e : Error) (es : List Event), mid.cluster.catalog = s1.cluster.catalog →
        (WroteTo location payload s.cluster.config.minWrites true s1 (.error e) mid es ∨
          e = .noShards ∧ Landed s1 mid location { body := payload } []) →
        (do
          dropPlaceholder location
          pure (.error e) : ClusterM (Except Error Unit)).wp
          (fun r s' t => CreateTo location payload s r s' (es ++ events t)) mid := by
      intro mid e es hcat hmid
      rw [← hs1'] at hcat
      refine wp_mono (wp_giveUp hent hcat) fun r s' t h => ?_
      obtain ⟨rfl, rfl⟩ := h
      unfold CreateTo
      rw [hs1']
      exact .inl ⟨hent, hne, mid, hmid.imp (fun h => h.quiet _) (fun h => h), rfl⟩
    have hok : ∀ (mid : Sys) (placed : List ShardId) (es : List Event),
        WroteTo location payload s.cluster.config.minWrites true s1 (.ok placed) mid es →
        (recordPut location payload placed).wp (fun r s' t => CreateTo location payload s r s' (es ++ events t)) mid := by
      intro mid placed es hmid
      refine wp_mono wp_recordPut fun r s' t h => ?_
      obtain ⟨rfl, hrec, hputs⟩ := h
      unfold CreateTo
      rw [hs1']
      exact ⟨hent, mid, placed, ⟨⟨hmid.1.landed, fun x hx => (hmid.1.took x hx).after hputs⟩, hmid.2⟩, hrec⟩
    have hne1 : (s.cluster.selectTargets location).filter (· < s1.cluster.shards.length) ≠ [] := by
      rw [← hs1]
      exact Cluster.filter_selectTargets_ne hne
    have hloc : Landed s1 s1 location { body := payload } [] := .of_marked (.refl s1)
    refine wp_mono (wp_writeToShards (s.cluster.nodup_selectTargets location) hne1) fun r1 s2 t1 h1 => ?_
    rw [hcfg] at h1
    have h1' := h1.after hloc (events ([(s, Event.other, s)] ++ [(s, .inserted location true, s1)]))
    cases r1 with
    | ok placed =>
      refine wp_mono (hok s2 placed _ h1') fun r s3 t2 h2 => ?_
      simpa only [events_append, List.append_assoc] using h2
    | error e =>
      by_cases he : e.isInsufficientWrites
      · simp only [he, if_true]
        refine wp_mono (hfail s2 e _ h1'.catalog (.inl h1')) fun r s3 t2 h2 => ?_
        simpa only [events_append, List.append_assoc] using h2
      · simp only [he, if_false, Bool.false_eq_true]
        have hl := h1.landed he
        rw [wp_bind]
        refine wp_mono (wp_retryTargets _) fun o s3 t2 h2 => ?_
        obtain ⟨hm, -, ho⟩ := h2
        cases o with
        | none =>
          have hcat := (hl.marked hm).catalog
          refine wp_mono (hfail s3 .noShards (events ([(s, Event.other, s)] ++ ([(s, .inserted location true, s1)] ++
            (t1 ++ t2)))) hcat (.inr ⟨rfl, hl.marked hm⟩)) fun r s4 t3 h3 => ?_
          simpa only [events_append, List.append_assoc] using h3
        | some others =>
          obtain ⟨rfl, hne'⟩ := ho others rfl
          rw [wp_bind]
          refine wp_mono (wp_writeToShards (s3.cluster.nodup_selectTargets location)
            (Cluster.filter_selectTargets_ne hne')) fun r3 s4 t3 h3 => ?_
          rw [hm.config, hl.refs.config, hcfg] at h3
          have h3' := h3.after (hl.marked hm)
            (events ([(s, Event.other, s)] ++ ([(s, .inserted location true, s1)] ++ (t1 ++ t2))))
          cases r3 with
          | ok placed =>
            refine wp_mono (hok s4 placed _ h3') fun r s5 t4 h4 => ?_
            simpa only [events_append, List.append_assoc] using h4
          | error e =>
            refine wp_mono (hfail s4 e _ h3'.catalog (.inl h3')) fun r s5 t4 h4 => ?_
            simpa only [events_append, List.append_assoc] using h4

theorem wp_putOpts (payload : Bytes) (mode : PutMode) :
    (putOpts location payload mode).wp (fun r s' t =>
      PutTo location payload s r s' (events t) ∨ CreateTo location payload s r s' (events t) ∨
        r = .error (.precondition location)) s := by
  unfold putOpts
  rw [wp_bind, readOnly, wp_look]
  split
  · rw [wp_pure]
    exact .inl (.inr ⟨.inl rfl, .of_marked (.refl s)⟩)
  have hput : (put location payload).wp (fun r s' t =>
      PutTo location payload s r s' (events ([(s, Event.other, s)] ++ t))) s :=
    wp_mono (wp_put payload) fun r s' t h => by
      rw [events_append]
      exact h.before _
  cases mode with
  | overwrite => exact wp_mono hput fun r s' t h => .inl h
  | create =>
    refine wp_mono (wp_putCreate payload) fun r s' t h => .inr (.inl ?_)
    rw [events_append]
    exact h.before _
  | update eTag version =>
    dsimp only
    split
    · rw [wp_pure]
      exact .inr (.inr rfl)
    · exact wp_mono hput fun r s' t h => .inl h

/-! ## Acknowledged writes -/

/-- The entry of a key names enough different shards, each with the payload, and describes it. -/
structure OnQuorum (s : Sys) (location : Key) (payload : Bytes) (e : PlacementEntry) : Prop where
  listed : s.cluster.catalog.get location = some e
  nodup : e.shards.Nodup
  quorum : s.cluster.config.minWrites ≤ e.shards.length
  attached : ∀ x ∈ e.shards, s.cluster.storeRef x = some (s.cluster.config.storeOf x)
  stored : ∀ x ∈ e.shards, ∃ o, (s.stores (s.cluster.config.storeOf x)).objects.lookup location = some o ∧ o.body = payload
  size : e.size = payload.length
  crc : e.crc32c = some (crc32c payload)

/-- What is recorded after a write is on a quorum: dropping the marker touches neither the object nor
    its entry. -/
theorem Recorded.onQuorum {payload : Bytes} {mid : Sys} {es : List Event}
    (hw : WroteTo location payload s.cluster.config.minWrites true s (.ok placed) mid es)
    (hr : Recorded location payload placed mid s') :
    ∃ e, OnQuorum s' location payload e ∧ e.shards = placed ∧ s'.cluster.config = s.cluster.config := by
  obtain ⟨r, es2, hd⟩ := hr
  obtain ⟨⟨hl, -⟩, hmin⟩ := hw
  have hkeys : location ∉ [Path.fromStr (deleteMarkerKey location),
      metaSidecarPath (Path.fromStr (deleteMarkerKey location))] := by
    simp only [List.mem_cons, List.not_mem_nil, or_false, not_or]
    exact ⟨(marker_ne location).symm, (marker_sidecar_ne location).symm⟩
  have hcfg : s'.cluster.config = s.cluster.config := hd.deleted.config.trans hl.refs.config
  refine ⟨⟨placed, payload.length, some (crc32c payload), mid.now, 0⟩, ?_, rfl, hcfg⟩
  refine ⟨?_, hl.nodup, by rw [hcfg]; exact hmin, fun x hx => ?_, fun x hx => ?_, rfl, rfl⟩
  · rw [hd.catalog location (marker_ne location).symm]
    simp [Sys.record, Sys.withCatalog]
  · rw [hd.deleted.refs.storeRef, hcfg]
    exact (hl.refs.storeRef x).trans (hl.attached x hx)
  · obtain ⟨now, ho⟩ := hl.stored x hx
    rw [hcfg, hd.deleted.others _ _ hkeys]
    exact ⟨_, ho, rfl⟩

/-- The shard rejected the last write of the key it was sent. -/
def RejectedLast (c : Cluster) (location : Key) (es : List Event) (x : ShardId) : Prop :=
  ∃ e, (writesTo (c.config.storeOf x) location es).getLast? = some (some e)

/-- A write that was acknowledged is on a quorum, and on no shard that rejected it last. -/
def Acknowledged (location : Key) (payload : Bytes) (s : Sys) (s' : Sys) (es : List Event) : Prop :=
  ∃ e, OnQuorum s' location payload e ∧ ∀ x ∈ e.shards, ¬ RejectedLast s.cluster location es x

theorem Recorded.acknowledged {payload : Bytes} {s1 mid : Sys} {es : List Event}
    (hw : WroteTo location payload s1.cluster.config.minWrites true s1 (.ok placed) mid es)
    (hr : Recorded location payload placed mid s') (hcfg : s1.cluster.config = s.cluster.config) : Acknowledged location payload s s' es := by
  obtain ⟨e, hq, rfl, -⟩ := hr.onQuorum hw
  refine ⟨e, hq, fun x hx hrej => ?_⟩
  obtain ⟨err, herr⟩ := hrej
  have h1 := hw.1.took x hx
  unfold TookLast at h1
  rw [hcfg, herr] at h1
  cases h1

/-- An acknowledged `put` or `put_opts` is on a quorum that holds exactly the payload, without the shards
    that rejected it last; a `put` that fails leaves the key's entry alone. -/
theorem put_acknowledges_quorum (s : Sys) (location : Key) (payload : Bytes) :
    (put location payload).wp (fun r s' t => match r with
      | .ok _ => Acknowledged location payload s s' (events t)
      | .error _ => s'.cluster.catalog.get location = s.cluster.catalog.get location) s ∧
    ∀ mode, (putOpts location payload mode).wp (fun r s' t =>
      r = .ok () → Acknowledged location payload s s' (events t)) s := by
  refine ⟨wp_mono (wp_put payload) fun r s' t h => ?_, fun mode => wp_mono (wp_putOpts payload mode) fun r s' t h hr => ?_⟩
  · match r with
    | .ok _ =>
      obtain ⟨mid, placed, hw, hrec⟩ := h
      exact hrec.acknowledged hw rfl
    | .error e =>
      rcases h with h | ⟨-, h⟩
      · rw [h.catalog]
      · rw [h.catalog]
  · subst hr
    rcases h with ⟨mid, placed, hw, hrec⟩ | ⟨-, mid, placed, hw, hrec⟩ | h
    · exact hrec.acknowledged hw rfl
    · exact hrec.acknowledged hw rfl
    · cases h

end Writes

open Sample Raw.Sample in
/-- Two shards, one replica: each fails the first write it is sent. -/
def failingOnce : Sys := sys 2 (config 1 1) fun _ => Store.failing fresh .put [broken]

open Sample Raw.Sample in
/-- A shard that rejected the write of an earlier round may take that of a later one, and is listed then:
    the home shard fails and is offline, the retry on the other shard fails, and `put` tries that again. -/
theorem put_lists_shard_that_rejected : ¬ ∀ (s : Sys) (location : Key) (payload : Bytes),
    (put location payload).wp (fun r s' t => r = .ok () → ∀ e, s'.cluster.catalog.get location = some e →
      ∀ x ∈ e.shards, ∀ f ∈ writesTo (s.cluster.config.storeOf x) location (events t), f = none) s := by
  intro h
  have hok : ((put "k" [1, 2]).exec failingOnce).1 = .ok () := by decide +kernel
  have hget : ((put "k" [1, 2]).exec failingOnce).2.cluster.catalog.get "k" =
      some ⟨[0], 2, some 66625362, 0, 0⟩ := by decide +kernel
  have hrej : broken ∈ writesTo 0 "k" (events ((put "k" [1, 2]).steps failingOnce)) := by decide +kernel
  exact absurd (h failingOnce "k" [1, 2] hok _ hget 0 (by simp) broken hrej) (by decide)

end ObjStr.Sharded
