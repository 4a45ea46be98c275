/-
  ObjStr.Sharded.Fanout — what a fan-out write does, run alone: which shards take the object
  (`Landed`), how the others are marked, and what is cleaned up.

  Every round of a write goes to shards that are different from each other, and different
  shards have different stores: what one of them does is decided by its own next outcome.
-/

import ObjStr.Lib.Pick
import ObjStr.Sharded.Repair

namespace ObjStr.Sharded

open ObjStr.Lib ObjStr.Raw Proc

/-! ## Events of a run -/

def events (t : Steps Event Sys) : List Event := t.map (·.2.1)

@[simp] theorem events_nil : events [] = [] := rfl

@[simp] theorem events_append (t t' : Steps Event Sys) : events (t ++ t') = events t ++ events t' := List.map_append

def writesTo (id : StoreId) (key : Key) (es : List Event) : List (Option StoreError) :=
  es.filterMap fun e => match e with
    | .call id' .put key' f => if id' = id ∧ key' = key then some f else none
    | _ => none

@[simp] theorem writesTo_nil (id : StoreId) (key : Key) : writesTo id key [] = [] := rfl

@[simp] theorem writesTo_append (id : StoreId) (key : Key) (es es' : List Event) :
    writesTo id key (es ++ es') = writesTo id key es ++ writesTo id key es' := List.filterMap_append

/-! ## Frames -/

/-- Nothing but the health of shards, the clock and the counters changed. -/
structure Marked (s s' : Sys) : Prop where
  stores : s'.stores = s.stores
  catalog : s'.cluster.catalog = s.cluster.catalog
  config : s'.cluster.config = s.cluster.config
  attached : s'.cluster.shards.map (·.attached) = s.cluster.shards.map (·.attached)

theorem Marked.refl (s : Sys) : Marked s s := ⟨rfl, rfl, rfl, rfl⟩

theorem Marked.trans {s s' s'' : Sys} (h : Marked s s') (h' : Marked s' s'') : Marked s s'' :=
  ⟨h'.stores.trans h.stores, h'.catalog.trans h.catalog, h'.config.trans h.config, h'.attached.trans h.attached⟩

structure SameRefs (c c' : Cluster) : Prop where
  config : c'.config = c.config
  attached : c'.shards.map (·.attached) = c.shards.map (·.attached)

theorem SameRefs.refl (c : Cluster) : SameRefs c c := ⟨rfl, rfl⟩

theorem SameRefs.trans {c c' c'' : Cluster} (h : SameRefs c c') (h' : SameRefs c' c'') : SameRefs c c'' :=
  ⟨h'.config.trans h.config, h'.attached.trans h.attached⟩

theorem SameRefs.length {c c' : Cluster} (h : SameRefs c c') : c'.shards.length = c.shards.length := by
  have h1 := congrArg List.length h.attached
  simpa using h1

theorem SameRefs.storeRef {c c' : Cluster} (h : SameRefs c c') (id : ShardId) : c'.storeRef id = c.storeRef id := by
  have h1 : (c'.shards[id]?).any (·.attached) = (c.shards[id]?).any (·.attached) := by
    have h2 := congrArg (·[id]?) h.attached
    simp only [List.getElem?_map] at h2
    cases hc : c.shards[id]? <;> cases hc' : c'.shards[id]? <;> simp_all
  unfold Cluster.storeRef
  rw [h1, h.config]

theorem Marked.refs {s s' : Sys} (h : Marked s s') : SameRefs s.cluster s'.cluster := ⟨h.config, h.attached⟩

/-- A shard that is attached is one of the cluster's, and has its own store. -/
theorem Cluster.storeRef_eq_some {c : Cluster} {id : ShardId} {st : StoreId} (h : c.storeRef id = some st) :
    st = c.config.storeOf id ∧ id < c.shards.length := by
  unfold storeRef at h
  split at h
  · next ha =>
    refine ⟨(Option.some.inj h).symm, ?_⟩
    by_contra hn
    rw [List.getElem?_eq_none (Nat.le_of_not_lt hn)] at ha
    simp at ha
  · cases h

theorem attached_modify (l : List ShardInfo) (id : ShardId) (f : ShardInfo → ShardInfo) (hf : ∀ i, (f i).attached = i.attached) :
    (l.modify id f).map (·.attached) = l.map (·.attached) := by
  apply List.ext_getElem?
  intro x
  simp only [List.getElem?_map, List.getElem?_modify]
  cases l[x]? with
  | none => rfl
  | some i => by_cases hx : id = x <;> simp [hx, hf]

theorem ShardInfo.attached_setHealth (i : ShardInfo) (h : ShardHealth) (now : DateTime) :
    (i.setHealth h now).attached = i.attached := by
  unfold setHealth
  split
  · split <;> rfl
  · split <;> rfl

theorem marked_setShardHealth (s : Sys) (id : ShardId) (h : ShardHealth) (now : DateTime) :
    Marked s { s.tick with cluster := s.cluster.setShardHealth id h now } :=
  ⟨rfl, rfl, rfl, attached_modify _ _ _ fun i => i.attached_setHealth h now⟩

/-! ## One round -/

def Sys.answer (s : Sys) (id : ShardId) : Except StoreError Unit :=
  match s.cluster.storeRef id with
  | none => .error (.backend false)
  | some st =>
    match (s.stores st).outcome .put with
    | some e => .error e
    | none => .ok ()

def Sys.accepts (s : Sys) (id : ShardId) : Bool := (failure (s.answer id)).isNone

theorem Sys.accepts_none {s : Sys} {id : ShardId} (h : s.cluster.storeRef id = none) : s.accepts id = false := by
  unfold accepts answer
  rw [h]
  rfl

theorem Sys.accepts_some {s : Sys} {id : ShardId} {st : StoreId} (h : s.cluster.storeRef id = some st) :
    s.accepts id = ((s.stores st).outcome .put).isNone := by
  unfold accepts answer
  rw [h]
  dsimp only
  cases (s.stores st).outcome .put <;> rfl

theorem Sys.attached_of_accepts {s : Sys} {id : ShardId} (h : s.accepts id = true) :
    s.cluster.storeRef id = some (s.cluster.config.storeOf id) := by
  unfold accepts answer at h
  cases hr : s.cluster.storeRef id with
  | none => simp [hr, failure] at h
  | some st => rw [(Cluster.storeRef_eq_some hr).1]

def Sys.written (s : Sys) (ids : List ShardId) (location : Key) (up : Upload) : Sys :=
  { s with stores := fun st => if some st ∈ ids.map s.cluster.storeRef then ((s.stores st).put location up).2 else s.stores st }

def Sys.writeEvents (s : Sys) (ids : List ShardId) (location : Key) : List Event :=
  ids.filterMap fun id => (s.cluster.storeRef id).map fun st => .call st .put location (failure (s.answer id))

theorem Store.put_answer (st : Store) (location : Key) (up : Upload) :
    (st.put location up).1 = match st.outcome .put with
      | some e => .error e
      | none => .ok () := by
  unfold Store.put
  cases st.outcome .put <;> rfl

/-- One more shard of a round: the others have not touched its store. -/
theorem Sys.written_cons {s : Sys} {done : List ShardId} {id : ShardId} {st : StoreId} (location : Key) (up : Upload)
    (hr : s.cluster.storeRef id = some st) (hnew : id ∉ done) :
    (s.written done location up).stores st = s.stores st ∧
      s.written (done ++ [id]) location up =
        { s.written done location up with
          stores := Function.update (s.written done location up).stores st ((s.stores st).put location up).2 } := by
  have hst : some st ∉ done.map s.cluster.storeRef := by
    intro hm
    obtain ⟨id', hid', hr'⟩ := List.mem_map.mp hm
    have h1 := (Cluster.storeRef_eq_some hr).1
    have h2 := (Cluster.storeRef_eq_some hr').1
    exact hnew (s.cluster.config.storeOf.injective (h1.symm.trans h2) ▸ hid')
  refine ⟨by simp only [written, if_neg hst], ?_⟩
  unfold written
  congr 1
  funext st'
  by_cases h : st' = st
  · subst h
    simp [hr]
  · have h' : some st' ≠ s.cluster.storeRef id := fun he => h (Option.some.inj (he.trans hr))
    simp [Function.update_of_ne h, h', or_false]

theorem Sys.written_placeholder {s : Sys} {done : List ShardId} {id : ShardId} {location : Key} {up : Upload}
    (hr : s.cluster.storeRef id = none) : s.written (done ++ [id]) location up = s.written done location up := by
  unfold written
  congr 1
  funext st
  simp [hr]

/-- A round: each shard answers for itself. -/
theorem wp_fanOut {s : Sys} {ids : List ShardId} (hnd : ids.Nodup) (location : Key) (up : Upload) :
    (fanOut (ids.map fun id => (id, s.cluster.storeRef id)) location up).wp
      (fun o s' t => o = ids.map (fun id => (id, s.answer id)) ∧ s' = s.written ids location up ∧
        events t = s.writeEvents ids location) s := by
  unfold fanOut
  rw [List.map_map]
  refine wp_joinAll (fun done o s' t => o = done.map (fun id => (id, s.answer id)) ∧ s' = s.written done location up ∧
    events t = s.writeEvents done location) ⟨rfl, by simp [Sys.written], rfl⟩ ?_ (fun _ _ _ h => h)
  rintro done id rest hl o s' t ⟨rfl, rfl, ht⟩
  have hnew : id ∉ done := by
    rw [hl] at hnd
    exact fun h => (List.nodup_append.mp hnd).2.2 id h id List.mem_cons_self rfl
  simp only [Function.comp_apply]
  rw [wp_bind]
  cases hr : s.cluster.storeRef id with
  | none =>
    simp only [StoreRef.put, StoreRef.call, wp_pure, List.append_nil, Sys.written_placeholder hr]
    exact ⟨by simp [Sys.answer, hr], trivial, by simp [ht, Sys.writeEvents, hr]⟩
  | some st =>
    obtain ⟨hst, hw⟩ := Sys.written_cons location up hr hnew
    simp only [StoreRef.put, StoreRef.call, onStore, wp_step, wp_pure, hst]
    have ha : ((s.stores st).put location up).1 = s.answer id := by
      rw [Store.put_answer, Sys.answer, hr]
    rw [ha, hw]
    refine ⟨by simp, rfl, ?_⟩
    rw [events_append, ht, Sys.writeEvents, Sys.writeEvents, List.filterMap_append]
    simp [hr, events]

theorem accepted_map (f : ShardId → Except StoreError Unit) (ids : List ShardId) :
    Outcomes.accepted (ids.map fun id => (id, f id)) = ids.filter fun id => (failure (f id)).isNone := by
  unfold Outcomes.accepted
  rw [List.filter_map, List.map_map]
  exact List.map_id' _

theorem rejected_map (f : ShardId → Except StoreError Unit) (ids : List ShardId) :
    Outcomes.rejected (ids.map fun id => (id, f id)) = ids.filter fun id => !(failure (f id)).isNone := by
  unfold Outcomes.rejected
  rw [List.filter_map, List.map_map]
  refine (List.map_id' _).trans (List.filter_congr fun id _ => ?_)
  simp

theorem accepted_answers (s : Sys) (ids : List ShardId) :
    Outcomes.accepted (ids.map fun id => (id, s.answer id)) = ids.filter fun id => s.accepts id := accepted_map s.answer ids

theorem rejected_answers (s : Sys) (ids : List ShardId) :
    Outcomes.rejected (ids.map fun id => (id, s.answer id)) = ids.filter fun id => !s.accepts id := rejected_map s.answer ids

/-! ## Where the object landed -/

/-- The object is on the shards `placed`, and nothing else in the stores changed. -/
structure Landed (s s' : Sys) (location : Key) (up : Upload) (placed : List ShardId) : Prop where
  refs : SameRefs s.cluster s'.cluster
  catalog : s'.cluster.catalog = s.cluster.catalog
  nodup : placed.Nodup
  attached : ∀ x ∈ placed, s.cluster.storeRef x = some (s.cluster.config.storeOf x)
  stored : ∀ x ∈ placed, ∃ now, (s'.stores (s.cluster.config.storeOf x)).objects.lookup location =
    some ⟨up.body, up.metadata, up.attributes, now⟩
  kept : ∀ st, (∀ x ∈ placed, st ≠ s.cluster.config.storeOf x) → (s'.stores st).objects = (s.stores st).objects
  others : ∀ st k, k ≠ location → (s'.stores st).objects.lookup k = (s.stores st).objects.lookup k
  calls : ∀ st c, c ≠ .put → (s'.stores st).outcomes c = (s.stores st).outcomes c

variable {s s' s'' : Sys} {location : Key} {up : Upload} {placed : List ShardId}

theorem Landed.marked (h : Landed s s' location up placed) (hm : Marked s' s'') : Landed s s'' location up placed where
  refs := h.refs.trans hm.refs
  catalog := hm.catalog.trans h.catalog
  nodup := h.nodup
  attached := h.attached
  stored := by rw [hm.stores]; exact h.stored
  kept := by rw [hm.stores]; exact h.kept
  others := by rw [hm.stores]; exact h.others
  calls := by rw [hm.stores]; exact h.calls

/-- A write that nobody took, and then another one. -/
theorem Landed.after (h : Landed s s' location up []) (h' : Landed s' s'' location up placed) :
    Landed s s'' location up placed where
  refs := h.refs.trans h'.refs
  catalog := h'.catalog.trans h.catalog
  nodup := h'.nodup
  attached := fun x hx => by rw [← h.refs.storeRef, h'.attached x hx, h.refs.config]
  stored := by
    have h1 := h'.stored
    rw [h.refs.config] at h1
    exact h1
  kept := fun st hst => by
    have h1 := h'.kept st
    rw [h.refs.config] at h1
    exact (h1 hst).trans (h.kept st (by simp))
  others := fun st k hk => (h'.others st k hk).trans (h.others st k hk)
  calls := fun st c hc => (h'.calls st c hc).trans (h.calls st c hc)

theorem Store.objects_put (st : Store) (location : Key) (up : Upload) :
    (st.put location up).2.objects = match st.outcome .put with
      | some _ => st.objects
      | none => st.objects.insert location ⟨up.body, up.metadata, up.attributes, st.clock.headD 0⟩ := by
  unfold Store.put
  cases st.outcome .put <;> rfl

theorem Store.lookup_put_ne (st : Store) (location : Key) (up : Upload) {k : Key} (hk : k ≠ location) :
    (st.put location up).2.objects.lookup k = st.objects.lookup k := by
  rw [Store.objects_put]
  cases st.outcome .put with
  | some e => rfl
  | none => exact AList.lookup_insert_ne hk

theorem Store.outcomes_put (st : Store) (key : Key) (up : Upload) (c : Call) :
    (st.put key up).2.outcomes c = if c = .put then (st.outcomes .put).tail else st.outcomes c := by
  have hn : (st.next .put).outcomes c = if c = .put then (st.outcomes .put).tail else st.outcomes c := by
    by_cases h : c = .put
    · subst h
      simp [Store.next]
    · simp [Store.next, h]
  unfold Store.put
  cases st.outcome .put <;> exact hn

/-- A round lands on the shards that take the write. -/
theorem landed_written {ids : List ShardId} (hnd : ids.Nodup) :
    Landed s (s.written ids location up) location up (ids.filter fun id => s.accepts id) where
  refs := .refl _
  catalog := rfl
  nodup := hnd.filter _
  attached := fun x hx => Sys.attached_of_accepts (List.mem_filter.mp hx).2
  stored := fun x hx => by
    obtain ⟨hx, ha⟩ := List.mem_filter.mp hx
    have hr := Sys.attached_of_accepts ha
    have ho : (s.stores (s.cluster.config.storeOf x)).outcome .put = none := by
      unfold Sys.accepts Sys.answer at ha
      rw [hr] at ha
      cases h : (s.stores (s.cluster.config.storeOf x)).outcome .put with
      | none => rfl
      | some e => simp [h, failure] at ha
    have hm : some (s.cluster.config.storeOf x) ∈ ids.map s.cluster.storeRef := List.mem_map.mpr ⟨x, hx, hr⟩
    refine ⟨(s.stores (s.cluster.config.storeOf x)).clock.headD 0, ?_⟩
    simp only [Sys.written, if_pos hm, Store.objects_put, ho]
    exact AList.lookup_insert _
  kept := fun st hst => by
    by_cases hm : some st ∈ ids.map s.cluster.storeRef
    · obtain ⟨x, hx, hr⟩ := List.mem_map.mp hm
      obtain ⟨rfl, -⟩ := Cluster.storeRef_eq_some hr
      have ha : ¬ s.accepts x = true := fun ha => hst x (List.mem_filter.mpr ⟨hx, ha⟩) rfl
      have ho : ∃ e, (s.stores (s.cluster.config.storeOf x)).outcome .put = some e := by
        unfold Sys.accepts Sys.answer at ha
        rw [hr] at ha
        cases h : (s.stores (s.cluster.config.storeOf x)).outcome .put with
        | none => simp [h, failure] at ha
        | some e => exact ⟨e, rfl⟩
      obtain ⟨e, he⟩ := ho
      simp only [Sys.written, if_pos hm, Store.objects_put, he]
    · simp only [Sys.written, if_neg hm]
  others := fun st k hk => by
    unfold Sys.written
    dsimp only
    split
    · exact Store.lookup_put_ne _ _ _ hk
    · rfl
  calls := fun st c hc => by
    unfold Sys.written
    dsimp only
    split
    · rw [Store.outcomes_put, if_neg hc]
    · rfl

/-- What the stores of a round answered. -/
theorem writesTo_writeEvents {ids : List ShardId} (hnd : ids.Nodup) {x : ShardId} (hx : x ∈ ids)
    (hr : s.cluster.storeRef x = some (s.cluster.config.storeOf x)) :
    writesTo (s.cluster.config.storeOf x) location (s.writeEvents ids location) = [failure (s.answer x)] := by
  have hother : ∀ l : List ShardId, x ∉ l → writesTo (s.cluster.config.storeOf x) location (s.writeEvents l location) = [] := by
    intro l hl
    rw [writesTo, List.filterMap_eq_nil_iff]
    intro e he
    obtain ⟨y, hy, hey⟩ := List.mem_filterMap.mp he
    obtain ⟨st, hst, rfl⟩ := Option.map_eq_some_iff.mp hey
    obtain ⟨rfl, -⟩ := Cluster.storeRef_eq_some hst
    have hne : s.cluster.config.storeOf y ≠ s.cluster.config.storeOf x := fun h =>
      hl (s.cluster.config.storeOf.injective h ▸ hy)
    simp [hne]
  obtain ⟨l, l', rfl⟩ := List.append_of_mem hx
  have hnd' := List.nodup_append.mp hnd
  have h1 : x ∉ l := fun h => hnd'.2.2 x h x List.mem_cons_self rfl
  have h2 : x ∉ l' := (List.nodup_cons.mp hnd'.2.1).1
  have hsplit : s.writeEvents (l ++ x :: l') location = s.writeEvents l location ++
      ([.call (s.cluster.config.storeOf x) .put location (failure (s.answer x))] ++ s.writeEvents l' location) := by
    simp [Sys.writeEvents, hr]
  rw [hsplit, writesTo_append, writesTo_append, hother l h1, hother l' h2]
  simp [writesTo]

/-! ## Choosing and marking -/

theorem Cluster.mem_writable_lt {c : Cluster} {x : ShardId} (h : c.writable x = true) : x < c.shards.length := by
  by_contra hn
  have h1 : c.shards[x]? = none := List.getElem?_eq_none (Nat.le_of_not_lt hn)
  simp [writable, healthOf, h1] at h

section Selection

variable [Crates]

/-- The targets are different shards. -/
theorem Cluster.nodup_selectTargets (c : Cluster) (path : Key) : (c.selectTargets path).Nodup := by
  unfold selectTargets
  dsimp only
  split
  · exact List.nodup_range.filter _
  · exact nodup_pick (nodup_clockwise c.shards.length (c.home path)) _ _

/-- The targets are writable shards of the cluster. -/
theorem Cluster.writable_of_mem_selectTargets {c : Cluster} {path : Key} {x : ShardId} (h : x ∈ c.selectTargets path) :
    c.writable x = true := by
  unfold selectTargets at h
  dsimp only at h
  split at h
  · exact (List.mem_filter.mp h).2
  · exact (List.mem_filter.mp (List.mem_of_mem_take h)).2

theorem Cluster.filter_selectTargets (c : Cluster) (path : Key) :
    (c.selectTargets path).filter (· < c.shards.length) = c.selectTargets path :=
  List.filter_eq_self.mpr fun _ hx => decide_eq_true (mem_writable_lt (writable_of_mem_selectTargets hx))

theorem Cluster.filter_selectTargets_ne {c : Cluster} {path : Key} (h : c.selectTargets path ≠ []) :
    (c.selectTargets path).filter (· < c.shards.length) ≠ [] := by
  rw [filter_selectTargets]
  exact h

/-- Nothing was called and nothing in the catalog changed. -/
def Quiet (es : List Event) : Prop := ∀ e ∈ es, e = .other

omit [Crates] in
theorem Quiet.append {es es' : List Event} (h : Quiet es) (h' : Quiet es') : Quiet (es ++ es') := fun e he =>
  (List.mem_append.mp he).elim (h e) (h' e)

omit [Crates] in
theorem wp_look {α : Type} (f : Sys → α) {Q : α → Sys → Steps Event Sys → Prop} :
    (look f).wp Q s ↔ Q (f s) s [(s, .other, s)] := Iff.rfl

omit [Crates] in
theorem wp_setShardHealth (id : ShardId) (h : ShardHealth) :
    (setShardHealth id h).wp (fun _ s' t => Marked s s' ∧ Quiet (events t)) s :=
  ⟨marked_setShardHealth s id h s.now, by simp [Quiet, events, setShardHealth, step, steps]⟩

omit [Crates] in
/-- A loop that only marks shards. -/
theorem wp_markAll {l : List ShardId} {f : ShardId → ClusterM PUnit}
    (hf : ∀ x s, (f x).wp (fun _ s' t => Marked s s' ∧ Quiet (events t)) s) :
    (l.forM f).wp (fun _ s' t => Marked s s' ∧ Quiet (events t)) s := by
  refine wp_forM (fun _ s' t => Marked s s' ∧ Quiet (events t)) ⟨.refl s, by simp [Quiet]⟩ ?_ (fun _ _ h => h)
  rintro _ x _ _ s1 t ⟨h1, h2⟩
  refine wp_mono (hf x s1) fun _ s2 t2 h => ⟨h1.trans h.1, ?_⟩
  rw [events_append]
  exact h2.append h.2

theorem wp_markWriteFailures (placed failed tried : List ShardId) (location : Key) :
    (markWriteFailures placed failed tried location).wp
      (fun ids s' t => Marked s s' ∧ Quiet (events t) ∧ ids.Nodup ∧
        ids = if placed.isEmpty && !failed.isEmpty then
          (s'.cluster.selectTargets location).filter (fun x => !tried.contains x) else []) s := by
  unfold markWriteFailures
  split
  · rw [wp_bind]
    refine wp_mono (wp_markAll fun x s => wp_setShardHealth x _) fun _ s1 t1 h1 => ?_
    rw [wp_bind, selectTargets, wp_look, wp_pure]
    refine ⟨h1.1, ?_, (s1.cluster.nodup_selectTargets location).filter _, rfl⟩
    rw [events_append]
    exact h1.2.append (by simp [Quiet, events])
  · split
    · rw [wp_bind]
      refine wp_mono (wp_markAll fun x s => ?_) fun _ s1 t1 h1 => ?_
      · rw [wp_bind, shardHealth, wp_look]
        split
        · refine wp_mono (wp_setShardHealth x _) fun _ s' t h => ⟨h.1, ?_⟩
          rw [events_append]
          exact Quiet.append (by simp [Quiet, events]) h.2
        · rw [wp_pure]
          exact ⟨.refl s, by simp [Quiet, events]⟩
      · rw [wp_pure]
        exact ⟨h1.1, by simpa using h1.2, List.nodup_nil, rfl⟩
    · rw [wp_pure]
      exact ⟨.refl s, by simp [Quiet], List.nodup_nil, rfl⟩

end Selection

end ObjStr.Sharded
