/-
  ObjStr.Sharded.Races — puts of one key that run at the same time, in any order of their steps.

  A put writes its shards without a lock or a version, then overwrites the entry. So each
  shard holds what reached it last, and the entry is that of the put which updated it last:
  these agree when the last one to update the entry was also the last one on each shard
  (`puts_agree`), and only then if the payloads can be told apart. Two puts can pass each other
  between the shards (`two_puts_cross`).
-/

import ObjStr.Sharded.Aside
import ObjStr.Sharded.Sample

namespace ObjStr.Sharded

open ObjStr.Lib ObjStr.Raw Proc

/-! ## The last event of a kind -/

section Last

variable {ι : Type}

def lastOf (p : Event → Bool) (tr : List (ι × Event)) : Option (ι × Event) := (tr.filter fun x => p x.2).getLast?

@[simp] theorem lastOf_nil (p : Event → Bool) : lastOf p ([] : List (ι × Event)) = none := rfl

theorem lastOf_append (p : Event → Bool) (tr : List (ι × Event)) (x : ι × Event) :
    lastOf p (tr ++ [x]) = if p x.2 then some x else lastOf p tr := by
  unfold lastOf
  rw [List.filter_append]
  by_cases h : p x.2 = true
  · simp [h]
  · simp [h]

theorem mem_of_lastOf {p : Event → Bool} {tr : List (ι × Event)} {x : ι × Event} (h : lastOf p tr = some x) :
    x ∈ tr ∧ p x.2 = true := by
  have h1 := List.mem_of_getLast? h
  exact ⟨(List.mem_filter.mp h1).1, (List.mem_filter.mp h1).2⟩

theorem exists_lastOf {p : Event → Bool} {tr : List (ι × Event)} {x : ι × Event} (h : x ∈ tr) (hp : p x.2 = true) :
    ∃ y, lastOf p tr = some y := by
  have h1 : x ∈ tr.filter fun x => p x.2 := List.mem_filter.mpr ⟨h, hp⟩
  refine Option.ne_none_iff_exists'.mp fun hn => ?_
  rw [lastOf, List.getLast?_eq_none_iff] at hn
  rw [hn] at h1
  cases h1

def isWrite (k : Key) (st : StoreId) (e : Event) : Bool := e = .call st .put k none

def isRecord (k : Key) : Event → Bool
  | .recorded key _ => key = k
  | _ => false

theorem Event.not_about {k : Key} {l : Event} (h : ¬ l.About k) : (∀ st, isWrite k st l = false) ∧ isRecord k l = false := by
  cases l with
  | call st' kind key f =>
    refine ⟨fun st => ?_, rfl⟩
    simp only [isWrite, decide_eq_false_iff_not]
    intro he
    cases he
    exact h ⟨rfl, .inl rfl⟩
  | recorded key e =>
    refine ⟨fun st => by simp [isWrite], ?_⟩
    simpa [isRecord, Event.About] using h
  | _ => exact ⟨fun st => by simp [isWrite], rfl⟩

end Last

/-! ## What holds while the puts run -/

section Puts

variable [Crates] {ι : Type} (s0 : Sys) (k : Key) (v : ι → Bytes)

/-- Every shard that a put of the key goes to takes every write. -/
structure Willing : Prop where
  attached : ∀ x ∈ s0.cluster.selectTargets k, s0.cluster.storeRef x ≠ none
  calm : ∀ st, ∀ f ∈ (s0.stores st).outcomes .put, f = none

/-- What holds in every state: each store has what reached it last, and the entry is the last one
    recorded. -/
structure Racing (s : Sys) (tr : List (ι × Event)) : Prop where
  config : s.cluster.config = s0.cluster.config
  shards : s.cluster.shards = s0.cluster.shards
  calm : ∀ st, ∀ f ∈ (s.stores st).outcomes .put, f = none
  placed : ∀ i st, (i, Event.call st .put k none) ∈ tr → ∃ x ∈ s0.cluster.selectTargets k, s0.cluster.config.storeOf x = st
  records : ∀ i e, (i, Event.recorded k e) ∈ tr → e.shards = s0.cluster.selectTargets k ∧ e.size = (v i).length ∧
    e.crc32c = some (crc32c (v i)) ∧
    ∀ x ∈ s0.cluster.selectTargets k, (i, Event.call (s0.cluster.config.storeOf x) .put k none) ∈ tr
  stored : s0.cluster.config.minWrites ≤ (s0.cluster.selectTargets k).length →
    ∀ st i e, lastOf (isWrite k st) tr = some (i, e) → ∃ o, (s.stores st).objects.lookup k = some o ∧ o.body = v i
  entry : ∀ i e, lastOf (isRecord k) tr = some (i, .recorded k e) → s.cluster.catalog.get k = some e

variable {s0 k v} {i : ι} {s s' : Sys} {tr : List (ι × Event)}

theorem Racing.selectTargets (h : Racing s0 k v s tr) : s.cluster.selectTargets k = s0.cluster.selectTargets k := by
  unfold Cluster.selectTargets Cluster.writable Cluster.home Cluster.healthOf
  rw [h.config, h.shards]

theorem Racing.storeRef (h : Racing s0 k v s tr) (x : ShardId) : s.cluster.storeRef x = s0.cluster.storeRef x := by
  unfold Cluster.storeRef
  rw [h.config, h.shards]

/-- Steps that mark no shard, and do not concern the key unless the put cannot succeed. -/
theorem Racing.apart {l : Event} (h : Racing s0 k v s tr) (hu : Unmarked s s')
    (hl : ∀ st, isWrite k st l = false) (hr : isRecord k l = false) (hentry : s'.cluster.catalog.get k = s.cluster.catalog.get k)
    (hobj : s0.cluster.config.minWrites ≤ (s0.cluster.selectTargets k).length →
      ∀ st, (s'.stores st).objects.lookup k = (s.stores st).objects.lookup k) : Racing s0 k v s' (tr ++ [(i, l)]) := by
  have hnew : ∀ j st, (j, Event.call st .put k none) ∈ tr ++ [(i, l)] → (j, Event.call st .put k none) ∈ tr := by
    intro j st hm
    rcases List.mem_append.mp hm with hm | hm
    · exact hm
    · simp only [List.mem_singleton, Prod.mk.injEq] at hm
      have h1 := hl st
      rw [← hm.2] at h1
      simp [isWrite] at h1
  refine ⟨hu.config.trans h.config, hu.shards.trans h.shards, fun st => ?_, fun j st hm => h.placed j st (hnew j st hm),
    fun j e hm => ?_, fun hmin st j e hlast => ?_, fun j e hlast => ?_⟩
  · rw [hu.puts]
    exact h.calm st
  · rcases List.mem_append.mp hm with hm | hm
    · obtain ⟨h1, h2, h3, h4⟩ := h.records j e hm
      exact ⟨h1, h2, h3, fun x hx => List.mem_append_left _ (h4 x hx)⟩
    · simp only [List.mem_singleton, Prod.mk.injEq] at hm
      rw [← hm.2] at hr
      simp [isRecord] at hr
  · rw [lastOf_append, if_neg (by simp [hl st])] at hlast
    rw [hobj hmin]
    exact h.stored hmin st j e hlast
  · rw [lastOf_append, if_neg (by simp [hr])] at hlast
    rw [hentry]
    exact h.entry j e hlast

theorem Racing.aside {l : Event} (h : Racing s0 k v s tr) (ha : Apart k s l s') : Racing s0 k v s' (tr ++ [(i, l)]) :=
  h.apart ha.2 (Event.not_about ha.1.label).1 (Event.not_about ha.1.label).2 ha.1.entry fun _ => ha.1.objects

/-! ## One put -/

theorem Racing.look (s : Sys) (t : List (ι × Event)) (h : Racing s0 k v s t) : Racing s0 k v s (t ++ [(i, .other)]) :=
  h.aside ⟨.refl s, .refl s⟩

theorem Racing.write (h : Racing s0 k v s tr) {x : ShardId} (hx : x ∈ s0.cluster.selectTargets k)
    (hnone : (s.stores (s0.cluster.config.storeOf x)).outcome .put = none) :
    Racing s0 k v { s with
        stores := Function.update s.stores (s0.cluster.config.storeOf x)
          (Store.put k { body := v i } (s.stores (s0.cluster.config.storeOf x))).2 }
      (tr ++ [(i, .call (s0.cluster.config.storeOf x) .put k none)]) := by
  have hobj := (s.stores (s0.cluster.config.storeOf x)).objects_put k { body := v i }
  rw [hnone] at hobj
  refine ⟨h.config, h.shards, fun st f hf => ?_, fun j st hm => ?_, fun j e hm => ?_, fun hmin st j e hlast => ?_,
    fun j e hlast => ?_⟩
  · by_cases hst : st = s0.cluster.config.storeOf x
    · subst hst
      simp only [Function.update_self, Store.outcomes_put, if_true] at hf
      exact h.calm _ f (List.mem_of_mem_tail hf)
    · simp only [Function.update_of_ne hst] at hf
      exact h.calm st f hf
  · rcases List.mem_append.mp hm with hm | hm
    · exact h.placed j st hm
    · simp only [List.mem_singleton, Prod.mk.injEq, Event.call.injEq, and_true] at hm
      exact ⟨x, hx, hm.2.symm⟩
  · rcases List.mem_append.mp hm with hm | hm
    · obtain ⟨h1, h2, h3, h4⟩ := h.records j e hm
      exact ⟨h1, h2, h3, fun y hy => List.mem_append_left _ (h4 y hy)⟩
    · simp at hm
  · rw [lastOf_append] at hlast
    by_cases hst : st = s0.cluster.config.storeOf x
    · subst hst
      rw [if_pos (by simp [isWrite])] at hlast
      cases hlast
      simp only [Function.update_self]
      rw [hobj]
      exact ⟨_, AList.lookup_insert _, rfl⟩
    · rw [if_neg (by simp [isWrite, Ne.symm hst])] at hlast
      simp only [Function.update_of_ne hst]
      exact h.stored hmin st j e hlast
  · rw [lastOf_append, if_neg (by simp [isRecord])] at hlast
    exact h.entry j e hlast

/-- A write to one of the shards. -/
theorem safe_write (hw : Willing s0 k) {x : ShardId} (hx : x ∈ s0.cluster.selectTargets k) :
    Safe (fun _ => False) (Racing s0 k v) i
      (do let r ← (s0.cluster.storeRef x).put k { body := v i }; pure (x, r) : ClusterM _)
      (fun a t => a = (x, .ok ()) ∧ (i, Event.call (s0.cluster.config.storeOf x) .put k none) ∈ t) tr := by
  obtain ⟨st, hst⟩ := Option.ne_none_iff_exists'.mp (hw.attached x hx)
  obtain rfl := (Cluster.storeRef_eq_some hst).1
  rw [hst]
  refine safe_bind (R := fun r t => r = .ok () ∧ (i, Event.call (s0.cluster.config.storeOf x) .put k none) ∈ t) ?_ ?_
  · refine safe_step fun s t _ h => ?_
    have hnone : (s.stores (s0.cluster.config.storeOf x)).outcome .put = none := by
      unfold Store.outcome
      cases ho : (s.stores (s0.cluster.config.storeOf x)).outcomes .put with
      | nil => rfl
      | cons f l =>
        have h1 := h.calm (s0.cluster.config.storeOf x) f (by simp [ho])
        rw [h1]
        rfl
    have hput : (Store.put k { body := v i } (s.stores (s0.cluster.config.storeOf x))).1 = .ok () := by
      unfold Store.put
      rw [hnone]
    dsimp only
    rw [hput]
    exact ⟨h.write hx hnone, fun t' ht' => ⟨rfl, ht'.mem (by simp [failure])⟩⟩
  · intro r t hr
    exact safe_pure fun t' ht' => ⟨by rw [hr.1], ht'.mem hr.2⟩

omit [Crates] in
theorem forall₂_map {α β : Type} {g : α → β} {P : α → Prop} {l : List α} {as : List β}
    (h : List.Forall₂ (fun x a => a = g x ∧ P x) l as) : as = l.map g ∧ ∀ x ∈ l, P x := by
  induction h with
  | nil => simp
  | cons h _ ih => exact ⟨by rw [List.map_cons, ← ih.1, h.1], List.forall_mem_cons.mpr ⟨h.2, ih.2⟩⟩

/-- The clean-up runs only when the put has too few targets. -/
theorem safe_cleanup (hmin : ¬ s0.cluster.config.minWrites ≤ (s0.cluster.selectTargets k).length) (placed : List ShardId) :
    Safe (fun _ => False) (Racing s0 k v) i (cleanupOrphanedWrites k placed) (fun _ _ => True) tr := by
  refine (deletes_cleanupOrphanedWrites k placed).safe (fun _ _ _ _ h => h) fun s l s' t hd h => ?_
  have hu : Unmarked s s' := ⟨by rw [hd.cluster], by rw [hd.cluster], hd.puts⟩
  have hl : (∀ st, isWrite k st l = false) ∧ isRecord k l = false := by
    rcases hd.label with rfl | ⟨st, key, f, rfl⟩
    · exact ⟨fun st => by simp [isWrite], rfl⟩
    · exact ⟨fun st => by simp [isWrite], rfl⟩
  exact h.apart hu hl.1 hl.2 (by rw [hd.cluster]) fun h' => absurd h' hmin

/-- All the shards take the write; it is an error if they are too few. -/
theorem safe_writeToShards (hw : Willing s0 k) :
    Safe (fun _ => False) (Racing s0 k v) i (writeToShards k (v i) (s0.cluster.selectTargets k))
      (fun r t => (r = .ok (s0.cluster.selectTargets k) ∧
          s0.cluster.config.minWrites ≤ (s0.cluster.selectTargets k).length ∧
          ∀ x ∈ s0.cluster.selectTargets k, (i, Event.call (s0.cluster.config.storeOf x) .put k none) ∈ t) ∨
        ∃ e, r = .error e ∧ e.isInsufficientWrites = true) tr := by
  unfold writeToShards writeToShardsInner
  refine safe_bind (safe_look Racing.look (Q := fun m => m = s0.cluster.config.minWrites) fun s t h => by rw [h.config]) ?_
  rintro m t1 rfl
  refine safe_bind (safe_look Racing.look
    (Q := fun l => l = (s0.cluster.selectTargets k).map fun x => (x, s0.cluster.storeRef x)) fun s t h => ?_) ?_
  · rw [← h.selectTargets, Cluster.filter_selectTargets]
    exact List.map_congr_left fun x _ => by rw [h.storeRef]
  rintro stores t2 rfl
  have hfan : Safe (fun _ => False) (Racing s0 k v) i
      (fanOut ((s0.cluster.selectTargets k).map fun x => (x, s0.cluster.storeRef x)) k { body := v i })
      (fun os t => List.Forall₂ (fun x a => a = (x, .ok ()) ∧
        (i, Event.call (s0.cluster.config.storeOf x) .put k none) ∈ t) (s0.cluster.selectTargets k) os) t2 := by
    unfold fanOut
    rw [List.map_map]
    refine safe_joinAll (fun x _ => ?_) (fun x hx => safe_write hw hx) fun x a t t' h ht => ⟨h.1, ht.mem h.2⟩
    exact only_bind (only_call fun id => only_step fun _ h => h) fun _ => only_pure _
  refine safe_bind hfan fun os t3 hos => ?_
  obtain ⟨hos', hmem⟩ := forall₂_map hos
  have hacc : os.accepted = s0.cluster.selectTargets k := by
    rw [hos', Outcomes.accepted, List.filter_eq_self.mpr (by simp [failure]), List.map_map]
    exact List.map_id _
  have hrej : os.rejected = [] := by
    rw [hos', Outcomes.rejected, List.filter_eq_nil_iff.mpr (by simp [failure])]
    rfl
  rw [hacc, hrej]
  dsimp only
  rw [if_neg (by simp)]
  refine safe_bind (R := fun _ t => ∀ x ∈ s0.cluster.selectTargets k,
    (i, Event.call (s0.cluster.config.storeOf x) .put k none) ∈ t) ?_ ?_
  · unfold markWriteFailures
    rw [if_neg (by simp), if_neg (by simp)]
    exact safe_pure fun t ht x hx => ht.mem (hmem x hx)
  · intro _ t4 h4
    unfold requireWrites
    split
    · next hlt =>
      rw [if_pos rfl]
      refine safe_bind (safe_cleanup (Nat.not_le_of_lt hlt) _) fun _ t5 _ => ?_
      exact safe_pure fun _ _ => .inr ⟨_, rfl, rfl⟩
    · next hge => exact safe_pure fun t5 h5 => .inl ⟨rfl, Nat.le_of_not_lt hge, fun x hx => h5.mem (h4 x hx)⟩

theorem Racing.record (h : Racing s0 k v s tr)
    (hmem : ∀ x ∈ s0.cluster.selectTargets k, (i, Event.call (s0.cluster.config.storeOf x) .put k none) ∈ tr) (now : DateTime)
    (hcl : s'.cluster = (s.withCatalog
      (s.cluster.catalog.put k (s0.cluster.selectTargets k) (v i).length (some (crc32c (v i))) 0 now)).cluster)
    (hst : s'.stores = s.stores) :
    Racing s0 k v s' (tr ++ [(i, .recorded k ⟨s0.cluster.selectTargets k, (v i).length, some (crc32c (v i)), now, 0⟩)]) := by
  refine ⟨?_, ?_, ?_, fun j st hm => ?_, fun j e hm => ?_, fun hmin st j e hlast => ?_, fun j e hlast => ?_⟩
  · rw [hcl]
    exact h.config
  · rw [hcl]
    exact h.shards
  · rw [hst]
    exact h.calm
  · rcases List.mem_append.mp hm with hm | hm
    · exact h.placed j st hm
    · simp at hm
  · rcases List.mem_append.mp hm with hm | hm
    · obtain ⟨h1, h2, h3, h4⟩ := h.records j e hm
      exact ⟨h1, h2, h3, fun y hy => List.mem_append_left _ (h4 y hy)⟩
    · simp only [List.mem_singleton, Prod.mk.injEq, Event.recorded.injEq, true_and] at hm
      obtain ⟨rfl, rfl⟩ := hm
      exact ⟨rfl, rfl, rfl, fun y hy => List.mem_append_left _ (hmem y hy)⟩
  · rw [lastOf_append, if_neg (by simp [isWrite])] at hlast
    rw [hst]
    exact h.stored hmin st j e hlast
  · rw [lastOf_append, if_pos (by simp [isRecord])] at hlast
    simp only [Option.some.injEq, Prod.mk.injEq, Event.recorded.injEq, true_and] at hlast
    rw [hcl, ← hlast.2]
    exact (Catalog.get_put _ _ _ _ _ _ _ _).trans (if_pos rfl)

theorem safe_recordPut (hmem : ∀ x ∈ s0.cluster.selectTargets k,
      (i, Event.call (s0.cluster.config.storeOf x) .put k none) ∈ tr) :
    Safe (fun _ => False) (Racing s0 k v) i (recordPut k (v i) (s0.cluster.selectTargets k))
      (fun _ t => ∃ e, (i, Event.recorded k e) ∈ t) tr := by
  unfold recordPut
  refine safe_bind (R := fun _ t => ∃ e, (i, Event.recorded k e) ∈ t) (safe_step fun s t ht h => ?_) fun _ t1 h1 => ?_
  · exact ⟨h.record (fun x hx => ht.mem (hmem x hx)) s.now rfl rfl,
      fun t' ht' => ⟨_, ht'.mem (List.mem_append_right _ (List.mem_singleton.mpr rfl))⟩⟩
  · have hmark : Safe (fun _ => False) (Racing s0 k v) i (removeDeleteMarker k) (fun _ _ => True) t1 :=
      (apart_removeDeleteMarker k).safe (fun _ _ _ _ h => h) fun s l s' t ha h => h.aside ha
    obtain ⟨e, he⟩ := h1
    refine safe_bind (hmark.frame (Q := fun t => (i, Event.recorded k e) ∈ t) he (fun t t' h ht => ht.mem h)
      ((apart_removeDeleteMarker k).mono fun _ _ _ _ h => h)) fun _ t2 h2 => ?_
    exact safe_pure fun t3 h3 => ⟨e, h3.mem h2.2⟩

theorem safe_put (hw : Willing s0 k) :
    Safe (fun _ => False) (Racing s0 k v) i (put k (v i)) (fun r t => r = .ok () →
      s0.cluster.config.minWrites ≤ (s0.cluster.selectTargets k).length ∧ ∃ e, (i, Event.recorded k e) ∈ t) tr := by
  have herr : ∀ (e : Error) t, Safe (fun _ => False) (Racing s0 k v) i (pure (.error e) : ClusterM (Except Error Unit))
      (fun r t => r = .ok () → s0.cluster.config.minWrites ≤ (s0.cluster.selectTargets k).length ∧
        ∃ e, (i, Event.recorded k e) ∈ t) t := fun e t => safe_pure fun _ _ hr => by cases hr
  unfold put
  refine safe_bind (safe_look Racing.look (Q := fun _ => True) fun _ _ _ => trivial) fun ro t1 _ => ?_
  split
  · exact herr _ _
  · refine safe_bind (safe_look Racing.look (Q := fun l => l = s0.cluster.selectTargets k) fun s t h => h.selectTargets) ?_
    rintro targets t2 rfl
    split
    · exact herr _ _
    · refine safe_bind (safe_writeToShards hw) fun r t3 h3 => ?_
      rcases h3 with ⟨rfl, hmin, hmem⟩ | ⟨e, rfl, he⟩
      · dsimp only
        exact (safe_recordPut hmem).post fun _ _ h _ => ⟨hmin, h⟩
      · dsimp only
        rw [if_pos he]
        exact herr _ _

/-! ## Any number of puts -/

variable (k) in
/-- Every shard of the entry holds the same bytes, of the size and with the checksum of the entry. -/
def Agree (s : Sys) : Prop :=
  ∃ e data, s.cluster.catalog.get k = some e ∧ e.size = data.length ∧ e.crc32c = some (crc32c data) ∧
    ∀ x ∈ e.shards, ∃ o, (s.stores (s.cluster.config.storeOf x)).objects.lookup k = some o ∧ o.body = data

variable (k) in
/-- The put that updated the entry last was the last one on each shard it wrote. -/
def LastIsLast (tr : List (ι × Event)) : Prop :=
  ∀ i e, lastOf (isRecord k) tr = some (i, .recorded k e) →
    ∀ st, (i, Event.call st .put k none) ∈ tr → lastOf (isWrite k st) tr = some (i, .call st .put k none)

/-- Puts of one key in any interleaving, with no write failing. -/
theorem puts_agree [DecidableEq ι] [Nonempty ι] (s0 : Sys) (k : Key) (v : ι → Bytes) (hw : Willing s0 k)
    {q : Pool ι Event Sys (Except Error Unit)} (hrun : Pool.Runs ⟨fun i => put k (v i), s0, []⟩ q)
    (hok : ∀ i, (q.procs i).result = some (.ok ())) :
    (LastIsLast k q.trace → Agree k q.state) ∧
    ((∀ i j, (v i).length = (v j).length → crc32c (v i) = crc32c (v j) → i = j) → Agree k q.state → LastIsLast k q.trace) := by
  have hI0 : Racing s0 k v s0 [] :=
    ⟨rfl, rfl, hw.calm, by simp, by simp, by simp, by simp⟩
  obtain ⟨hI, hp⟩ := Pool.safe (K := fun _ => False) (I := Racing s0 k v) (R := fun i r t => r = .ok () →
    s0.cluster.config.minWrites ≤ (s0.cluster.selectTargets k).length ∧ ∃ e, (i, Event.recorded k e) ∈ t) hrun hI0
    fun i => safe_put hw
  have hrec : ∀ i, s0.cluster.config.minWrites ≤ (s0.cluster.selectTargets k).length ∧
      ∃ e, (i, Event.recorded k e) ∈ q.trace := by
    intro i
    have h1 := hp i
    rw [eq_ret_of_result (hok i)] at h1
    exact h1 q.trace (.refl _) rfl
  have hmin := (hrec (Classical.arbitrary ι)).1
  -- the last one to update the entry
  obtain ⟨i, e, hlast⟩ : ∃ i e, lastOf (isRecord k) q.trace = some (i, .recorded k e) := by
    obtain ⟨e, he⟩ := (hrec (Classical.arbitrary ι)).2
    obtain ⟨⟨i, l⟩, hl⟩ := exists_lastOf (p := isRecord k) he (by simp [isRecord])
    have h1 := (mem_of_lastOf hl).2
    cases l with
    | recorded key e' =>
      have hkey : key = k := by simpa [isRecord] using h1
      subst hkey
      exact ⟨i, e', hl⟩
    | _ => cases h1
  obtain ⟨hsh, hsize, hcrc, hmem⟩ := hI.records i e (mem_of_lastOf hlast).1
  have hentry := hI.entry i e hlast
  have hstore : ∀ x, q.state.cluster.config.storeOf x = s0.cluster.config.storeOf x := fun x => by rw [hI.config]
  refine ⟨fun hll => ⟨e, v i, hentry, hsize, hcrc, fun x hx => ?_⟩, fun hinj hagree j e' hlast' st hst => ?_⟩
  · rw [hstore]
    exact hI.stored hmin _ i _ (hll i e hlast _ (hmem x (hsh ▸ hx)))
  · rw [hlast] at hlast'
    obtain ⟨rfl, -⟩ := Prod.mk.inj (Option.some.inj hlast')
    obtain ⟨e1, data, he1, hsize1, hcrc1, hdata⟩ := hagree
    rw [hentry] at he1
    obtain rfl := Option.some.inj he1
    obtain ⟨x, hx, rfl⟩ := hI.placed i st hst
    obtain ⟨⟨j, l⟩, hl⟩ := exists_lastOf (p := isWrite k (s0.cluster.config.storeOf x)) hst (by simp [isWrite])
    have hlw : l = .call (s0.cluster.config.storeOf x) .put k none := of_decide_eq_true (mem_of_lastOf hl).2
    obtain ⟨o, ho, hbody⟩ := hI.stored hmin _ j l hl
    obtain ⟨o', ho', hbody'⟩ := hdata x (hsh ▸ hx)
    rw [hstore, ho] at ho'
    obtain rfl := Option.some.inj ho'
    -- the bytes on the shard are those of its last writer, and those the entry describes
    have hj : j = i := by
      refine hinj j i ?_ ?_
      · rw [← hbody, hbody', ← hsize1, hsize]
      · rw [← hbody, hbody']
        rw [hcrc] at hcrc1
        exact (Option.some.inj hcrc1).symm
    rw [hl, hj, hlw]

end Puts

section Runs

open Sample Raw.Sample

/-- Two healthy shards that both hold every object, and two puts of one key. -/
def twoShards : Sys := sys 2 (config 2 1) fun _ => fresh

def twoPayloads (second : Bool) : Bytes := if second then [2] else [1]

def twoPuts (schedule : List Bool) : Pool Bool Event Sys (Except Error Unit) :=
  Pool.sched schedule ⟨fun i => put "k" (twoPayloads i), twoShards, []⟩

theorem runs_twoPuts (schedule : List Bool) : Pool.Runs ⟨fun i => put "k" (twoPayloads i), twoShards, []⟩ (twoPuts schedule) :=
  Pool.runs_sched _ _

theorem willing_twoShards : Willing twoShards "k" :=
  ⟨by decide +kernel, fun st f hf => by cases hf⟩

/-- The puts run side by side, and the second is a step behind the first all the way. -/
def sideBySide : List Bool := (List.replicate 40 [false, true]).flatten

def lastOnShard (trace : List (Bool × Event)) (x : Bool × Event) : Bool :=
  !x.1 || match x.2 with
    | .call st .put "k" none => decide (lastOf (isWrite "k" st) trace = some x)
    | _ => true

theorem puts_side_by_side_agree : Agree "k" (twoPuts sideBySide).state := by
  have hok : ∀ i, ((twoPuts sideBySide).procs i).result = some (.ok ()) := by decide +kernel
  refine (puts_agree twoShards "k" twoPayloads willing_twoShards (runs_twoPuts sideBySide) hok).1 ?_
  have hrec : (lastOf (isRecord "k") (twoPuts sideBySide).trace).map (·.1) = some true := by decide +kernel
  have hwrites : ((twoPuts sideBySide).trace.all (lastOnShard (twoPuts sideBySide).trace)) = true := by decide +kernel
  intro i e hlast st hst
  rw [hlast] at hrec
  obtain rfl : i = true := Option.some.inj hrec
  exact of_decide_eq_true (List.all_eq_true.mp hwrites _ hst)

/-- The first put writes one shard, the second both, then the first the other. -/
def crossing : List Bool := List.replicate 5 false ++ List.replicate 40 true ++ List.replicate 40 false

theorem two_puts_cross : ¬ ∀ (s0 : Sys) (k : Key) (v : Bool → Bytes) (q : Pool Bool Event Sys (Except Error Unit)),
    Willing s0 k → Pool.Runs ⟨fun i => put k (v i), s0, []⟩ q → (∀ i, (q.procs i).result = some (.ok ())) →
    Agree k q.state := by
  intro h
  have hok : ∀ i, ((twoPuts crossing).procs i).result = some (.ok ()) := by decide +kernel
  obtain ⟨e, data, he, -, -, hdata⟩ := h twoShards "k" twoPayloads (twoPuts crossing) willing_twoShards (runs_twoPuts _) hok
  have hentry : ((twoPuts crossing).state.cluster.catalog.get "k").map (·.shards) = some [0, 1] := by decide +kernel
  rw [he] at hentry
  have hsh : e.shards = [0, 1] := Option.some.inj hentry
  have hheld : ∀ x ∈ [0, 1], (((twoPuts crossing).state.stores ((twoPuts crossing).state.cluster.config.storeOf
      x)).objects.lookup "k").map (·.body) = some (if x = 0 then [2] else [1]) := by decide +kernel
  have hbody : ∀ x ∈ [0, 1], data = if x = 0 then [2] else [1] := by
    intro x hx
    obtain ⟨o, ho, rfl⟩ := hdata x (hsh ▸ hx)
    have h1 := hheld x hx
    rw [ho] at h1
    exact Option.some.inj h1
  have h0 := hbody 0 (by decide)
  rw [hbody 1 (by decide)] at h0
  exact absurd h0 (by decide)

end Runs

end ObjStr.Sharded
