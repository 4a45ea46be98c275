/-
  ObjStr.Sharded.Exclusive — conditional creates next to plain puts of one key, in any order of
  their steps and with any writes failing.

  A placeholder in the catalog decides who creates the key. Whoever inserted it owns the key
  until it removes the entry again, and there is an entry all that time, so at most one
  conditional call succeeds. But the entry that a failing one removes need not be its placeholder
  any more: a plain put may have replaced it. `copy_if_not_exists` does not look, and
  `put_opts` looks first and removes then (`a_failed_create_removes_a_put`). Where every removal finds
  a placeholder, and no clean-up deletes what a call that succeeds has written, the key stays
  listed, and every shard listed holds it (`creates_are_exclusive`).
-/

import ObjStr.Sharded.Races

namespace ObjStr.Sharded

open ObjStr.Lib ObjStr.Raw Proc

variable {ι : Type}

/-! ## Events -/

/-- The store took a write of the key, or deleted it. -/
def touches (k : Key) (st : StoreId) (e : Event) : Bool := e = .call st .put k none || e = .call st .delete k none

/-- An entry of the key that was no placeholder was removed. -/
def isLoss (k : Key) : Event → Bool
  | .removed key (some e) => key = k && e.crc32c.isSome
  | _ => false

/-- The call inserted its placeholder, and has not removed the entry. -/
def Owns (k : Key) (i : ι) (tr : List (ι × Event)) : Prop := (i, Event.inserted k true) ∈ tr ∧ ∀ e, (i, Event.removed k e) ∉ tr

/-- What a call knows of its own: whether it inserted the placeholder, and whether it removed the
    entry. -/
def Keyed (k : Key) (e : Event) : Prop := e = .inserted k true ∨ ∃ entry, e = .removed k entry

theorem Owns.later {k : Key} {i : ι} {tr tr' : List (ι × Event)} (h : Owns k i tr) (hl : Later (Keyed k) i tr tr') :
    Owns k i tr' :=
  ⟨hl.mem h.1, fun e he => h.2 e ((hl.key (.inr ⟨e, rfl⟩)).mp he)⟩

theorem not_keyed {k : Key} {l : Event} (h : ¬ l.About k) : ¬ Keyed k l := by
  rintro (rfl | ⟨e, rfl⟩)
  · exact h rfl
  · exact h rfl

/-! ## What holds while the calls run -/

structure Creating (s0 : Sys) (k : Key) (s : Sys) (tr : List (ι × Event)) : Prop where
  config : s.cluster.config = s0.cluster.config
  stored : ∀ st i, lastOf (touches k st) tr = some (i, .call st .put k none) → ((s.stores st).objects.lookup k).isSome
  records : ∀ i e, (i, Event.recorded k e) ∈ tr → e.crc32c.isSome ∧ e.shards ≠ [] ∧
    ∀ x ∈ e.shards, (i, Event.call (s0.cluster.config.storeOf x) .put k none) ∈ tr
  entry : ∀ i e, lastOf (fun l => isRecord k l || isLoss k l) tr = some (i, .recorded k e) → s.cluster.catalog.get k = some e
  owner : ∀ i, Owns k i tr → (s.cluster.catalog.get k).isSome
  unique : ∀ i j, Owns k i tr → Owns k j tr → i = j

variable {s0 s s' : Sys} {k : Key} {i : ι} {tr : List (ι × Event)} {l : Event}

/-- What a step must show that neither records the key nor inserts or removes its entry. -/
theorem Creating.next (h : Creating s0 k s tr) (hc : s'.cluster.config = s.cluster.config)
    (hentry : s'.cluster.catalog.get k = s.cluster.catalog.get k) (hrec : isRecord k l = false) (hkey : ¬ Keyed k l)
    (hstored : ∀ st j, lastOf (touches k st) (tr ++ [(i, l)]) = some (j, .call st .put k none) →
      ((s'.stores st).objects.lookup k).isSome) : Creating s0 k s' (tr ++ [(i, l)]) := by
  have hloss : isLoss k l = false := by
    cases l with
    | removed key e =>
      by_contra hn
      have hk : key = k := by
        cases e with
        | none => simp [isLoss] at hn
        | some e => exact (by simpa [isLoss] using hn : key = k ∧ _).1
      subst hk
      exact hkey (.inr ⟨e, rfl⟩)
    | _ => rfl
  have howns : ∀ j, Owns k j (tr ++ [(i, l)]) → Owns k j tr := by
    intro j hj
    refine ⟨?_, fun e he => hj.2 e (List.mem_append_left _ he)⟩
    rcases List.mem_append.mp hj.1 with h1 | h1
    · exact h1
    · simp only [List.mem_singleton, Prod.mk.injEq] at h1
      exact absurd (.inl h1.2.symm) hkey
  refine ⟨hc.trans h.config, hstored, fun j e hm => ?_, fun j e hlast => ?_, fun j hj => ?_, fun j j' hj hj' => ?_⟩
  · rcases List.mem_append.mp hm with hm | hm
    · obtain ⟨h1, h2, h3⟩ := h.records j e hm
      exact ⟨h1, h2, fun x hx => List.mem_append_left _ (h3 x hx)⟩
    · simp only [List.mem_singleton, Prod.mk.injEq] at hm
      rw [← hm.2] at hrec
      simp [isRecord] at hrec
  · rw [lastOf_append, if_neg (by simp [hrec, hloss])] at hlast
    rw [hentry]
    exact h.entry j e hlast
  · rw [hentry]
    exact h.owner j (howns j hj)
  · exact h.unique j j' (howns j hj) (howns j' hj')

theorem Creating.aside (h : Creating s0 k s tr) (ha : Aside k s l s') : Creating s0 k s' (tr ++ [(i, l)]) := by
  refine h.next ha.config ha.entry (Event.not_about ha.label).2 (not_keyed ha.label) fun st j hlast => ?_
  have hl : touches k st l = false := by
    by_contra hn
    have h1 : l = .call st .put k none ∨ l = .call st .delete k none := by
      simpa [touches, or_iff_not_imp_left] using hn
    rcases h1 with rfl | rfl
    · exact ha.label ⟨rfl, .inl rfl⟩
    · exact ha.label ⟨rfl, .inr rfl⟩
  rw [lastOf_append, if_neg (by simp [hl])] at hlast
  rw [ha.objects]
  exact h.stored st j hlast

theorem Creating.look (s : Sys) (t : List (ι × Event)) (h : Creating s0 k s t) : Creating s0 k s (t ++ [(i, .other)]) :=
  h.aside (.refl s)

/-- A write of the key. -/
theorem Creating.put (h : Creating s0 k s tr) (st : StoreId) (up : Upload) :
    Creating s0 k { s with stores := Function.update s.stores st ((s.stores st).put k up).2 }
      (tr ++ [(i, .call st .put k (failure ((s.stores st).put k up).1))]) := by
  refine h.next rfl rfl rfl (fun hk => ?_) fun st' j hlast => ?_
  · rcases hk with hk | ⟨_, hk⟩ <;> cases hk
  · have hobj := (s.stores st).objects_put k up
    rw [lastOf_append] at hlast
    by_cases hst : st' = st
    · subst hst
      simp only [Function.update_self]
      rw [hobj]
      cases ho : (s.stores st').outcome .put with
      | none => simp
      | some e =>
        have hf : ((s.stores st').put k up).1 = .error e := by
          unfold Store.put
          rw [ho]
        rw [hf, if_neg (by simp [touches, failure])] at hlast
        exact h.stored st' j hlast
    · simp only [Function.update_of_ne hst]
      rw [if_neg (by simp [touches, Ne.symm hst])] at hlast
      exact h.stored st' j hlast

/-- A delete of the key, by the clean-up of a call that failed. -/
theorem Creating.delete (h : Creating s0 k s tr) (st : StoreId) :
    Creating s0 k { s with stores := Function.update s.stores st ((s.stores st).delete k).2 }
      (tr ++ [(i, .call st .delete k (failure ((s.stores st).delete k).1))]) := by
  refine h.next rfl rfl rfl (fun hk => ?_) fun st' j hlast => ?_
  · rcases hk with hk | ⟨_, hk⟩ <;> cases hk
  · rw [lastOf_append] at hlast
    by_cases hst : st' = st
    · subst hst
      simp only [Function.update_self]
      rcases (s.stores st').delete_cases k with ⟨e, h1, h2, -⟩ | ⟨h1, h2⟩
      · rw [h1, if_neg (by simp [touches, failure])] at hlast
        rw [h2]
        exact h.stored st' j hlast
      · rw [h1, if_pos (by simp [touches, failure])] at hlast
        simp [failure] at hlast
    · simp only [Function.update_of_ne hst]
      rw [if_neg (by simp [touches, Ne.symm hst])] at hlast
      exact h.stored st' j hlast

structure CatalogStep (s s' : Sys) (l : Event) : Prop where
  config : s'.cluster.config = s.cluster.config
  stores : s'.stores = s.stores
  label : ∀ st kind key f, l ≠ .call st kind key f

theorem CatalogStep.stored (hs : CatalogStep s s' l) (h : Creating s0 k s tr) :
    ∀ st j, lastOf (touches k st) (tr ++ [(i, l)]) = some (j, .call st .put k none) → ((s'.stores st).objects.lookup k).isSome := by
  intro st j hlast
  have hl : touches k st l = false := by
    by_contra hn
    have h1 : l = .call st .put k none ∨ l = .call st .delete k none := by
      simpa [touches, or_iff_not_imp_left] using hn
    rcases h1 with h1 | h1
    · exact hs.label _ _ _ _ h1
    · exact hs.label _ _ _ _ h1
  rw [lastOf_append, if_neg (by simp [hl])] at hlast
  rw [hs.stores]
  exact h.stored st j hlast

/-- An event that is not about recording. -/
theorem Creating.records_append (h : Creating s0 k s tr) (hrec : isRecord k l = false) : ∀ j e,
    (j, Event.recorded k e) ∈ tr ++ [(i, l)] → e.crc32c.isSome ∧ e.shards ≠ [] ∧
      ∀ x ∈ e.shards, (j, Event.call (s0.cluster.config.storeOf x) .put k none) ∈ tr ++ [(i, l)] := by
  intro j e hm
  rcases List.mem_append.mp hm with hm | hm
  · obtain ⟨h1, h2, h3⟩ := h.records j e hm
    exact ⟨h1, h2, fun x hx => List.mem_append_left _ (h3 x hx)⟩
  · simp only [List.mem_singleton, Prod.mk.injEq] at hm
    rw [← hm.2] at hrec
    simp [isRecord] at hrec

/-- A placement is recorded. -/
theorem Creating.record (h : Creating s0 k s tr) {e : PlacementEntry} (hs : CatalogStep s s' (.recorded k e))
    (hget : s'.cluster.catalog.get k = some e) (hcrc : e.crc32c.isSome) (hne : e.shards ≠ [])
    (hmem : ∀ x ∈ e.shards, (i, Event.call (s0.cluster.config.storeOf x) .put k none) ∈ tr) :
    Creating s0 k s' (tr ++ [(i, .recorded k e)]) := by
  have howns : ∀ j, Owns k j (tr ++ [(i, .recorded k e)]) → Owns k j tr := by
    intro j hj
    refine ⟨?_, fun e he => hj.2 e (List.mem_append_left _ he)⟩
    simpa using hj.1
  refine ⟨hs.config.trans h.config, hs.stored h, fun j e' hm => ?_, fun j e' hlast => ?_, fun j hj => ?_,
    fun j j' hj hj' => h.unique j j' (howns j hj) (howns j' hj')⟩
  · rcases List.mem_append.mp hm with hm | hm
    · obtain ⟨h1, h2, h3⟩ := h.records j e' hm
      exact ⟨h1, h2, fun x hx => List.mem_append_left _ (h3 x hx)⟩
    · simp only [List.mem_singleton, Prod.mk.injEq, Event.recorded.injEq, true_and] at hm
      obtain ⟨rfl, rfl⟩ := hm
      exact ⟨hcrc, hne, fun x hx => List.mem_append_left _ (hmem x hx)⟩
  · rw [lastOf_append, if_pos (by simp [isRecord])] at hlast
    simp only [Option.some.injEq, Prod.mk.injEq, Event.recorded.injEq, true_and] at hlast
    rw [hget, hlast.2]
  · rw [hget]
    rfl

/-- A placeholder is inserted where there is no entry: nobody owns the key then. -/
theorem Creating.insert (h : Creating s0 k s tr) (hs : CatalogStep s s' (.inserted k true)) (hnone : s.cluster.catalog.get k = none)
    (hget : (s'.cluster.catalog.get k).isSome) : Creating s0 k s' (tr ++ [(i, .inserted k true)]) := by
  have hno : ∀ j, ¬ Owns k j tr := fun j hj => by
    have h1 := h.owner j hj
    rw [hnone] at h1
    cases h1
  have howns : ∀ j, Owns k j (tr ++ [(i, .inserted k true)]) → j = i := by
    intro j hj
    rcases List.mem_append.mp hj.1 with h1 | h1
    · exact absurd ⟨h1, fun e he => hj.2 e (List.mem_append_left _ he)⟩ (hno j)
    · simp only [List.mem_singleton, Prod.mk.injEq] at h1
      exact h1.1
  refine ⟨hs.config.trans h.config, hs.stored h, h.records_append rfl, fun j e hlast => ?_, fun _ _ => hget,
    fun j j' hj hj' => (howns j hj).trans (howns j' hj').symm⟩
  rw [lastOf_append, if_neg (by simp [isRecord, isLoss])] at hlast
  rw [h.entry j e hlast] at hnone
  cases hnone

/-- The owner removes the entry. -/
theorem Creating.remove (h : Creating s0 k s tr) (hs : CatalogStep s s' (.removed k (s.cluster.catalog.get k)))
    (hown : Owns k i tr) : Creating s0 k s' (tr ++ [(i, .removed k (s.cluster.catalog.get k))]) := by
  have hno : ∀ j, ¬ Owns k j (tr ++ [(i, .removed k (s.cluster.catalog.get k))]) := by
    intro j hj
    have h1 : Owns k j tr := ⟨by simpa using hj.1, fun e he => hj.2 e (List.mem_append_left _ he)⟩
    rw [h.unique j i h1 hown] at hj
    exact hj.2 _ (List.mem_append_right _ (List.mem_singleton.mpr rfl))
  refine ⟨hs.config.trans h.config, hs.stored h, h.records_append rfl, fun j e hlast => ?_, fun j hj => absurd hj (hno j),
    fun j _ hj => absurd hj (hno j)⟩
  rw [lastOf_append] at hlast
  split at hlast
  · simp at hlast
  · next hloss =>
    have hget := h.entry j e hlast
    have hcrc := (h.records j e (mem_of_lastOf hlast).1).1
    rw [hget] at hloss
    simp [isRecord, isLoss, hcrc] at hloss

/-! ## Parts of a call -/

variable {α : Type}

/-- Steps that do not concern the key. -/
theorem safe_aside {p : ClusterM α} {Q : List (ι × Event) → Prop} (h : Only (Aside k) p) (hQ : Q tr)
    (hlater : ∀ t t', Q t → Later (Keyed k) i t t' → Q t') :
    Safe (Keyed k) (Creating s0 k) i p (fun _ t => Q t) tr := by
  have h1 : Safe (Keyed k) (Creating s0 k) i p (fun _ _ => True) tr :=
    h.safe (fun _ l _ ha => not_keyed ha.label) fun s l s' t ha hI => hI.aside ha
  exact (h1.frame hQ hlater (h.mono fun _ _ _ ha => not_keyed ha.label)).post fun _ _ h => h.2

theorem unkeyed_aside {p : ClusterM α} (h : Only (Aside k) p) : Only (fun _ l _ => ¬ Keyed k l) p :=
  h.mono fun _ _ _ ha => not_keyed ha.label

theorem unkeyed_onStore (id : StoreId) (kind : Call) (key : Key) (f : Store → Except StoreError α × Store) :
    Only (fun _ l _ => ¬ Keyed k l) (onStore id kind key f) := by
  refine only_step fun s h => ?_
  rcases h with h | ⟨_, h⟩ <;> cases h

theorem unkeyed_call (r : StoreRef) (kind : Call) (key : Key) (f : Store → Except StoreError α × Store) :
    Only (fun _ l _ => ¬ Keyed k l) (r.call kind key f) :=
  only_call fun id => unkeyed_onStore id kind key f

variable (s0 k i) in
def Wrote (x : ShardId) (t : List (ι × Event)) : Prop := (i, Event.call (s0.cluster.config.storeOf x) .put k none) ∈ t

theorem Wrote.later {x : ShardId} {t t' : List (ι × Event)} {K : Event → Prop} (h : Wrote s0 k i x t) (ht : Later K i t t') :
    Wrote s0 k i x t' := ht.mem h

/-- A write to a store; the placeholder takes none. -/
theorem safe_putKey (r : StoreRef) (up : Upload) :
    Safe (Keyed k) (Creating s0 k) i (r.put k up)
      (fun a t => failure a = none → ∃ st, r = some st ∧ (i, Event.call st .put k none) ∈ t) tr := by
  cases r with
  | none => exact safe_pure fun _ _ ha => by cases ha
  | some st =>
    refine safe_step fun s t _ h => ⟨h.put st up, fun t' ht' ha => ⟨st, rfl, ht'.mem ?_⟩⟩
    rw [ha]
    exact List.mem_append_right _ (List.mem_singleton.mpr rfl)

theorem mem_of_forall₂ {β γ : Type} {P : β → γ → Prop} {l : List β} {as : List γ} (h : List.Forall₂ P l as) {a : γ}
    (ha : a ∈ as) : ∃ x ∈ l, P x a := by
  induction h with
  | nil => cases ha
  | cons h1 _ ih =>
    rcases List.mem_cons.mp ha with rfl | ha
    · exact ⟨_, List.mem_cons_self, h1⟩
    · obtain ⟨x, hx, h2⟩ := ih ha
      exact ⟨x, List.mem_cons_of_mem _ hx, h2⟩

/-- The processes of a fan-out answer for their shards. -/
theorem safe_joinKey {κ : Type} {l : List κ} {f : κ → ClusterM (ShardId × Except StoreError Unit)}
    (honly : ∀ x ∈ l, Only (fun _ l _ => ¬ Keyed k l) (f x))
    (hf : ∀ x ∈ l, Safe (Keyed k) (Creating s0 k) i (f x) (fun a t => failure a.2 = none → Wrote s0 k i a.1 t) tr) :
    Safe (Keyed k) (Creating s0 k) i (joinAll (l.map f)) (fun (os : Outcomes) t => ∀ x ∈ os.accepted, Wrote s0 k i x t) tr := by
  refine (safe_joinAll honly hf fun _ _ _ _ h ht hs => (h hs).later ht).post fun os t h x hx => ?_
  obtain ⟨a, ha, rfl⟩ := List.mem_map.mp hx
  obtain ⟨ha1, ha2⟩ := List.mem_filter.mp ha
  obtain ⟨y, -, h1⟩ := mem_of_forall₂ h ha1
  exact h1 (Option.isNone_iff_eq_none.mp ha2)

theorem unkeyed_fanOut (stores : List (ShardId × StoreRef)) (up : Upload) :
    Only (fun _ l _ => ¬ Keyed k l) (fanOut stores k up) := by
  refine only_joinAll fun p hp => ?_
  obtain ⟨st, -, rfl⟩ := List.mem_map.mp hp
  exact only_bind (unkeyed_call _ _ _ _) fun _ => only_pure _

theorem safe_fanOut {stores : List (ShardId × StoreRef)} (up : Upload)
    (hst : ∀ p ∈ stores, ∀ st, p.2 = some st → st = s0.cluster.config.storeOf p.1) :
    Safe (Keyed k) (Creating s0 k) i (fanOut stores k up) (fun os t => ∀ x ∈ os.accepted, Wrote s0 k i x t) tr := by
  refine safe_joinKey (fun p _ => only_bind (unkeyed_call _ _ _ _) fun _ => only_pure _) fun p hp => ?_
  refine safe_bind (safe_putKey p.2 up) fun r t hr => safe_pure fun t' ht' hs => ?_
  obtain ⟨st, h1, h2⟩ := hr hs
  rw [Wrote, ← hst p hp st h1]
  exact ht'.mem h2

/-- Shards' stores, taken under the lock. -/
theorem safe_storesOf (ids : List ShardId) :
    Safe (Keyed k) (Creating s0 k) i (storesOf ids)
      (fun stores _ => ∀ p ∈ stores, ∀ st, p.2 = some st → st = s0.cluster.config.storeOf p.1) tr := by
  refine safe_look Creating.look fun s t h p hp st hst => ?_
  obtain ⟨x, -, rfl⟩ := List.mem_map.mp hp
  rw [(Cluster.storeRef_eq_some hst).1, h.config]

theorem safe_cleanupKey (placed : List ShardId) :
    Safe (Keyed k) (Creating s0 k) i (cleanupOrphanedWrites k placed) (fun _ _ => True) tr := by
  unfold cleanupOrphanedWrites
  refine safe_bind (safe_look Creating.look (Q := fun _ => True) fun _ _ _ => trivial) fun entry t1 _ => ?_
  split
  · exact safe_pure fun _ _ => trivial
  · refine safe_bind (safe_look Creating.look (Q := fun _ => True) fun _ _ _ => trivial) fun refs t2 _ => ?_
    refine safe_bind (safe_look Creating.look (Q := fun _ => True) fun _ _ _ => trivial) fun stores t3 _ => ?_
    have hdel : ∀ (p : ShardId × StoreRef) t, Safe (Keyed k) (Creating s0 k) i (do
        let r ← p.2.delete k
        cleanupSidecar p.2 k ((refs.map (·.kind p.1)).getD .sidecar)
        pure (p.1, r) : ClusterM (ShardId × Except StoreError Unit)) (fun _ _ => True) t := by
      intro p t
      refine safe_bind (R := fun _ _ => True) ?_ fun r t4 _ => ?_
      · cases p.2 with
        | none => exact safe_pure fun _ _ => trivial
        | some st => exact safe_step fun s t _ h => ⟨h.delete st, fun _ _ => trivial⟩
      · refine safe_bind (safe_aside (Q := fun _ => True) ((apart_cleanupSidecar _ _ (sidecar_ne k)).mono fun _ _ _ h => h.1)
          trivial fun _ _ _ _ => trivial) fun _ t5 _ => ?_
        exact safe_pure fun _ _ => trivial
    refine safe_bind (safe_joinAll (R := fun _ _ _ => True) (fun p _ => ?_) (fun p _ => hdel p t3) fun _ _ _ _ _ _ => trivial)
      fun _ t6 _ => safe_pure fun _ _ => trivial
    refine only_bind (unkeyed_call _ _ _ _) fun _ => only_bind ?_ fun _ => only_pure _
    exact unkeyed_aside ((apart_cleanupSidecar _ _ (sidecar_ne k)).mono fun _ _ _ h => h.1)

theorem unkeyed_deletes {p : ClusterM α} (h : Only Deletes p) : Only (fun _ l _ => ¬ Keyed k l) p := by
  refine h.mono fun _ l _ hd hk => ?_
  rcases hd.label with rfl | ⟨_, _, _, rfl⟩
  · rcases hk with hk | ⟨_, hk⟩ <;> cases hk
  · rcases hk with hk | ⟨_, hk⟩ <;> cases hk

/-! ## A write of the key -/

def PlacedKey (s0 : Sys) (k : Key) (i : ι) (r : Except Error (List ShardId)) (t : List (ι × Event)) : Prop :=
  ∀ placed, r = .ok placed → placed ≠ [] ∧ ∀ x ∈ placed, Wrote s0 k i x t

theorem safe_requireWrites {placed : List ShardId} (errors : List WriteFailure) {m : Nat} (cl : Bool) (hm : 1 ≤ m)
    (hplaced : ∀ x ∈ placed, Wrote s0 k i x tr) :
    Safe (Keyed k) (Creating s0 k) i (requireWrites k placed errors m cl) (PlacedKey s0 k i) tr := by
  unfold requireWrites
  split
  · have herr : ∀ t, Safe (Keyed k) (Creating s0 k) i
        (pure (.error (.insufficientWrites k m placed.length errors)) : ClusterM (Except Error (List ShardId)))
        (PlacedKey s0 k i) t := fun t => safe_pure fun _ _ _ hr => by cases hr
    dsimp only
    split
    · exact safe_bind (safe_cleanupKey placed) fun _ t _ => herr t
    · exact herr tr
  · next hge =>
    refine safe_pure fun t ht placed' hr => ?_
    cases hr
    refine ⟨fun h0 => ?_, fun x hx => (hplaced x hx).later ht⟩
    rw [h0] at hge
    exact hge hm

theorem safe_writeInner [Crates] (data : Bytes) (targets : List ShardId) {m : Nat} (cl : Bool) (hm : 1 ≤ m) :
    Safe (Keyed k) (Creating s0 k) i (writeToShardsInner k data targets m cl) (PlacedKey s0 k i) tr := by
  unfold writeToShardsInner
  refine safe_bind (safe_storesOf targets) fun stores t1 h1 => ?_
  refine safe_bind (safe_fanOut _ h1) fun os t2 h2 => ?_
  dsimp only
  split
  · refine safe_bind (safe_aside (Q := fun _ => True) (aside_markWriteFailures _ _ _ _) trivial fun _ _ _ _ => trivial) fun ids t3 _ => ?_
    refine safe_bind (safe_storesOf ids) fun stores' t4 h4 => ?_
    refine safe_bind (safe_fanOut _ h4) fun os' t5 h5 => ?_
    split
    · exact safe_pure fun _ _ _ hr => by cases hr
    · exact safe_requireWrites _ cl hm h5
  · refine safe_bind (safe_aside (Q := fun t => ∀ x ∈ os.accepted, Wrote s0 k i x t) (aside_markWriteFailures _ _ _ _) h2
      fun t t' h ht x hx => (h x hx).later ht) fun _ t3 h3 => ?_
    exact safe_requireWrites _ cl hm h3

theorem unkeyed_requireWrites (placed : List ShardId) (errors : List WriteFailure) (m : Nat) (cl : Bool) :
    Only (fun _ l _ => ¬ Keyed k l) (requireWrites k placed errors m cl) := by
  unfold requireWrites
  split
  · dsimp only
    split
    · exact only_bind (unkeyed_deletes (deletes_cleanupOrphanedWrites _ _)) fun _ => only_pure _
    · exact only_pure _
  · exact only_pure _

theorem unkeyed_writeInner [Crates] (data : Bytes) (targets : List ShardId) (m : Nat) (cl : Bool) :
    Only (fun _ l _ => ¬ Keyed k l) (writeToShardsInner k data targets m cl) := by
  unfold writeToShardsInner
  refine only_bind (unkeyed_aside (aside_look _)) fun stores => only_bind (unkeyed_fanOut _ _) fun os => ?_
  dsimp only
  split
  · refine only_bind (unkeyed_aside (aside_markWriteFailures _ _ _ _)) fun ids => ?_
    refine only_bind (unkeyed_aside (aside_look _)) fun stores' => only_bind (unkeyed_fanOut _ _) fun os' => ?_
    split
    · exact only_pure _
    · exact unkeyed_requireWrites _ _ _ _
  · exact only_bind (unkeyed_aside (aside_markWriteFailures _ _ _ _)) fun _ => unkeyed_requireWrites _ _ _ _

theorem safe_writeKey [Crates] (data : Bytes) (targets : List ShardId) {Q : List (ι × Event) → Prop} (hQ : Q tr)
    (hlater : ∀ t t', Q t → Later (Keyed k) i t t' → Q t') :
    Safe (Keyed k) (Creating s0 k) i (writeToShards k data targets) (fun r t => PlacedKey s0 k i r t ∧ Q t) tr := by
  have hone : 1 ≤ s0.cluster.config.minWrites := s0.cluster.config.one_le_minWrites
  have honly : Only (fun _ l _ => ¬ Keyed k l) (writeToShards k data targets) :=
    only_bind (unkeyed_aside (aside_look _)) fun _ => unkeyed_writeInner _ _ _ _
  refine Safe.frame ?_ hQ hlater honly
  unfold writeToShards
  refine safe_bind (safe_look Creating.look (Q := fun m => 1 ≤ m) fun s t h => by rw [h.config]; exact hone) fun m t1 h1 => ?_
  exact safe_writeInner _ _ _ h1

variable (s0 k) in
def RecordedBy (i : ι) (t : List (ι × Event)) : Prop := ∃ e, (i, Event.recorded k e) ∈ t

/-- `Catalog::put` of a placement that some shards took. -/
theorem safe_catalogPut {placed : List ShardId} (size : Nat) (crc : UInt32) (ml : UInt16) (hne : placed ≠ [])
    (hplaced : ∀ x ∈ placed, Wrote s0 k i x tr) {Q : List (ι × Event) → Prop} (hQ : Q tr)
    (hlater : ∀ t t', Q t → Later (Keyed k) i t t' → Q t') :
    Safe (Keyed k) (Creating s0 k) i (catalogPut k placed size (some crc) ml) (fun _ t => RecordedBy k i t ∧ Q t) tr := by
  refine safe_step fun s t ht h => ⟨?_, fun t' ht' => ⟨⟨_, ht'.mem (List.mem_append_right _ (List.mem_singleton.mpr rfl))⟩, ?_⟩⟩
  · refine h.record ⟨rfl, rfl, by simp⟩ ?_ rfl hne fun x hx => ht.mem (hplaced x hx)
    exact (Catalog.get_put _ _ _ _ _ _ _ _).trans (if_pos rfl)
  · refine hlater _ _ hQ (ht.trans (Later.trans ?_ ht'))
    refine .append fun l hl hk => ?_
    simp only [List.mem_singleton, Prod.mk.injEq] at hl
    rw [hl.2] at hk
    rcases hk with hk | ⟨_, hk⟩ <;> cases hk

theorem safe_recordKey [Crates] (payload : Bytes) {placed : List ShardId} (hne : placed ≠ [])
    (hplaced : ∀ x ∈ placed, Wrote s0 k i x tr) {Q : List (ι × Event) → Prop} (hQ : Q tr)
    (hlater : ∀ t t', Q t → Later (Keyed k) i t t' → Q t') :
    Safe (Keyed k) (Creating s0 k) i (recordPut k payload placed) (fun _ t => RecordedBy k i t ∧ Q t) tr := by
  unfold recordPut
  refine safe_bind (safe_catalogPut _ _ _ hne hplaced hQ hlater) fun _ t1 h1 => ?_
  refine safe_bind (safe_aside (Q := fun t => RecordedBy k i t ∧ Q t) ((apart_removeDeleteMarker k).mono fun _ _ _ h => h.1) h1 ?_)
    fun _ t2 h2 => safe_pure fun t3 h3 => ?_
  · rintro t t' ⟨⟨e, he⟩, hq⟩ ht
    exact ⟨⟨e, ht.mem he⟩, hlater t t' hq ht⟩
  · obtain ⟨⟨e, he⟩, hq⟩ := h2
    exact ⟨⟨e, h3.mem he⟩, hlater _ _ hq h3⟩

/-! ## A write with metadata -/

def Config.OwnRefs (c : Config) : Prop := ∀ refs, c.rawRefs = some refs → ∀ x st, refs.get x = some st → st = c.storeOf x

theorem safe_shardStore (x : ShardId) :
    Safe (Keyed k) (Creating s0 k) i (shardStore x)
      (fun store _ => ∀ r, store = some r → ∀ st, r = some st → st = s0.cluster.config.storeOf x) tr := by
  refine safe_look Creating.look fun s t h r hr st hst => ?_
  split at hr
  · cases hr
    rw [(Cluster.storeRef_eq_some hst).1, h.config]
  · cases hr

/-- A write to the shard's store. -/
theorem safe_putOwn {r : StoreRef} {x : ShardId} (hr : ∀ st, r = some st → st = s0.cluster.config.storeOf x) (up : Upload) :
    Safe (Keyed k) (Creating s0 k) i (r.put k up) (fun a t => failure a = none → Wrote s0 k i x t) tr := by
  refine (safe_putKey r up).post fun a t h ha => ?_
  obtain ⟨st, h1, h2⟩ := h ha
  rw [Wrote, ← hr st h1]
  exact h2

theorem safe_tryPutShard {refs : RawRefRegistry} (hrefs : ∀ x st, refs.get x = some st → st = s0.cluster.config.storeOf x)
    (x : ShardId) (payload metadata : Bytes) :
    Safe (Keyed k) (Creating s0 k) i (tryPutShard refs x k payload metadata)
      (fun a t => failure a = none → Wrote s0 k i x t) tr := by
  have herr : ∀ e t, Safe (Keyed k) (Creating s0 k) i (pure (.error e) : ClusterM (Except StoreError Unit))
      (fun a t => failure a = none → Wrote s0 k i x t) t := fun e t => safe_pure fun _ _ ha => by cases ha
  unfold tryPutShard
  cases refs.kind x with
  | raw =>
    dsimp only
    cases hx : refs.get x with
    | none => exact herr _ _
    | some raw =>
      refine safe_putOwn (fun st hst => ?_) _
      cases hst
      exact hrefs x raw hx
  | s3Like =>
    refine safe_bind (safe_shardStore x) fun store t1 h1 => ?_
    cases store with
    | none => exact herr _ _
    | some r => exact safe_putOwn (h1 r rfl) _
  | sidecar =>
    refine safe_bind (safe_shardStore x) fun store t1 h1 => ?_
    cases store with
    | none => exact herr _ _
    | some r =>
      refine safe_bind (safe_putOwn (h1 r rfl) _) fun a t2 h2 => ?_
      cases a with
      | error e => exact herr _ _
      | ok _ =>
        dsimp only
        split
        · exact safe_pure fun t ht _ => (h2 rfl).later ht
        · refine (safe_aside (Q := Wrote s0 k i x) (aside_refPut _ (sidecar_ne k) _) (h2 rfl) fun t t' h ht => h.later ht).post ?_
          exact fun _ _ h _ => h

theorem unkeyed_tryPutShard (refs : RawRefRegistry) (x : ShardId) (payload metadata : Bytes) :
    Only (fun _ l _ => ¬ Keyed k l) (tryPutShard refs x k payload metadata) := by
  unfold tryPutShard
  cases refs.kind x with
  | raw =>
    dsimp only
    cases refs.get x with
    | none => exact only_pure _
    | some raw => exact unkeyed_call _ _ _ _
  | s3Like =>
    refine only_bind (unkeyed_aside (aside_look _)) fun store => ?_
    cases store with
    | none => exact only_pure _
    | some r => exact unkeyed_call _ _ _ _
  | sidecar =>
    refine only_bind (unkeyed_aside (aside_look _)) fun store => ?_
    cases store with
    | none => exact only_pure _
    | some r =>
      refine only_bind (unkeyed_call _ _ _ _) fun a => ?_
      cases a with
      | error e => exact only_pure _
      | ok _ =>
        dsimp only
        split
        · exact only_pure _
        · exact unkeyed_call _ _ _ _

theorem safe_fanOutWithMeta {refs : RawRefRegistry} (hrefs : ∀ x st, refs.get x = some st → st = s0.cluster.config.storeOf x)
    (payload metadata : Bytes) (ids : List ShardId) :
    Safe (Keyed k) (Creating s0 k) i (fanOutWithMeta refs k payload metadata ids)
      (fun os t => ∀ x ∈ os.accepted, Wrote s0 k i x t) tr := by
  refine safe_joinKey (fun x _ => only_bind (unkeyed_tryPutShard _ _ _ _) fun _ => only_pure _) fun x _ => ?_
  exact safe_bind (safe_tryPutShard hrefs x payload metadata) fun r t hr => safe_pure fun t' ht' hs => (hr hs).later ht'

theorem unkeyed_fanOutWithMeta (refs : RawRefRegistry) (payload metadata : Bytes) (ids : List ShardId) :
    Only (fun _ l _ => ¬ Keyed k l) (fanOutWithMeta refs k payload metadata ids) := by
  refine only_joinAll fun p hp => ?_
  obtain ⟨x, -, rfl⟩ := List.mem_map.mp hp
  exact only_bind (unkeyed_tryPutShard _ _ _ _) fun _ => only_pure _

theorem unkeyed_catalogPut (placed : List ShardId) (size : Nat) (crc : Option UInt32) (ml : UInt16) :
    Only (fun _ l _ => ¬ Keyed k l) (catalogPut k placed size crc ml) := by
  refine only_step fun s h => ?_
  rcases h with h | ⟨_, h⟩ <;> cases h

theorem safe_finishWithMeta {placed : List ShardId} (tried : Outcomes) (size : Nat) (crc : UInt32) (ml : UInt16)
    (hplaced : ∀ x ∈ placed, Wrote s0 k i x tr) :
    Safe (Keyed k) (Creating s0 k) i (finishWithMeta k placed tried size crc ml) (fun r t => r = .ok () → RecordedBy k i t) tr := by
  unfold finishWithMeta
  split
  · exact safe_pure fun _ _ hr => by cases hr
  · next hne =>
    refine safe_bind (safe_aside (Q := fun t => ∀ x ∈ placed, Wrote s0 k i x t) (aside_look _) hplaced
      fun t t' h ht x hx => (h x hx).later ht) fun m t1 h1 => ?_
    split
    · exact safe_bind (safe_cleanupKey placed) fun _ t2 _ => safe_pure fun _ _ hr => by cases hr
    · refine safe_bind (safe_catalogPut size crc ml (by simpa using hne) h1 (Q := fun _ => True) trivial fun _ _ _ _ => trivial)
        fun _ t2 h2 => safe_pure fun t3 h3 _ => ?_
      obtain ⟨e, he⟩ := h2.1
      exact ⟨e, h3.mem he⟩

theorem unkeyed_finishWithMeta (placed : List ShardId) (tried : Outcomes) (size : Nat) (crc : UInt32) (ml : UInt16) :
    Only (fun _ l _ => ¬ Keyed k l) (finishWithMeta k placed tried size crc ml) := by
  unfold finishWithMeta
  split
  · exact only_pure _
  · refine only_bind (unkeyed_aside (aside_look _)) fun m => ?_
    split
    · exact only_bind (unkeyed_deletes (deletes_cleanupOrphanedWrites _ _)) fun _ => only_pure _
    · exact only_bind (unkeyed_catalogPut _ _ _ _) fun _ => only_pure _

theorem safe_putWithMeta [Crates] {refs : RawRefRegistry} (hrefs : ∀ x st, refs.get x = some st → st = s0.cluster.config.storeOf x)
    (payload metadata : Bytes) {Q : List (ι × Event) → Prop} (hQ : Q tr) (hlater : ∀ t t', Q t → Later (Keyed k) i t t' → Q t') :
    Safe (Keyed k) (Creating s0 k) i (putWithMeta refs k payload metadata)
      (fun r t => (r = .ok () → RecordedBy k i t) ∧ Q t) tr := by
  have hlook : ∀ {β : Type} (f : Sys → β) t, Safe (Keyed k) (Creating s0 k) i (look f) (fun _ _ => True) t := fun f t =>
    safe_look Creating.look fun _ _ _ => trivial
  refine Safe.frame ?_ hQ hlater ?_
  · unfold putWithMeta
    refine safe_bind (hlook _ _) fun ro t1 _ => ?_
    split
    · exact safe_pure fun _ _ hr => by cases hr
    · refine safe_bind (hlook _ _) fun targets t2 _ => ?_
      refine safe_bind (safe_fanOutWithMeta hrefs payload metadata targets) fun os t3 h3 => ?_
      refine safe_bind (safe_aside (Q := fun t => ∀ x ∈ os.accepted, Wrote s0 k i x t) (aside_markWriteFailures _ _ _ _) h3
        fun t t' h ht x hx => (h x hx).later ht) fun ids t4 h4 => ?_
      dsimp only
      split
      · refine safe_bind ((safe_fanOutWithMeta hrefs payload metadata ids).frame (Q := fun t => ∀ x ∈ os.accepted, Wrote s0 k i x t) h4
          (fun t t' h ht x hx => (h x hx).later ht) (unkeyed_fanOutWithMeta _ _ _ _)) fun os' t5 h5 => ?_
        refine safe_finishWithMeta _ _ _ _ fun x hx => ?_
        rcases List.mem_append.mp hx with hx | hx
        · exact h5.2 x hx
        · exact h5.1 x hx
      · refine safe_finishWithMeta _ _ _ _ fun x hx => ?_
        rcases List.mem_append.mp hx with hx | hx
        · exact h4 x hx
        · cases hx
  · unfold putWithMeta
    refine only_bind (unkeyed_aside (aside_look _)) fun ro => ?_
    split
    · exact only_pure _
    · refine only_bind (unkeyed_aside (aside_look _)) fun targets => ?_
      refine only_bind (unkeyed_fanOutWithMeta _ _ _ _) fun os => ?_
      refine only_bind (unkeyed_aside (aside_markWriteFailures _ _ _ _)) fun ids => ?_
      dsimp only
      split
      · exact only_bind (unkeyed_fanOutWithMeta _ _ _ _) fun _ => unkeyed_finishWithMeta _ _ _ _ _
      · exact unkeyed_finishWithMeta _ _ _ _ _

/-! ## The calls -/

theorem safe_plainPut [Crates] (payload : Bytes) :
    Safe (Keyed k) (Creating s0 k) i (put k payload) (fun r t => r = .ok () → RecordedBy k i t) tr := by
  have hlook : ∀ {β : Type} (f : Sys → β) t, Safe (Keyed k) (Creating s0 k) i (look f) (fun _ _ => True) t := fun f t =>
    safe_look Creating.look fun _ _ _ => trivial
  have herr : ∀ (e : Error) t, Safe (Keyed k) (Creating s0 k) i (pure (.error e) : ClusterM (Except Error Unit))
      (fun r t => r = .ok () → RecordedBy k i t) t := fun e t => safe_pure fun _ _ hr => by cases hr
  have hrec : ∀ placed t, PlacedKey s0 k i (.ok placed) t →
      Safe (Keyed k) (Creating s0 k) i (recordPut k payload placed) (fun r t => r = .ok () → RecordedBy k i t) t := by
    intro placed t h
    obtain ⟨h1, h2⟩ := h placed rfl
    exact (safe_recordKey payload h1 h2 (Q := fun _ => True) trivial fun _ _ _ _ => trivial).post fun _ _ h _ => h.1
  have hwrite : ∀ targets t, Safe (Keyed k) (Creating s0 k) i (writeToShards k payload targets) (PlacedKey s0 k i) t := fun targets t =>
    (safe_writeKey payload targets (Q := fun _ => True) trivial fun _ _ _ _ => trivial).post fun _ _ h => h.1
  unfold put
  refine safe_bind (hlook _ _) fun ro t1 _ => ?_
  split
  · exact herr _ _
  · refine safe_bind (hlook _ _) fun targets t2 _ => ?_
    split
    · exact herr _ _
    · refine safe_bind (hwrite _ _) fun r t3 h3 => ?_
      cases r with
      | ok placed => exact hrec placed t3 h3
      | error e =>
        dsimp only
        split
        · exact herr _ _
        · refine safe_bind (safe_aside (Q := fun _ => True) (aside_retryTargets _ _) trivial fun _ _ _ _ => trivial) fun others t4 _ => ?_
          cases others with
          | none => exact herr _ _
          | some others =>
            refine safe_bind (hwrite _ _) fun r t5 h5 => ?_
            cases r with
            | ok placed => exact hrec placed t5 h5
            | error e => exact herr _ _

/-- Who inserts the placeholder owns the key, if it has not removed the entry before. -/
theorem safe_tryInsert (targets : List ShardId) (size : Nat) (hnot : ∀ e, (i, Event.removed k e) ∉ tr) :
    Safe (Keyed k) (Creating s0 k) i (catalogTryInsert k targets size) (fun done t => done = true → Owns k i t) tr := by
  refine safe_step fun s t ht h => ?_
  have hnot' : ∀ e, (i, Event.removed k e) ∉ t := fun e he => hnot e ((ht.key (.inr ⟨e, rfl⟩)).mp he)
  cases hget : s.cluster.catalog.get k with
  | none =>
    have hdone : (s.cluster.catalog.tryInsert k targets size s.now).1 = true := by rw [Catalog.tryInsert, hget]
    dsimp only
    rw [hdone]
    refine ⟨h.insert ⟨rfl, rfl, by simp⟩ hget ?_, fun t' ht' _ => Owns.later ⟨by simp, fun e he => ?_⟩ ht'⟩
    · show ((s.cluster.catalog.tryInsert k targets size s.now).2.get k).isSome = true
      rw [Catalog.get_tryInsert _ _ _ _ _ _ hget, if_pos rfl]
      rfl
    · exact hnot' e (by simpa using he)
  | some e =>
    have hdone : s.cluster.catalog.tryInsert k targets size s.now = (false, s.cluster.catalog) := by rw [Catalog.tryInsert, hget]
    dsimp only
    rw [hdone]
    refine ⟨?_, fun _ _ hd => by cases hd⟩
    refine h.next rfl rfl rfl (fun hk => ?_) (CatalogStep.stored (s := s) ⟨rfl, rfl, by simp⟩ h)
    rcases hk with hk | ⟨_, hk⟩ <;> cases hk

/-- The owner removes the entry. -/
theorem safe_catalogRemove (hown : Owns k i tr) :
    Safe (Keyed k) (Creating s0 k) i (catalogRemove k) (fun _ _ => True) tr :=
  safe_step fun _ _ ht h => ⟨h.remove ⟨rfl, rfl, by simp⟩ (hown.later ht), fun _ _ => trivial⟩

theorem safe_dropPlaceholder (hown : Owns k i tr) :
    Safe (Keyed k) (Creating s0 k) i (dropPlaceholder k) (fun _ _ => True) tr := by
  unfold dropPlaceholder
  refine safe_bind (safe_aside (Q := Owns k i) (aside_look _) hown fun t t' h ht => h.later ht) fun entry t1 h1 => ?_
  cases entry with
  | none => exact safe_pure fun _ _ => trivial
  | some e =>
    dsimp only
    split
    · exact safe_bind (safe_catalogRemove h1) fun _ _ _ => safe_pure fun _ _ => trivial
    · exact safe_pure fun _ _ => trivial

def Created (k : Key) (i : ι) (r : Except Error Unit) (t : List (ι × Event)) : Prop :=
  r = .ok () → RecordedBy k i t ∧ Owns k i t

theorem safe_putCreate [Crates] (payload : Bytes) (hnot : ∀ e, (i, Event.removed k e) ∉ tr) :
    Safe (Keyed k) (Creating s0 k) i (putCreate k payload) (Created k i) tr := by
  have herr : ∀ (e : Error) t, Safe (Keyed k) (Creating s0 k) i (pure (.error e) : ClusterM (Except Error Unit))
      (Created k i) t := fun e t => safe_pure fun _ _ hr => by cases hr
  have hdrop : ∀ (e : Error) t, Owns k i t → Safe (Keyed k) (Creating s0 k) i (do
      dropPlaceholder k
      pure (.error e) : ClusterM (Except Error Unit)) (Created k i) t := fun e t hown =>
    safe_bind (safe_dropPlaceholder hown) fun _ t' _ => herr e t'
  have hrec : ∀ placed t, PlacedKey s0 k i (.ok placed) t → Owns k i t →
      Safe (Keyed k) (Creating s0 k) i (recordPut k payload placed) (Created k i) t := by
    intro placed t h hown
    obtain ⟨h1, h2⟩ := h placed rfl
    exact (safe_recordKey payload h1 h2 hown fun t t' h ht => h.later ht).post fun _ _ h _ => h
  unfold putCreate
  refine safe_bind (safe_aside (Q := fun t => ∀ e, (i, Event.removed k e) ∉ t) (aside_look _) hnot
    fun t t' h ht e he => h e ((ht.key (.inr ⟨e, rfl⟩)).mp he)) fun targets t1 h1 => ?_
  split
  · exact herr _ _
  · refine safe_bind (safe_tryInsert targets _ h1) fun done t2 h2 => ?_
    cases done with
    | false => exact herr _ _
    | true =>
      have hown := h2 rfl
      rw [if_neg (by simp)]
      refine safe_bind (safe_writeKey payload targets hown fun t t' h ht => h.later ht) fun r t3 h3 => ?_
      cases r with
      | ok placed => exact hrec placed t3 h3.1 h3.2
      | error e =>
        dsimp only
        split
        · exact hdrop _ _ h3.2
        · refine safe_bind (safe_aside (Q := Owns k i) (aside_retryTargets _ _) h3.2 fun t t' h ht => h.later ht) fun others t4 h4 => ?_
          cases others with
          | none => exact hdrop _ _ h4
          | some others =>
            refine safe_bind (safe_writeKey payload others h4 fun t t' h ht => h.later ht) fun r t5 h5 => ?_
            cases r with
            | ok placed => exact hrec placed t5 h5.1 h5.2
            | error e => exact hdrop _ _ h5.2

theorem safe_copyIfNotExists [Crates] {src : Key} (hsrc : src ≠ k) (hrefs : s0.cluster.config.OwnRefs)
    (hnot : ∀ e, (i, Event.removed k e) ∉ tr) :
    Safe (Keyed k) (Creating s0 k) i (copyIfNotExists src k) (Created k i) tr := by
  have hstable : ∀ t t', (∀ e, (i, Event.removed k e) ∉ t) → Later (Keyed k) i t t' → ∀ e, (i, Event.removed k e) ∉ t' :=
    fun t t' h ht e he => h e ((ht.key (.inr ⟨e, rfl⟩)).mp he)
  have herr : ∀ (e : Error) t, Safe (Keyed k) (Creating s0 k) i (pure (.error e) : ClusterM (Except Error Unit))
      (Created k i) t := fun e t => safe_pure fun _ _ hr => by cases hr
  have hdrop : ∀ (e : Error) t, Owns k i t → Safe (Keyed k) (Creating s0 k) i (do
      let _ ← catalogRemove k
      pure (.error e) : ClusterM (Except Error Unit)) (Created k i) t := fun e t hown =>
    safe_bind (safe_catalogRemove hown) fun _ t' _ => herr e t'
  unfold copyIfNotExists
  refine safe_bind (safe_aside (aside_look _) hnot hstable) fun ro t1 h1 => ?_
  split
  · exact herr _ _
  · refine safe_bind (safe_aside (aside_look _) h1 hstable) fun entry t2 h2 => ?_
    split
    · exact herr _ _
    · refine safe_bind (safe_aside (aside_get hsrc) h2 hstable) fun got t3 h3 => ?_
      cases got with
      | error e => exact herr _ _
      | ok o =>
        refine safe_bind (safe_aside (aside_look _) h3 hstable) fun targets t4 h4 => ?_
        refine safe_bind (safe_tryInsert targets _ h4) fun done t5 h5 => ?_
        cases done with
        | false => exact herr _ _
        | true =>
          have hown := h5 rfl
          have hlater : ∀ t t', Owns k i t → Later (Keyed k) i t t' → Owns k i t' := fun t t' h ht => h.later ht
          rw [if_neg (by simp)]
          refine safe_bind (safe_aside (aside_readObjectMetadata _ _) hown hlater) fun metaBytes t6 h6 => ?_
          have hget : Safe (Keyed k) (Creating s0 k) i rawRefs
              (fun refs t => refs = s0.cluster.config.rawRefs ∧ Owns k i t) t6 :=
            (safe_look Creating.look (Q := fun refs => refs = s0.cluster.config.rawRefs) fun s t h => by rw [h.config]).frame h6 hlater
              (unkeyed_aside (aside_look _))
          refine safe_bind hget ?_
          rintro refs t7 ⟨rfl, h7⟩
          split
          · next refs hmatch =>
            have hr : s0.cluster.config.rawRefs = some refs := by
              split at hmatch
              · cases hmatch
              · exact hmatch
            refine safe_bind (safe_putWithMeta (hrefs refs hr) _ _ h7 hlater) fun r t8 h8 => ?_
            cases r with
            | ok _ =>
              refine safe_pure fun t ht _ => ⟨?_, h8.2.later ht⟩
              obtain ⟨e, he⟩ := h8.1 rfl
              exact ⟨e, ht.mem he⟩
            | error e => exact hdrop _ _ h8.2
          · refine safe_bind (safe_writeKey _ _ h7 hlater) fun r t8 h8 => ?_
            cases r with
            | ok placed =>
              obtain ⟨h9, h10⟩ := h8.1 placed rfl
              refine safe_bind (safe_catalogPut _ _ _ h9 h10 h8.2 hlater) fun _ t9 h11 => safe_pure fun t ht _ => ?_
              obtain ⟨e, he⟩ := h11.1
              exact ⟨⟨e, ht.mem he⟩, h11.2.later ht⟩
            | error e => exact hdrop _ _ h8.2

/-! ## Any number of calls -/

inductive Creation where
  | create (payload : Bytes)
  | copy (src : Key)
  | put (payload : Bytes)

/-- The call succeeds only if there is no entry. -/
def Creation.conditional : Creation → Bool
  | .put _ => false
  | _ => true

def Creation.run [Crates] (k : Key) : Creation → ClusterM (Except Error Unit)
  | .create payload => putOpts k payload .create
  | .copy src => copyIfNotExists src k
  | .put payload => Sharded.put k payload

theorem Creation.safe [Crates] (c : Creation) (hrefs : s0.cluster.config.OwnRefs) (hsrc : ∀ src, c = .copy src → src ≠ k)
    (hnot : ∀ e, (i, Event.removed k e) ∉ tr) :
    Safe (Keyed k) (Creating s0 k) i (c.run k)
      (fun r t => r = .ok () → RecordedBy k i t ∧ (c.conditional = true → Owns k i t)) tr := by
  cases c with
  | create payload =>
    have hput : Safe (Keyed k) (Creating s0 k) i (putOpts k payload .create) (Created k i) tr := by
      unfold putOpts
      refine safe_bind (safe_aside (Q := fun t => ∀ e, (i, Event.removed k e) ∉ t) (aside_look _) hnot
        fun t t' h ht e he => h e ((ht.key (.inr ⟨e, rfl⟩)).mp he)) fun ro t1 h1 => ?_
      split
      · exact safe_pure fun _ _ hr => by cases hr
      · exact safe_putCreate payload h1
    exact hput.post fun _ _ h hr => ⟨(h hr).1, fun _ => (h hr).2⟩
  | copy src => exact (safe_copyIfNotExists (hsrc src rfl) hrefs hnot).post fun _ _ h hr => ⟨(h hr).1, fun _ => (h hr).2⟩
  | put payload => exact (safe_plainPut payload).post fun _ _ h hr => ⟨h hr, fun hc => by cases hc⟩

/-- No real entry was removed, and no clean-up deleted what a call that records the key had written. -/
structure Spared (k : Key) (tr : List (ι × Event)) : Prop where
  removals : ∀ i e, (i, Event.removed k (some e)) ∈ tr → e.crc32c = none
  deletes : ∀ pre j st post, tr = pre ++ (j, Event.call st .delete k none) :: post →
    ∀ i, (i, Event.call st .put k none) ∈ pre → ∀ e, (i, Event.recorded k e) ∉ tr

theorem lastOf_split {p : Event → Bool} {tr : List (ι × Event)} {y : ι × Event} (h : lastOf p tr = some y) :
    ∃ pre post, tr = pre ++ y :: post ∧ ∀ x ∈ tr, p x.2 = true → x ∈ pre ∨ x = y := by
  induction tr using List.reverseRecOn with
  | nil => cases h
  | append_singleton tr x ih =>
    rw [lastOf_append] at h
    split at h
    · cases h
      refine ⟨tr, [], rfl, fun z hz _ => ?_⟩
      simpa using hz
    · next hx =>
      obtain ⟨pre, post, h1, h2⟩ := ih h
      refine ⟨pre, post ++ [x], by simp [h1], fun z hz hp => ?_⟩
      rcases List.mem_append.mp hz with hz | hz
      · exact h2 z hz hp
      · rw [List.mem_singleton.mp hz] at hp
        exact absurd hp hx

/-- What the calls leave, once one of them has recorded the key. -/
theorem Creating.readable {s : Sys} (h : Creating s0 k s tr) (hs : Spared k tr) {i : ι} (hrec : RecordedBy k i tr) :
    ∃ e, s.cluster.catalog.get k = some e ∧ e.shards ≠ [] ∧
      ∀ x ∈ e.shards, ((s.stores (s.cluster.config.storeOf x)).objects.lookup k).isSome := by
  obtain ⟨e0, he0⟩ := hrec
  obtain ⟨⟨j, l⟩, hlast⟩ := exists_lastOf (p := fun l => isRecord k l || isLoss k l) he0 (by simp [isRecord])
  -- the last of these events is no removal of a real entry
  obtain ⟨e, rfl⟩ : ∃ e, l = .recorded k e := by
    obtain ⟨hmem, hl⟩ := mem_of_lastOf hlast
    cases l with
    | recorded key e =>
      have hkey : key = k := by simpa [isRecord, isLoss] using hl
      subst hkey
      exact ⟨e, rfl⟩
    | removed key e =>
      cases e with
      | none => simp [isRecord, isLoss] at hl
      | some e =>
        have h1 : key = k ∧ e.crc32c.isSome := by simpa [isRecord, isLoss] using hl
        obtain ⟨rfl, hcrc⟩ := h1
        rw [hs.removals j e hmem] at hcrc
        cases hcrc
    | _ => simp [isRecord, isLoss] at hl
  have hmem := (mem_of_lastOf hlast).1
  obtain ⟨-, hne, hwrote⟩ := h.records j e hmem
  refine ⟨e, h.entry j e hlast, hne, fun x hx => ?_⟩
  rw [h.config]
  have hw := hwrote x hx
  obtain ⟨⟨j', l'⟩, hl'⟩ := exists_lastOf (p := touches k (s0.cluster.config.storeOf x)) hw (by simp [touches])
  have hl2 := (mem_of_lastOf hl').2
  have hcases : l' = .call (s0.cluster.config.storeOf x) .put k none ∨
      l' = .call (s0.cluster.config.storeOf x) .delete k none := by
    simpa [touches] using hl2
  rcases hcases with rfl | rfl
  · exact h.stored _ j' hl'
  · -- a delete after the write of a call that records the key
    obtain ⟨pre, post, htr, hall⟩ := lastOf_split hl'
    rcases hall _ hw (by simp [touches]) with hp | hp
    · exact absurd hmem (hs.deletes pre j' _ post htr j hp e)
    · simp at hp

/-- Conditional creates and plain puts of one key, in any interleaving. -/
theorem creates_are_exclusive [Crates] [DecidableEq ι] (s0 : Sys) (k : Key) (calls : ι → Creation) (hrefs : s0.cluster.config.OwnRefs)
    (hsrc : ∀ i src, calls i = .copy src → src ≠ k) {q : Pool ι Event Sys (Except Error Unit)}
    (hrun : Pool.Runs ⟨fun i => (calls i).run k, s0, []⟩ q) :
    (∀ i j, (calls i).conditional = true → (calls j).conditional = true → (q.procs i).result = some (.ok ()) →
      (q.procs j).result = some (.ok ()) → i = j) ∧
    (Spared k q.trace → (∃ i, (q.procs i).result = some (.ok ())) →
      ∃ e, q.state.cluster.catalog.get k = some e ∧ e.shards ≠ [] ∧
        ∀ x ∈ e.shards, ((q.state.stores (q.state.cluster.config.storeOf x)).objects.lookup k).isSome) := by
  have hI0 : Creating s0 k s0 ([] : List (ι × Event)) :=
    ⟨rfl, by simp, by simp, by simp, fun _ h => absurd h.1 (by simp), fun _ _ h => absurd h.1 (by simp)⟩
  obtain ⟨hI, hp⟩ := Pool.safe (I := Creating s0 k)
    (R := fun i r t => r = .ok () → RecordedBy k i t ∧ ((calls i).conditional = true → Owns k i t)) hrun hI0
    fun i => (calls i).safe hrefs (hsrc i) (by simp)
  have hdone : ∀ i, (q.procs i).result = some (.ok ()) →
      RecordedBy k i q.trace ∧ ((calls i).conditional = true → Owns k i q.trace) := by
    intro i hi
    have h1 := hp i
    rw [eq_ret_of_result hi] at h1
    exact h1 q.trace (.refl _) rfl
  refine ⟨fun i j hci hcj hi hj => hI.unique i j ((hdone i hi).2 hci) ((hdone j hj).2 hcj), fun hs hok => ?_⟩
  obtain ⟨i, hi⟩ := hok
  exact hI.readable hs (hdone i hi).1

section Runs

open Sample Raw.Sample

/-- Two shards, both needed; the second fails its first write. -/
def secondFailsOnce : Sys := sys 2 (config 2 2) fun st => if st = 1 then Store.failing fresh .put [broken] else fresh

def createAndPut (schedule : List Bool) : Pool Bool Event Sys (Except Error Unit) :=
  Pool.sched schedule ⟨fun i => Creation.run "k" (if i then .put [2] else .create [1]), secondFailsOnce, []⟩

theorem runs_createAndPut (schedule : List Bool) :
    Pool.Runs ⟨fun i => Creation.run "k" (if i then .put [2] else .create [1]), secondFailsOnce, []⟩ (createAndPut schedule) :=
  Pool.runs_sched _ _

/-- The put writes both shards while the create runs; the create fails and removes its placeholder, and only then the put
    records its entry. -/
def overlapping : List Bool := List.replicate 8 false ++ List.replicate 6 true ++ List.replicate 60 false ++ List.replicate 60 true

/-- No delete of the object, and no removal of an entry that a put has recorded. -/
def sparesObject : Event → Bool
  | .removed "k" (some e) => e.crc32c.isNone
  | .call _ .delete "k" none => false
  | _ => true

theorem put_beside_failed_create_stays :
    ∃ e, (createAndPut overlapping).state.cluster.catalog.get "k" = some e ∧ e.shards ≠ [] ∧
      ∀ x ∈ e.shards, (((createAndPut overlapping).state.stores
        ((createAndPut overlapping).state.cluster.config.storeOf x)).objects.lookup "k").isSome := by
  have hevents : ((createAndPut overlapping).trace.all fun x => sparesObject x.2) = true := by decide +kernel
  refine (creates_are_exclusive secondFailsOnce "k" (fun i => if i then .put [2] else .create [1]) ?_ ?_
    (runs_createAndPut overlapping)).2 ⟨fun i e he => ?_, fun pre j st post htr => ?_⟩ ⟨true, by decide +kernel⟩
  · intro refs hrefs
    cases hrefs
  · intro i src h
    cases i <;> cases h
  · exact Option.isNone_iff_eq_none.mp (List.all_eq_true.mp hevents _ he)
  · have hmem : (j, Event.call st .delete "k" none) ∈ (createAndPut overlapping).trace := by
      rw [htr]
      exact List.mem_append_right _ List.mem_cons_self
    exact (Bool.false_ne_true (List.all_eq_true.mp hevents _ hmem)).elim

def between : List Bool := List.replicate 13 false ++ List.replicate 60 true ++ List.replicate 60 false

theorem a_failed_create_removes_a_put : ¬ ∀ (s0 : Sys) (k : Key) (calls : Bool → Creation)
    (q : Pool Bool Event Sys (Except Error Unit)), s0.cluster.catalog.get k = none →
    (∀ st, (s0.stores st).objects.lookup k = none) → Pool.Runs ⟨fun i => (calls i).run k, s0, []⟩ q →
    (∀ i j, (calls i).conditional = true → (calls j).conditional = true → (q.procs i).result = some (.ok ()) →
      (q.procs j).result = some (.ok ()) → i = j) ∧
    ((∃ i, (q.procs i).result = some (.ok ())) → (q.state.cluster.catalog.get k).isSome) := by
  intro h
  have habsent : ∀ st, (secondFailsOnce.stores st).objects.lookup "k" = none := by
    intro st
    simp only [secondFailsOnce, sys]
    split <;> rfl
  have hlisted := (h secondFailsOnce "k" (fun i => if i then .put [2] else .create [1]) (createAndPut between)
    (by decide +kernel) habsent (runs_createAndPut between)).2 ⟨true, by decide +kernel⟩
  have hgone : ((createAndPut between).state.cluster.catalog.get "k").isSome = false := by decide +kernel
  rw [hgone] at hlisted
  cases hlisted

end Runs

end ObjStr.Sharded
