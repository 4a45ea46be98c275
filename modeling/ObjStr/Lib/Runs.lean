/-
  ObjStr.Lib.Runs — intervals in the order of their starts, and what comparing neighbours says of them.

  An interval hits the next one if it reaches past its start. A run goes on as long as each interval hits the next; its first
  one is its front. A sweep that drops what its neighbour hits keeps the fronts (`fronts`).
  - `fronts_clean_iff`: the fronts are disjoint, and each of the others meets one of them, if and only if every run is
    `Covered`: its front ends before the next run starts, and each of the others starts before that or reaches past the next.
  - `pairwise_of_chain`: if no interval hits the next one, all are disjoint.
-/

import Mathlib.Data.List.Pairwise
import Mathlib.Tactic.Common

namespace ObjStr.Lib

variable {α : Type} {start stop : α → Nat}

def Meets (start stop : α → Nat) (a b : α) : Prop := start a < stop b ∧ start b < stop a

def runs (start stop : α → Nat) : List α → List (α × List α)
  | [] => []
  | a :: l =>
    match runs start stop l with
    | [] => [(a, [])]
    | (b, others) :: more => if start b < stop a then (a, b :: others) :: more else (a, []) :: (b, others) :: more

def fronts (rs : List (α × List α)) : List α := rs.map Prod.fst

def others (rs : List (α × List α)) : List α := rs.flatMap Prod.snd

/-- The front of each run ends before the next run starts; the others start before the front ends, or reach past the start
    of the next run. -/
def Covered (start stop : α → Nat) : List (α × List α) → Prop
  | [] => True
  | (front, others) :: more =>
    (∀ next ∈ more.head?, stop front ≤ start next.1) ∧
      (∀ a ∈ others, start a < stop front ∨ ∃ next ∈ more.head?, start next.1 < stop a) ∧ Covered start stop more

instance Covered.decidable (start stop : α → Nat) : (rs : List (α × List α)) → Decidable (Covered start stop rs)
  | [] => isTrue trivial
  | (_, _) :: more => @instDecidableAnd _ _ _ (@instDecidableAnd _ _ _ (Covered.decidable start stop more))

/-! ## Runs of a list -/

/-- The runs, one after the other, are the list. -/
theorem flatMap_runs (start stop : α → Nat) (l : List α) : (runs start stop l).flatMap (fun r => r.1 :: r.2) = l := by
  induction l with
  | nil => rfl
  | cons a l ih =>
    unfold runs
    cases hr : runs start stop l with
    | nil =>
      rw [hr] at ih
      rw [← ih]
      rfl
    | cons r more =>
      rw [hr] at ih
      dsimp only
      rw [← ih]
      split <;> rfl

/-- The first run begins with the list. -/
theorem head_runs (start stop : α → Nat) (a : α) (l : List α) : ∃ others more, runs start stop (a :: l) = (a, others) :: more := by
  unfold runs
  split
  · exact ⟨_, _, rfl⟩
  · split
    · exact ⟨_, _, rfl⟩
    · exact ⟨_, _, rfl⟩

theorem fronts_sublist (l : List α) : (fronts (runs start stop l)).Sublist l := by
  conv_rhs => rw [← flatMap_runs start stop l]
  unfold fronts
  induction runs start stop l with
  | nil => exact .slnil
  | cons r rs ih => exact (ih.trans (List.sublist_append_right _ _)).cons_cons _

theorem perm_runs (start stop : α → Nat) (l : List α) : l.Perm (fronts (runs start stop l) ++ others (runs start stop l)) := by
  conv_lhs => rw [← flatMap_runs start stop l]
  unfold fronts others
  induction runs start stop l with
  | nil => exact .refl _
  | cons r rs ih =>
    rw [List.flatMap_cons, List.map_cons, List.flatMap_cons, List.cons_append, List.cons_append]
    refine .cons _ ((ih.append_left r.2).trans ?_)
    rw [← List.append_assoc, ← List.append_assoc]
    exact List.perm_append_comm.append_right _

theorem mem_runs_iff {l : List α} {a : α} : a ∈ l ↔ a ∈ fronts (runs start stop l) ∨ a ∈ others (runs start stop l) := by
  rw [(perm_runs start stop l).mem_iff, List.mem_append]

/-! ## Comparing neighbours -/

theorem covered_cons {front : α} {os : List α} {more : List (α × List α)} :
    Covered start stop ((front, os) :: more) ↔ (∀ next ∈ more.head?, stop front ≤ start next.1) ∧
      (∀ a ∈ os, start a < stop front ∨ ∃ next ∈ more.head?, start next.1 < stop a) ∧ Covered start stop more := Iff.rfl

def Ordered (start : α → Nat) (rs : List (α × List α)) : Prop :=
  (rs.flatMap fun r => r.1 :: r.2).Pairwise fun a b => start a ≤ start b

theorem ordered_cons {front : α} {os : List α} {more : List (α × List α)} (h : Ordered start ((front, os) :: more)) :
    (∀ a ∈ os, start front ≤ start a) ∧ (∀ a ∈ fronts more, start front ≤ start a ∧ ∀ b ∈ os, start b ≤ start a) ∧
      (∀ a ∈ others more, start front ≤ start a) ∧
      (∀ next ∈ more.head?, ∀ a, a ∈ fronts more ∨ a ∈ others more → start next.1 ≤ start a) ∧ Ordered start more := by
  unfold Ordered at h
  rw [List.flatMap_cons, List.cons_append, List.pairwise_cons, List.pairwise_append] at h
  obtain ⟨hfront, -, hmore, hacross⟩ := h
  have hin : ∀ a, a ∈ fronts more ∨ a ∈ others more → a ∈ more.flatMap fun r => r.1 :: r.2 := by
    intro a ha
    unfold fronts others at ha
    rw [List.mem_flatMap]
    rcases ha with ha | ha
    · obtain ⟨r, hr, rfl⟩ := List.mem_map.mp ha
      exact ⟨r, hr, List.mem_cons_self⟩
    · obtain ⟨r, hr, ha⟩ := List.mem_flatMap.mp ha
      exact ⟨r, hr, List.mem_cons_of_mem _ ha⟩
  refine ⟨fun a ha => hfront a (List.mem_append_left _ ha), fun a ha => ⟨hfront a (List.mem_append_right _ (hin a (.inl ha))), ?_⟩,
    fun a ha => hfront a (List.mem_append_right _ (hin a (.inr ha))), fun next hnext a ha => ?_, hmore⟩
  · exact fun b hb => hacross b hb a (hin a (.inl ha))
  · cases more with
    | nil => cases hnext
    | cons r more =>
      obtain rfl := Option.some.inj hnext
      have hm := hin a ha
      rw [List.flatMap_cons, List.cons_append, List.pairwise_cons] at hmore
      rw [List.flatMap_cons, List.cons_append, List.mem_cons] at hm
      rcases hm with rfl | hm
      · exact Nat.le_refl _
      · exact hmore.1 a hm

theorem exists_head_of_mem_fronts {rs : List (α × List α)} {a : α} (h : a ∈ fronts rs) : ∃ r, r ∈ rs.head? := by
  cases rs with
  | nil => cases h
  | cons r rs => exact ⟨r, rfl⟩

theorem exists_head_of_mem_others {rs : List (α × List α)} {a : α} (h : a ∈ others rs) : ∃ r, r ∈ rs.head? := by
  cases rs with
  | nil => cases h
  | cons r rs => exact ⟨r, rfl⟩

/-- The fronts are disjoint and each of the others meets one of them. -/
structure Clean (start stop : α → Nat) (rs : List (α × List α)) : Prop where
  disjoint : (fronts rs).Pairwise fun a b => stop a ≤ start b
  met : ∀ b ∈ others rs, ∃ a ∈ fronts rs, Meets start stop a b

theorem clean_iff_covered {rs : List (α × List α)} (hord : Ordered start rs)
    (hpos : ∀ a, a ∈ fronts rs ∨ a ∈ others rs → start a < stop a) : Clean start stop rs ↔ Covered start stop rs := by
  induction rs with
  | nil => exact iff_of_true ⟨.nil, fun b hb => nomatch hb⟩ trivial
  | cons r more ih =>
    obtain ⟨front, os⟩ := r
    obtain ⟨hos, hfronts, hothers, hnext, hmore⟩ := ordered_cons hord
    have hfrontPos : start front < stop front := hpos front (.inl List.mem_cons_self)
    have hosPos : ∀ a ∈ os, start a < stop a := fun a ha => hpos a (.inr (List.mem_append_left _ ha))
    have hmorePos : ∀ a, a ∈ fronts more ∨ a ∈ others more → start a < stop a := by
      intro a ha
      rcases ha with ha | ha
      · exact hpos a (.inl (List.mem_cons_of_mem _ ha))
      · exact hpos a (.inr (List.mem_append_right _ ha))
    have ih := ih hmore hmorePos
    have hhead : ∀ next ∈ more.head?, next.1 ∈ fronts more := fun next h => List.mem_map_of_mem (List.mem_of_mem_head? h)
    rw [covered_cons, ← ih]
    constructor
    · intro h
      have hdisjoint : (∀ a ∈ fronts more, stop front ≤ start a) ∧ (fronts more).Pairwise _ := List.pairwise_cons.mp h.disjoint
      refine ⟨fun next hn => hdisjoint.1 _ (hhead next hn), fun a ha => ?_, hdisjoint.2, fun b hb => ?_⟩
      · obtain ⟨c, hc, hlt, hlt'⟩ := h.met a (List.mem_append_left _ ha)
        rcases List.mem_cons.mp hc with rfl | hc
        · exact .inl hlt'
        · -- a front behind the run: then the first of them is reached too
          obtain ⟨next, hn⟩ := exists_head_of_mem_fronts hc
          have hle := hnext next hn c (.inl hc)
          exact .inr ⟨next, hn, by omega⟩
      · obtain ⟨c, hc, hlt, hlt'⟩ := h.met b (List.mem_append_right _ hb)
        rcases List.mem_cons.mp hc with rfl | hc
        · -- the front ends before the next run starts, and does not meet what is in it
          exfalso
          obtain ⟨next, hn⟩ := exists_head_of_mem_others hb
          have hle := hnext next hn b (.inr hb)
          have hend := hdisjoint.1 _ (hhead next hn)
          omega
        · exact ⟨c, hc, hlt, hlt'⟩
    · intro h
      obtain ⟨hend, hcover, hclean⟩ := h
      refine ⟨List.pairwise_cons.mpr ⟨fun a ha => ?_, hclean.disjoint⟩, fun b hb => ?_⟩
      · obtain ⟨next, hn⟩ := exists_head_of_mem_fronts ha
        exact Nat.le_trans (hend next hn) (hnext next hn a (.inl ha))
      · rcases List.mem_append.mp hb with hb | hb
        · have hstart := hos b hb
          have hbpos := hosPos b hb
          rcases hcover b hb with hlt | ⟨next, hn, hlt⟩
          · exact ⟨front, List.mem_cons_self, by omega, hlt⟩
          · have hle := (hfronts _ (hhead next hn)).2 b hb
            have hnpos := hmorePos _ (.inl (hhead next hn))
            exact ⟨next.1, List.mem_cons_of_mem _ (hhead next hn), hlt, by omega⟩
        · obtain ⟨a, ha, hmeet⟩ := hclean.met b hb
          exact ⟨a, List.mem_cons_of_mem _ ha, hmeet⟩

/-- Sorted intervals that are not empty: what a comparison of neighbours keeps and drops is clean exactly if every run is
    covered. -/
theorem fronts_clean_iff {l : List α} (hord : l.Pairwise fun a b => start a ≤ start b) (hpos : ∀ a ∈ l, start a < stop a) :
    Clean start stop (runs start stop l) ↔ Covered start stop (runs start stop l) := by
  refine clean_iff_covered ?_ fun a ha => hpos a (mem_runs_iff.mpr ha)
  unfold Ordered
  rw [flatMap_runs]
  exact hord

/-- No interval hits the next one: then none hits a later one. -/
theorem pairwise_of_chain (start stop : α → Nat) {l : List α} (hle : ∀ a ∈ l, start a ≤ stop a) (h : l.IsChain fun a b => stop a ≤ start b) :
    l.Pairwise fun a b => stop a ≤ start b := by
  induction l with
  | nil => exact .nil
  | cons a l ih =>
    cases l with
    | nil => exact List.pairwise_singleton _ _
    | cons c l =>
      obtain ⟨hac, hchain⟩ := List.isChain_cons_cons.mp h
      have ih := ih (fun b hb => hle b (List.mem_cons_of_mem _ hb)) hchain
      refine List.pairwise_cons.mpr ⟨fun b hb => ?_, ih⟩
      rcases List.mem_cons.mp hb with rfl | hb
      · exact hac
      · have hcb := (List.pairwise_cons.mp ih).1 b hb
        have hc := hle c (by simp)
        omega

end ObjStr.Lib
