/-
  ObjStr.Lib.Pick — the first few of a list that qualify, and the places of a circle in order.

  - `pick p k l`: the first `k` of `l` that `p` holds of. When one of them no longer qualifies, the others
    stay and at most one moves up (`mem_pick_of_lose`, `eq_of_new`); when one behind them no longer does,
    nothing changes (`pick_lose`).
  - `clockwise n home`: the `n` places of a circle from `home` on, each once (`mem_clockwise`,
    `nodup_clockwise`).
-/

import Mathlib.Data.List.Nodup
import Mathlib.Data.Nat.ModEq
import Mathlib.Tactic.Common

namespace ObjStr.Lib

/-! ## The first that qualify -/

section Pick

variable {α : Type} {p q : α → Bool} {k : Nat} {l : List α} {x y z : α}

def pick (p : α → Bool) (k : Nat) (l : List α) : List α := (l.filter p).take k

theorem length_pick (p : α → Bool) (k : Nat) (l : List α) : (pick p k l).length = min k (l.filter p).length := List.length_take

theorem nodup_pick (hl : l.Nodup) (p : α → Bool) (k : Nat) : (pick p k l).Nodup :=
  (hl.filter p).sublist (List.take_sublist k _)

/-- All are picked if there are not more than are asked for. -/
theorem pick_of_le (h : (l.filter p).length ≤ k) : pick p k l = l.filter p := List.take_of_length_le h

/-- `q` holds where `p` does, but for one place. -/
structure Loses (p q : α → Bool) (x : α) : Prop where
  was : p x = true
  isnt : q x = false
  other : ∀ y, y ≠ x → q y = p y

/-- What qualifies, split at the place that is lost. -/
theorem Loses.split (h : Loses p q x) (hl : l.Nodup) (hx : x ∈ l) :
    ∃ a b, l.filter p = a ++ x :: b ∧ l.filter q = a ++ b ∧ x ∉ a ∧ x ∉ b := by
  obtain ⟨s, t, rfl⟩ := List.append_of_mem hx
  have hmid := List.nodup_middle.mp hl
  have hs : x ∉ s := by
    intro hm
    exact (List.nodup_cons.mp hmid).1 (List.mem_append_left t hm)
  have ht : x ∉ t := by
    intro hm
    exact (List.nodup_cons.mp hmid).1 (List.mem_append_right s hm)
  have same : ∀ u : List α, x ∉ u → u.filter q = u.filter p := by
    intro u hu
    apply List.filter_congr
    intro y hy
    apply h.other
    intro he
    exact hu (he ▸ hy)
  refine ⟨s.filter p, t.filter p, ?_, ?_, ?_, ?_⟩
  · rw [List.filter_append, List.filter_cons_of_pos h.was]
  · rw [List.filter_append, List.filter_cons_of_neg (by simp [h.isnt]), same s hs, same t ht]
  · intro hm
    exact hs (List.mem_of_mem_filter hm)
  · intro hm
    exact ht (List.mem_of_mem_filter hm)

/-- The others that were picked stay. -/
theorem mem_pick_of_lose (h : Loses p q x) (hl : l.Nodup) (hx : x ∈ l) (hy : y ∈ pick p k l) (hne : y ≠ x) :
    y ∈ pick q k l := by
  obtain ⟨a, b, hp, hq, -, -⟩ := h.split hl hx
  unfold pick at hy ⊢
  rw [hp, List.take_append, List.mem_append] at hy
  rw [hq, List.take_append, List.mem_append]
  rcases hy with hy | hy
  · left
    exact hy
  · right
    cases hk : k - a.length with
    | zero => simp [hk] at hy
    | succ m =>
      rw [hk, List.take_succ_cons, List.mem_cons] at hy
      rcases hy with hy | hy
      · exact absurd hy hne
      · exact List.take_subset_take_left b (Nat.le_succ m) hy

/-- At most one moves up. -/
theorem eq_of_new (h : Loses p q x) (hl : l.Nodup) (hx : x ∈ l) (hy : y ∈ pick q k l) (hy' : y ∉ pick p k l)
    (hz : z ∈ pick q k l) (hz' : z ∉ pick p k l) : y = z := by
  obtain ⟨a, b, hp, hq, -, -⟩ := h.split hl hx
  -- what is new is the one of `b` that the picked ones did not reach
  have new : ∀ w, w ∈ pick q k l → w ∉ pick p k l → b[k - a.length - 1]? = some w := by
    intro w hw hw'
    unfold pick at hw hw'
    rw [hq, List.take_append, List.mem_append] at hw
    rw [hp, List.take_append, List.mem_append] at hw'
    rcases hw with hw | hw
    · exact absurd (Or.inl hw) hw'
    · cases hk : k - a.length with
      | zero => simp [hk] at hw
      | succ m =>
        rw [hk, List.take_succ_cons] at hw'
        rw [hk, List.take_add_one, List.mem_append] at hw
        rcases hw with hw | hw
        · exact absurd (Or.inr (List.mem_cons_of_mem x hw)) hw'
        · simpa using hw
  have h1 := new y hy hy'
  have h2 := new z hz hz'
  rw [h1] at h2
  exact Option.some.inj h2

/-- Losing a place that was not picked changes nothing. -/
theorem pick_lose (h : Loses p q x) (hl : l.Nodup) (hx : x ∈ l) (hn : x ∉ pick p k l) : pick q k l = pick p k l := by
  obtain ⟨a, b, hp, hq, -, -⟩ := h.split hl hx
  unfold pick at hn ⊢
  rw [hp] at hn ⊢
  rw [hq]
  have hk : k - a.length = 0 := by
    by_contra hk
    obtain ⟨m, hm⟩ := Nat.exists_eq_succ_of_ne_zero hk
    apply hn
    rw [List.take_append, hm, List.take_succ_cons]
    simp
  rw [List.take_append, List.take_append, hk, List.take_zero, List.take_zero]

end Pick

/-! ## Round a circle -/

section Circle

variable {n home x : Nat}

/-- The places from `home` on, with wraparound. -/
def clockwise (n home : Nat) : List Nat := (List.range n).map fun offset => (home + offset) % n

theorem nodup_clockwise (n home : Nat) : (clockwise n home).Nodup := by
  refine List.Nodup.map_on ?_ List.nodup_range
  intro a ha b hb hab
  rw [List.mem_range] at ha hb
  have h1 : Nat.ModEq n a b := Nat.ModEq.add_left_cancel' _ hab
  exact Nat.ModEq.eq_of_lt_of_lt h1 ha hb

/-- Every place comes up. -/
theorem mem_clockwise : x ∈ clockwise n home ↔ x < n := by
  unfold clockwise
  rw [List.mem_map]
  constructor
  · intro ⟨offset, ho, he⟩
    rw [List.mem_range] at ho
    rw [← he]
    exact Nat.mod_lt _ (by omega)
  · intro hx
    have hhome : home % n < n := Nat.mod_lt _ (by omega)
    refine ⟨(x + (n - home % n)) % n, List.mem_range.mpr (Nat.mod_lt _ (by omega)), ?_⟩
    have hdiv : n * (home / n) + home % n = home := Nat.div_add_mod home n
    calc (home + (x + (n - home % n)) % n) % n
      _ = (home + (x + (n - home % n))) % n := Nat.add_mod_mod ..
      _ = (x + n * (home / n + 1)) % n := by congr 1; rw [Nat.mul_succ]; omega
      _ = x := by rw [Nat.add_mul_mod_self_left, Nat.mod_eq_of_lt hx]

end Circle

end ObjStr.Lib
