/-
  ObjStr.Lib.Retry — a loop that tries what comes next until nothing does, and when it ends.

  In each round the loop tries one thing in a world of its own: the outcome is not the loop's to choose. If it fails, the
  loop is where it was, and tries the same thing again (`Retry.Lawful.failed`); if it works, something that cannot go down
  for ever goes down (`worked`).
  - `ends_iff`: such a loop ends, in the worlds it meets, if and only if everything it tries works in one of the worlds
    that come.
  - `never_ends`: what works in none is tried for ever.
-/

import Mathlib.Data.Nat.Find
import Mathlib.Order.WellFounded
import Mathlib.Tactic.Common

namespace ObjStr.Lib

/-- What the loop tries next in a state, if anything; whether that works in a world; and the state after it. -/
structure Retry (σ W M : Type) where
  next : σ → Option M
  works : W → σ → M → Prop
  round : W → σ → M → σ

namespace Retry

variable {σ W M : Type} (r : Retry σ W M) (worlds : Nat → W)

/-- The state before the round `n`; none: the loop has ended by then. -/
def run (s : σ) : Nat → Option σ
  | 0 => some s
  | n + 1 => do
    let s ← run s n
    let m ← r.next s
    pure (r.round (worlds n) s m)

def Ends (s : σ) : Prop := ∃ n, r.run worlds s n = none

/-- What the round `n` tries, and in which state. -/
def Tries (s : σ) (n : Nat) (t : σ) (m : M) : Prop := r.run worlds s n = some t ∧ r.next t = some m

/-- Everything that the loop tries works, then or in a world that comes later. -/
def Recovers (s : σ) : Prop := ∀ n t m, r.Tries worlds s n t m → ∃ k ≥ n, r.works (worlds k) t m

/-- The rules of such a loop: which states are alike to it, an invariant, and what goes down. -/
structure Lawful {β : Type} (lt : β → β → Prop) (Alike : σ → σ → Prop) (Inv : σ → Prop) (height : σ → β) : Prop where
  wf : WellFounded lt
  refl : ∀ s, Alike s s
  trans : ∀ {s t u}, Alike s t → Alike t u → Alike s u
  next : ∀ {s t}, Alike s t → r.next t = r.next s
  works : ∀ {s t}, Alike s t → ∀ w m, r.works w t m ↔ r.works w s m
  level : ∀ {s t}, Alike s t → height t = height s
  inv : ∀ {s m}, Inv s → r.next s = some m → ∀ w, Inv (r.round w s m)
  failed : ∀ {s m w}, Inv s → r.next s = some m → ¬ r.works w s m → Alike s (r.round w s m)
  worked : ∀ {s m w}, Inv s → r.next s = some m → r.works w s m → lt (height (r.round w s m)) (height s)

variable {r worlds} {s t : σ} {m : M} {n : Nat}

theorem run_succ_of_tries (h : r.Tries worlds s n t m) : r.run worlds s (n + 1) = some (r.round (worlds n) t m) := by
  show (r.run worlds s n).bind _ = _
  rw [h.1, Option.bind_some, h.2]
  rfl

/-- A loop that has ended stays so. -/
theorem run_none_of_le {k : Nat} (h : r.run worlds s n = none) (hk : n ≤ k) : r.run worlds s k = none := by
  induction k, hk using Nat.le_induction with
  | base => exact h
  | succ k _ ih =>
    show (r.run worlds s k).bind _ = none
    rw [ih]
    rfl

/-- A round was tried, if the loop is still there after it. -/
theorem exists_tries (h : r.run worlds s (n + 1) = some t) :
    ∃ u m, r.Tries worlds s n u m ∧ t = r.round (worlds n) u m := by
  change (r.run worlds s n).bind _ = some t at h
  obtain ⟨u, hu, h⟩ := Option.bind_eq_some_iff.mp h
  obtain ⟨m, hm, h⟩ := Option.bind_eq_some_iff.mp h
  exact ⟨u, m, ⟨hu, hm⟩, (Option.some.inj h).symm⟩

/-- The first round, and the others from where it leads. -/
theorem run_succ (r : Retry σ W M) (worlds : Nat → W) (s : σ) (n : Nat) : r.run worlds s (n + 1) =
    (r.next s).bind fun m => r.run (fun k => worlds (k + 1)) (r.round (worlds 0) s m) n := by
  induction n with
  | zero => rfl
  | succ n ih =>
    show (r.run worlds s (n + 1)).bind _ = _
    rw [ih, Option.bind_assoc]
    rfl

variable {β : Type} {lt : β → β → Prop} {Alike : σ → σ → Prop} {Inv : σ → Prop} {height : σ → β}

theorem Lawful.inv_run (h : r.Lawful lt Alike Inv height) (hs : Inv s) (ht : r.run worlds s n = some t) : Inv t := by
  induction n generalizing t with
  | zero =>
    cases ht
    exact hs
  | succ n ih =>
    obtain ⟨u, m, htries, rfl⟩ := exists_tries ht
    exact h.inv (ih htries.1) htries.2 _

/-- As long as it does not work, the loop tries the same thing. -/
theorem Lawful.tries_again (h : r.Lawful lt Alike Inv height) (hs : Inv s) (htries : r.Tries worlds s n t m) {k : Nat} (hk : n ≤ k)
    (hfail : ∀ j, n ≤ j → j < k → ¬ r.works (worlds j) t m) : ∃ u, r.Tries worlds s k u m ∧ Alike t u := by
  induction k, hk using Nat.le_induction with
  | base => exact ⟨t, htries, h.refl t⟩
  | succ k hk ih =>
    obtain ⟨u, hu, halike⟩ := ih fun j hj hlt => hfail j hj (by omega)
    have hnot : ¬ r.works (worlds k) u m := fun hw => hfail k hk (by omega) ((h.works halike _ _).mp hw)
    have halike' := h.trans halike (h.failed (h.inv_run hs hu.1) hu.2 hnot)
    exact ⟨_, ⟨run_succ_of_tries hu, by rw [h.next halike', htries.2]⟩, halike'⟩

/-- What works in no world that comes is tried for ever. -/
theorem Lawful.never_ends (h : r.Lawful lt Alike Inv height) (hs : Inv s) (htries : r.Tries worlds s n t m)
    (hfail : ∀ k ≥ n, ¬ r.works (worlds k) t m) : ¬ r.Ends worlds s := by
  intro hends
  obtain ⟨k, hk⟩ := hends
  obtain ⟨u, hu, -⟩ := h.tries_again hs htries (Nat.le_max_left n k) fun j hj _ => hfail j hj
  have hnone := hu.1
  rw [run_none_of_le hk (Nat.le_max_right n k)] at hnone
  cases hnone

theorem Lawful.ends_of_recovers (h : r.Lawful lt Alike Inv height) (hs : Inv s) (hrec : r.Recovers worlds s) : r.Ends worlds s := by
  suffices hall : ∀ b n t, height t = b → r.run worlds s n = some t → r.Ends worlds s from hall _ 0 s rfl rfl
  intro b
  induction b using h.wf.induction with
  | _ b ih =>
    intro n t hb ht
    cases hm : r.next t with
    | none =>
      refine ⟨n + 1, ?_⟩
      show (r.run worlds s n).bind _ = none
      rw [ht, Option.bind_some, hm]
      rfl
    | some m =>
      -- the first of the worlds in which it works
      classical
      have hex := hrec n t m ⟨ht, hm⟩
      obtain ⟨hk, hworks⟩ := Nat.find_spec hex
      have hfail : ∀ j, n ≤ j → j < Nat.find hex → ¬ r.works (worlds j) t m :=
        fun j hj hlt hw => Nat.find_min hex hlt ⟨hj, hw⟩
      obtain ⟨u, hu, halike⟩ := h.tries_again hs ⟨ht, hm⟩ hk hfail
      have hlt := h.worked (h.inv_run hs hu.1) hu.2 ((h.works halike _ _).mpr hworks)
      rw [h.level halike, hb] at hlt
      exact ih _ hlt _ _ rfl (run_succ_of_tries hu)

/-- The loop ends if and only if all that it tries works at last. -/
theorem Lawful.ends_iff (h : r.Lawful lt Alike Inv height) (hs : Inv s) : r.Ends worlds s ↔ r.Recovers worlds s := by
  constructor
  · intro hends n t m htries
    by_contra hnone
    simp only [not_exists, not_and] at hnone
    exact h.never_ends hs htries hnone hends
  · exact h.ends_of_recovers hs

end Retry
end ObjStr.Lib
