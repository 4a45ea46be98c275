/-
  ObjStr.Lib.History — the states that a run of a pool goes through.

  A history is the states of a run, the latest first (`Passes`). What is remembered of a run, such as when something
  happened last, is a function of its history, and a rule for it is a property of histories:
  - `Passes.isChain`: if each step of each process relates the states around it, so do the neighbours in a history.
  - `always_iff`: if a step keeps a rule exactly when it fits, the rule holds all along if and only if it holds first and
    every step fits.
-/

import Mathlib.Data.List.Chain
import ObjStr.Lib.Proc

namespace ObjStr.Lib

variable {ι L σ α : Type} [DecidableEq ι]

/-- The end of a `par` changes nothing. -/
theorem Proc.state_of_step_none {p q : Proc L σ α} {s s' : σ} {l : Option L} (h : Proc.Step p s l q s') (hl : l = none) :
    s' = s := by
  induction h with
  | act f l k s => cases hl
  | left _ ih => exact ih hl
  | right _ ih => exact ih hl
  | joined b c k s => rfl

namespace Pool

/-- From one pool to another through these states, the latest first. -/
inductive Passes (p : Pool ι L σ α) : List σ → Pool ι L σ α → Prop
  | start : Passes p [p.state] p
  | step {q r : Pool ι L σ α} {h : List σ} : Passes p h q → Step q r → Passes p (r.state :: h) r

theorem Passes.runs {p q : Pool ι L σ α} {h : List σ} (hp : Passes p h q) : Runs p q := by
  induction hp with
  | start => exact .refl
  | step _ hstep ih => exact ih.tail hstep

/-- The latest state comes first, and the first one last. -/
theorem Passes.ends {p q : Pool ι L σ α} {h : List σ} (hp : Passes p h q) :
    h.head? = some q.state ∧ h.getLast? = some p.state := by
  induction hp with
  | start => exact ⟨rfl, rfl⟩
  | step hp _ ih =>
    refine ⟨rfl, ?_⟩
    cases hp with
    | start => rfl
    | step _ _ => exact ih.2

theorem only_of_step {A : σ → L → σ → Prop} {p q : Pool ι L σ α} (h : Step p q) (hp : ∀ i, Proc.Only A (p.procs i)) :
    ∀ i, Proc.Only A (q.procs i) := by
  cases h with
  | @run i _ l x s' hs =>
    intro j
    by_cases hj : j = i
    · subst hj
      simpa using ((hp j).next hs).1
    · simpa [hj] using hp j

/-- What every step of every process does is between the neighbours of a history. -/
theorem Passes.isChain {R : σ → σ → Prop} {p q : Pool ι L σ α} {h : List σ} (hp : Passes p h q) (hrefl : ∀ s, R s s)
    (honly : ∀ i, Proc.Only (fun s _ s' => R s s') (p.procs i)) : h.IsChain fun s' s => R s s' := by
  suffices hall : (h.IsChain fun s' s => R s s') ∧ ∀ i, Proc.Only (fun s _ s' => R s s') (q.procs i) from hall.1
  induction hp with
  | start => exact ⟨.singleton _, honly⟩
  | @step q r h hp hstep ih =>
    obtain ⟨hchain, hq⟩ := ih
    refine ⟨?_, only_of_step hstep hq⟩
    obtain ⟨t, rfl⟩ : ∃ t, h = q.state :: t := by
      have hhead := hp.ends.1
      cases h with
      | nil => cases hhead
      | cons s t => exact ⟨t, by rw [Option.some.inj hhead]⟩
    refine List.isChain_cons_cons.mpr ⟨?_, hchain⟩
    cases hstep with
    | @run i _ l x s' hs =>
      cases hl : l with
      | some e => exact ((hq i).next hs).2 e hl
      | none =>
        have hsame : s' = q.state := Proc.state_of_step_none hs hl
        rw [hsame]
        exact hrefl _

def trail : List ι → Pool ι L σ α → List σ → List σ
  | [], _, h => h
  | i :: is, p, h =>
    match (p.procs i).advance p.state with
    | some (l, q, s') => trail is ⟨Function.update p.procs i q, s', p.trace ++ (l.map (i, ·)).toList⟩ (s' :: h)
    | none => trail is p h

theorem passes_trail (is : List ι) {p q : Pool ι L σ α} {h : List σ} (hp : Passes p h q) :
    Passes p (trail is q h) (sched is q) := by
  induction is generalizing q h with
  | nil => exact hp
  | cons i is ih =>
    unfold trail sched
    cases hadv : (q.procs i).advance q.state with
    | none => exact ih hp
    | some r =>
      obtain ⟨l, x, s'⟩ := r
      exact ih (hp.step (.run i (Proc.step_of_advance hadv)))

end Pool

/-! ## Rules -/

/-- A rule holds of the history, and of each that it began as. -/
def Always (P : List σ → Prop) (h : List σ) : Prop := ∀ h', h' <:+ h → h' ≠ [] → P h'

/-- Each step, from what was before it to a new state, fits. -/
def EachStep (F : σ → σ → List σ → Prop) (h : List σ) : Prop := ∀ s' s h', s' :: s :: h' <:+ h → F s' s h'

variable {P : List σ → Prop} {F : σ → σ → List σ → Prop} {R : σ → σ → Prop} {s s' : σ} {h : List σ}

theorem always_singleton : Always P [s] ↔ P [s] := by
  constructor
  · intro hall
    exact hall [s] (List.suffix_refl _) (by simp)
  · intro hP h' hsuffix hne
    rcases List.suffix_cons_iff.mp hsuffix with rfl | hsuffix
    · exact hP
    · exact absurd (List.suffix_nil.mp hsuffix) hne

theorem always_cons : Always P (s :: h) ↔ P (s :: h) ∧ Always P h := by
  constructor
  · intro hall
    refine ⟨hall _ (List.suffix_refl _) (by simp), fun h' hsuffix hne' => ?_⟩
    exact hall h' (hsuffix.trans (List.suffix_cons s h)) hne'
  · intro hall h' hsuffix hne'
    rcases List.suffix_cons_iff.mp hsuffix with rfl | hsuffix
    · exact hall.1
    · exact hall.2 h' hsuffix hne'

theorem eachStep_singleton : EachStep F [s] := by
  intro s' t h' hsuffix
  have hlen := hsuffix.length_le
  simp at hlen

theorem eachStep_cons_cons : EachStep F (s' :: s :: h) ↔ F s' s h ∧ EachStep F (s :: h) := by
  constructor
  · intro hall
    exact ⟨hall _ _ _ (List.suffix_refl _), fun t' t h' hsuffix => hall _ _ _ (hsuffix.trans (List.suffix_cons s' _))⟩
  · intro hall t' t h' hsuffix
    rcases List.suffix_cons_iff.mp hsuffix with heq | hsuffix
    · cases heq
      exact hall.1
    · exact hall.2 _ _ _ hsuffix

/-- A rule that a step keeps exactly if it fits holds all along if it holds first, and every step fits. -/
theorem always_iff (hchain : h.IsChain fun s' s => R s s') (hlast : h.getLast? = some s)
    (hF : ∀ s' s h', R s s' → P (s :: h') → (P (s' :: s :: h') ↔ F s' s h')) : Always P h ↔ P [s] ∧ EachStep F h := by
  induction h with
  | nil => cases hlast
  | cons t' h ih =>
    cases h with
    | nil =>
      have hs : t' = s := Option.some.inj hlast
      rw [hs, always_singleton, and_iff_left eachStep_singleton]
    | cons t h =>
      obtain ⟨hR, hchain⟩ := List.isChain_cons_cons.mp hchain
      rw [always_cons, eachStep_cons_cons, ih hchain hlast]
      have hP : P [s] ∧ EachStep F (t :: h) → P (t :: h) := by
        intro hall
        exact (ih hchain hlast).mpr hall (t :: h) (List.suffix_refl _) (by simp)
      constructor
      · intro hall
        exact ⟨hall.2.1, (hF t' t h hR (hP hall.2)).mp hall.1, hall.2.2⟩
      · intro hall
        exact ⟨(hF t' t h hR (hP ⟨hall.1, hall.2.2⟩)).mpr hall.2.1, hall.1, hall.2.2⟩

end ObjStr.Lib
