/-
  ObjStr.Lib.Prog — fallible programs over a state, and weakest preconditions for them.

  A program runs from a state to a result or an error, and to a state in both cases: an
  error does not undo what was done before it. `wp p Q E s` says that `p` run from `s` ends
  either with a result and a state in `Q`, or with an error and a state in `E`. The `wp_*`
  rules compute it along the program; `wp_mono` uses a program's specification where it is
  called; `wp_forM` is the rule for a loop over a list (the invariant is indexed by the elements
  left), `wp_forM_steps` the one for a loop that walks a range in steps.
-/

import Mathlib.Tactic.Common

namespace ObjStr.Lib

/-- A program over states `σ` with errors `ε`. -/
def Prog (σ ε α : Type) : Type := σ → Except ε α × σ

namespace Prog

variable {σ ε α β : Type}

def exec (p : Prog σ ε α) (s : σ) : Except ε α × σ := p s

def ret (a : α) : Prog σ ε α := fun s => (.ok a, s)

def andThen (p : Prog σ ε α) (f : α → Prog σ ε β) : Prog σ ε β := fun s =>
  match p s with
  | (.ok a, s') => f a s'
  | (.error e, s') => (.error e, s')

instance : Monad (Prog σ ε) where
  pure := ret
  bind := andThen

instance : LawfulMonad (Prog σ ε) := LawfulMonad.mk' _
  (fun p => by
    funext s
    show andThen p (fun a => ret (id a)) s = p s
    unfold andThen
    cases h : p s with
    | mk r s' => cases r <;> rfl)
  (fun _ _ => rfl)
  (fun p f g => by
    funext s
    show andThen (andThen p f) g s = andThen p (fun a => andThen (f a) g) s
    unfold andThen
    cases p s with
    | mk r s' => cases r <;> rfl)

instance : MonadStateOf σ (Prog σ ε) where
  get := fun s => (.ok s, s)
  set s' := fun _ => (.ok (), s')
  modifyGet f := fun s => (.ok (f s).1, (f s).2)

instance : MonadExceptOf ε (Prog σ ε) where
  throw e := fun s => (.error e, s)
  tryCatch p h := fun s =>
    match p s with
    | (.ok a, s') => (.ok a, s')
    | (.error e, s') => h e s'

/-- Run `p`; if it fails, run `h` on the state it left and fail with the same error. -/
def onError (p : Prog σ ε α) (h : ε → σ → σ) : Prog σ ε α := fun s =>
  match p s with
  | (.ok a, s') => (.ok a, s')
  | (.error e, s') => (.error e, h e s')

def failIf (c : Prop) [Decidable c] (e : ε) : Prog σ ε Unit := if c then throw e else pure ()

def zoom {τ : Type} (part : σ → τ) (put : τ → σ → σ) (p : Prog τ ε α) : Prog σ ε α := fun s =>
  ((p (part s)).1, put (p (part s)).2 s)

def attempt (p : Prog σ ε α) : Prog σ ε (Except ε α) := fun s => (.ok (p s).1, (p s).2)

/-! ## Running -/

theorem exec_bind (p : Prog σ ε α) (f : α → Prog σ ε β) (s : σ) :
    (p >>= f).exec s = match p.exec s with
      | (.ok a, s') => (f a).exec s'
      | (.error e, s') => (.error e, s') := rfl

theorem exec_pure (a : α) (s : σ) : (pure a : Prog σ ε α).exec s = (.ok a, s) := rfl

theorem exec_get (s : σ) : (get : Prog σ ε σ).exec s = (.ok s, s) := rfl

theorem exec_modify (f : σ → σ) (s : σ) : (modify f : Prog σ ε PUnit).exec s = (.ok (), f s) := rfl

theorem exec_attempt (p : Prog σ ε α) (s : σ) : (attempt p).exec s = (.ok (p.exec s).1, (p.exec s).2) := rfl

theorem exec_failIf (c : Prop) [Decidable c] (e : ε) (s : σ) :
    (failIf c e : Prog σ ε Unit).exec s = if c then (.error e, s) else (.ok (), s) := by
  unfold failIf
  split <;> rfl

/-! ## Weakest preconditions -/

/-- `p` from `s` ends in `Q` (a result) or in `E` (an error). -/
def wp (p : Prog σ ε α) (Q : α → σ → Prop) (E : ε → σ → Prop) (s : σ) : Prop :=
  match p s with
  | (.ok a, s') => Q a s'
  | (.error e, s') => E e s'

variable {Q Q' : α → σ → Prop} {E E' : ε → σ → Prop} {s : σ}

theorem wp_mono {p : Prog σ ε α} (h : wp p Q E s) (hQ : ∀ a s', Q a s' → Q' a s')
    (hE : ∀ e s', E e s' → E' e s') : wp p Q' E' s := by
  unfold wp at *
  split
  · next a s' heq => rw [heq] at h; exact hQ a s' h
  · next e s' heq => rw [heq] at h; exact hE e s' h

theorem wp_and {p : Prog σ ε α} (h : wp p Q E s) (h' : wp p Q' E' s) :
    wp p (fun a s' => Q a s' ∧ Q' a s') (fun e s' => E e s' ∧ E' e s') s := by
  unfold wp at *
  split <;> simp_all

/-- What holds of every outcome. -/
theorem wp_of_forall (p : Prog σ ε α) (hQ : ∀ a s', Q a s') (hE : ∀ e s', E e s') : wp p Q E s := by
  unfold wp
  split
  · exact hQ _ _
  · exact hE _ _

/-- What `wp` says about a run that returned. -/
theorem wp_ok {p : Prog σ ε α} (h : wp p Q E s) {a : α} {s' : σ} (hp : p.exec s = (.ok a, s')) : Q a s' := by
  unfold wp at h
  rw [show p s = _ from hp] at h
  exact h

/-- What `wp` says about a run that failed. -/
theorem wp_error {p : Prog σ ε α} (h : wp p Q E s) {e : ε} {s' : σ} (hp : p.exec s = (.error e, s')) : E e s' := by
  unfold wp at h
  rw [show p s = _ from hp] at h
  exact h

/-- A program that cannot fail returns. -/
theorem wp_returns {p : Prog σ ε α} (h : wp p Q E s) (hE : ∀ e s', ¬ E e s') :
    ∃ a s', p.exec s = (.ok a, s') ∧ Q a s' := by
  unfold wp at h
  unfold exec
  cases hp : p s with
  | mk r s' =>
    rw [hp] at h
    cases r with
    | ok a => exact ⟨a, s', rfl, h⟩
    | error e => exact absurd h (hE e s')

/-- A run that is known to return. -/
theorem wp_of_ok {p : Prog σ ε α} {a : α} {s' : σ} (hp : p.exec s = (.ok a, s')) : wp p Q E s ↔ Q a s' := by
  unfold wp
  rw [show p s = _ from hp]

/-- A run that is known to fail. -/
theorem wp_of_error {p : Prog σ ε α} {e : ε} {s' : σ} (hp : p.exec s = (.error e, s')) : wp p Q E s ↔ E e s' := by
  unfold wp
  rw [show p s = _ from hp]

/-- A property of the final state, whatever the outcome. -/
theorem wp_state {p : Prog σ ε α} {P : σ → Prop} (h : wp p (fun _ => P) (fun _ => P) s) : P (p.exec s).2 := by
  unfold wp at h
  unfold exec
  split at h
  · next heq => rw [heq]; exact h
  · next heq => rw [heq]; exact h

@[simp] theorem wp_pure (a : α) : wp (pure a : Prog σ ε α) Q E s ↔ Q a s := Iff.rfl

@[simp] theorem wp_bind (p : Prog σ ε α) (f : α → Prog σ ε β) {Q : β → σ → Prop} :
    wp (p >>= f) Q E s ↔ wp p (fun a s' => wp (f a) Q E s') E s := by
  show wp (andThen p f) Q E s ↔ _
  unfold wp andThen
  cases p s with
  | mk r s' => cases r <;> rfl

@[simp] theorem wp_throw (e : ε) : wp (throw e : Prog σ ε α) Q E s ↔ E e s := Iff.rfl

@[simp] theorem wp_get {Q : σ → σ → Prop} : wp (get : Prog σ ε σ) Q E s ↔ Q s s := Iff.rfl

@[simp] theorem wp_set (s' : σ) {Q : PUnit → σ → Prop} : wp (set s' : Prog σ ε PUnit) Q E s ↔ Q () s' := Iff.rfl

@[simp] theorem wp_modify (f : σ → σ) {Q : PUnit → σ → Prop} :
    wp (modify f : Prog σ ε PUnit) Q E s ↔ Q () (f s) := Iff.rfl

@[simp] theorem wp_onError (p : Prog σ ε α) (h : ε → σ → σ) :
    wp (onError p h) Q E s ↔ wp p Q (fun e s' => E e (h e s')) s := by
  unfold wp onError
  cases p s with
  | mk r s' => cases r <;> rfl

@[simp] theorem wp_failIf (c : Prop) [Decidable c] (e : ε) {Q : Unit → σ → Prop} :
    wp (failIf c e) Q E s ↔ (c → E e s) ∧ (¬ c → Q () s) := by
  unfold failIf
  split
  · next h => simp [h]
  · next h => simp [h]

@[simp] theorem wp_zoom {τ : Type} (part : σ → τ) (put : τ → σ → σ) (p : Prog τ ε α) :
    wp (zoom part put p) Q E s ↔ wp p (fun a t => Q a (put t s)) (fun e t => E e (put t s)) (part s) := by
  unfold wp zoom
  cases p (part s) with
  | mk r t => cases r <;> rfl

@[simp] theorem wp_attempt (p : Prog σ ε α) {Q : Except ε α → σ → Prop} :
    wp (attempt p) Q E s ↔ wp p (fun a s' => Q (.ok a) s') (fun e s' => Q (.error e) s') s := by
  unfold wp attempt
  cases p s with
  | mk r s' => cases r <;> rfl

/-- The loop rule: `I` holds of the elements left and the state before each round. -/
theorem wp_forM {f : β → Prog σ ε PUnit} (I : List β → σ → Prop) (l : List β) (h0 : I l s)
    (step : ∀ x xs s, I (x :: xs) s → wp (f x) (fun _ s' => I xs s') E s) :
    wp (l.forM f) (fun _ s' => I [] s') E s := by
  induction l generalizing s with
  | nil => exact h0
  | cons x xs ih =>
    show wp (f x >>= fun _ => xs.forM f) _ _ _
    rw [wp_bind]
    exact wp_mono (step x xs s h0) (fun _ _ hI => ih hI) (fun _ _ he => he)

/-- The rule for a loop that carries a value: `I` is indexed by the elements done. -/
theorem wp_foldlM {γ : Type} {f : β → γ → Prog σ ε β} (I : List γ → β → σ → Prop) (l : List γ) {b : β} (h0 : I [] b s)
    (step : ∀ pre x post b s, l = pre ++ x :: post → I pre b s → wp (f b x) (fun b' s' => I (pre ++ [x]) b' s') E s) :
    wp (l.foldlM f b) (fun b' s' => I l b' s') E s := by
  have key : ∀ post pre b s, l = pre ++ post → I pre b s → wp (post.foldlM f b) (fun b' s' => I l b' s') E s := by
    intro post
    induction post with
    | nil =>
      intro pre b s hl hI
      rw [List.append_nil] at hl
      subst hl
      exact hI
    | cons x post ih =>
      intro pre b s hl hI
      rw [List.foldlM_cons, wp_bind]
      exact wp_mono (step pre x post b s hl hI) (fun b' s' h' => ih (pre ++ [x]) b' s' (by simp [hl]) h') (fun _ _ h => h)
  exact key l [] b s rfl h0

/-- The rule for a loop over `0, …, n - 1` that carries a value. -/
theorem wp_foldlM_range {f : β → Nat → Prog σ ε β} {n : Nat} {b : β} (I : Nat → β → σ → Prop) (h0 : I 0 b s)
    (step : ∀ k b s, k < n → I k b s → wp (f b k) (fun b' s' => I (k + 1) b' s') E s) :
    wp ((List.range n).foldlM f b) (fun b' s' => I n b' s') E s := by
  induction n with
  | zero => exact h0
  | succ n ih =>
    rw [List.range_succ, List.foldlM_append, wp_bind]
    refine wp_mono (ih fun k b s hk => step k b s (by omega)) ?_ (fun _ _ h => h)
    intro b' s' hI
    rw [List.foldlM_cons, wp_bind]
    exact wp_mono (step n b' s' (by omega) hI) (fun _ _ h => h) (fun _ _ h => h)

theorem forM_eq_foldlM (l : List β) (f : β → Prog σ ε PUnit) : l.forM f = l.foldlM (fun _ x => f x) PUnit.unit := by
  induction l with
  | nil => rfl
  | cons x l ih => show (f x >>= fun _ => l.forM f) = _; rw [ih]; rfl

/-- The rule for a loop over `[0, total)` in steps of `c` that carries a value: `I` is indexed by the position. -/
theorem wp_foldlM_steps {f : β → Nat → Prog σ ε β} {total c : Nat} {b : β} (hc : 0 < c) (I : Nat → β → σ → Prop)
    (h0 : I 0 b s)
    (step : ∀ k b s, k * c < total → I (k * c) b s → wp (f b k) (fun b' s' => I (min (k * c + c) total) b' s') E s) :
    wp ((List.range ((total + c - 1) / c)).foldlM f b) (fun b' s' => I total b' s') E s := by
  have hend : min ((total + c - 1) / c * c) total = total := by
    have h1 := Nat.div_add_mod (total + c - 1) c
    have h2 := Nat.mod_lt (total + c - 1) hc
    rw [Nat.mul_comm] at h1
    omega
  have key := wp_foldlM_range (f := f) (E := E) (s := s) (n := (total + c - 1) / c) (b := b)
    (fun k b s => I (min (k * c) total) b s) (by simpa using h0) (fun k b s hk hI => by
      have hk' : (k + 1) * c ≤ total + c - 1 := (Nat.le_div_iff_mul_le hc).mp hk
      rw [Nat.succ_mul] at hk' ⊢
      rw [Nat.min_eq_left (by omega)] at hI
      exact step k b s (by omega) hI)
  simpa only [hend] using key

/-- The rule for a loop over `[0, total)` in steps of `c`. -/
theorem wp_forM_steps {f : Nat → Prog σ ε PUnit} {total c : Nat} (hc : 0 < c) (I : Nat → σ → Prop) (h0 : I 0 s)
    (step : ∀ k s, k * c < total → I (k * c) s → wp (f k) (fun _ s' => I (min (k * c + c) total) s') E s) :
    wp ((List.range ((total + c - 1) / c)).forM f) (fun _ s' => I total s') E s := by
  rw [forM_eq_foldlM]
  exact wp_foldlM_steps hc (fun k _ s => I k s) h0 (fun k _ s hk hI => step k s hk hI)

end Prog

/-- A loop fails with an error of one of its rounds. -/
theorem foldlM_error {α β ε : Type} {f : β → α → Except ε β} {P : ε → Prop} (hf : ∀ b a e, f b a = .error e → P e) {l : List α}
    {b : β} {e : ε} (h : l.foldlM f b = .error e) : P e := by
  induction l generalizing b with
  | nil => cases h
  | cons a l ih =>
    rw [List.foldlM_cons] at h
    cases hstep : f b a with
    | error e' =>
      rw [hstep] at h
      cases h
      exact hf b a e hstep
    | ok b' =>
      rw [hstep] at h
      exact ih h

end ObjStr.Lib
