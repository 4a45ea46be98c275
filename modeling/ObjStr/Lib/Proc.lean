/-
  ObjStr.Lib.Proc — programs that run in atomic steps, alone or next to others.

  A process takes its steps one at a time (`act`), each on the state it finds, and reports
  what it did with a label; `par` runs two processes side by side and goes on when both have
  returned (`joinAll`: a list of them). `exec` runs a process alone, the sides of a `par` one
  after the other, and `steps` lists the steps of that run; `wp Q p s` says that its result, its
  state and its steps are in `Q`, and the `wp_*` rules compute it along the program.

  A pool is any family of processes on one state, and takes one step of one of them at a
  time: its runs are all interleavings. `Safe K I i p R tr` is what is proved of the
  process `i` of a pool: each of its steps keeps the invariant `I` (of the state and of what
  all processes have reported so far), from every state with `I` that the others may have
  left, and it returns only a result in `R`. `Pool.safe`: if the processes of a pool are
  safe, then in every state of every run `I` holds and the processes are still safe.

  `Keeps P p R`, a simpler such property: each step of `p` keeps `P`, and `p` returns only a result in `R`
  (`Pool.keeps`). It is enough to look at each step that `p` may come to (`Amid`, `keeps_of_amid`). `Only A p`: all steps of `p`
  are of the kind `A`. `Pool.sched` is the run that one schedule gives, `Pool.runs_bind` one in which the first part of a
  process runs to its end.
  `within` runs a process on a part of a larger state.
-/

import Mathlib.Tactic.Common
import Mathlib.Logic.Function.Basic
import Mathlib.Logic.Relation
import Mathlib.Data.List.Forall2

namespace ObjStr.Lib

/-- A process over states `σ` with labels `L`. -/
inductive Proc (L σ : Type) : Type → Type 1 where
  | ret {α : Type} (a : α) : Proc L σ α
  | act {α β : Type} (f : σ → β × σ) (l : β → L) (k : β → Proc L σ α) : Proc L σ α
  | par {α β γ : Type} (x : Proc L σ β) (y : Proc L σ γ) (k : β → γ → Proc L σ α) : Proc L σ α

namespace Proc

variable {L σ : Type} {α β γ : Type}

def andThen {α β : Type} : Proc L σ α → (α → Proc L σ β) → Proc L σ β
  | ret a, g => g a
  | act f l k, g => act f l fun b => andThen (k b) g
  | par x y k, g => par x y fun a b => andThen (k a b) g

instance : Monad (Proc L σ) where
  pure := ret
  bind := andThen

theorem andThen_ret (p : Proc L σ α) : andThen p ret = p := by
  induction p with
  | ret a => rfl
  | act f l k ih => simp only [andThen, ih]
  | par x y k _ _ ih => simp only [andThen, ih]

theorem andThen_assoc (p : Proc L σ α) (g : α → Proc L σ β) (h : β → Proc L σ γ) :
    andThen (andThen p g) h = andThen p fun a => andThen (g a) h := by
  induction p with
  | ret a => rfl
  | act f l k ih => simp only [andThen, ih]
  | par x y k _ _ ih => simp only [andThen, ih]

instance : LawfulMonad (Proc L σ) := LawfulMonad.mk' _
  (fun p => andThen_ret p) (fun _ _ => rfl) (fun p g h => andThen_assoc p g h)

def step (f : σ → α × σ) (l : α → L) : Proc L σ α := act f l ret

def joinAll : List (Proc L σ α) → Proc L σ (List α)
  | [] => ret []
  | p :: ps => par p (joinAll ps) fun a as => ret (a :: as)

/-! ## Running alone -/

def exec {α : Type} : Proc L σ α → σ → α × σ
  | ret a, s => (a, s)
  | act f _ k, s => exec (k (f s).1) (f s).2
  | par x y k, s => exec (k (exec x s).1 (exec y (exec x s).2).1) (exec y (exec x s).2).2

/-- The steps of the run: the state before, the label, the state after. -/
def steps {α : Type} : Proc L σ α → σ → List (σ × L × σ)
  | ret _, _ => []
  | act f l k, s => (s, l (f s).1, (f s).2) :: steps (k (f s).1) (f s).2
  | par x y k, s => steps x s ++ steps y (exec x s).2 ++
      steps (k (exec x s).1 (exec y (exec x s).2).1) (exec y (exec x s).2).2

@[simp] theorem exec_pure (a : α) (s : σ) : (pure a : Proc L σ α).exec s = (a, s) := rfl

@[simp] theorem exec_step (f : σ → α × σ) (l : α → L) (s : σ) : (step f l).exec s = f s := rfl

@[simp] theorem exec_bind (p : Proc L σ α) (g : α → Proc L σ β) (s : σ) :
    (p >>= g).exec s = (g (p.exec s).1).exec (p.exec s).2 := by
  show (andThen p g).exec s = _
  induction p generalizing s with
  | ret a => rfl
  | act f l k ih => exact ih _ g _
  | par x y k _ _ ih => exact ih _ _ g _

theorem steps_bind (p : Proc L σ α) (g : α → Proc L σ β) (s : σ) :
    (p >>= g).steps s = p.steps s ++ (g (p.exec s).1).steps (p.exec s).2 := by
  show (andThen p g).steps s = _
  induction p generalizing s with
  | ret a => rfl
  | act f l k ih =>
    simp only [andThen, steps, exec, List.cons_append]
    rw [ih _ g]
  | par x y k _ _ ih =>
    simp only [andThen, steps, exec, List.append_assoc]
    rw [ih _ _ g]

def result {α : Type} : Proc L σ α → Option α
  | ret a => some a
  | _ => none

theorem eq_ret_of_result {p : Proc L σ α} {a : α} (h : p.result = some a) : p = ret a := by
  cases p with
  | ret b => rw [Option.some.inj h]
  | act f l k => cases h
  | par x y k => cases h

/-! ## Steps of a kind -/

/-- Every step, from any state, is in `A`. -/
def Only {α : Type} (A : σ → L → σ → Prop) : Proc L σ α → Prop
  | ret _ => True
  | act f l k => ∀ s, A s (l (f s).1) (f s).2 ∧ Only A (k (f s).1)
  | par x y k => Only A x ∧ Only A y ∧ ∀ b c, Only A (k b c)

variable {A : σ → L → σ → Prop}

theorem only_pure (a : α) : Only A (pure a : Proc L σ α) := trivial

theorem only_step {f : σ → α × σ} {l : α → L} (h : ∀ s, A s (l (f s).1) (f s).2) : Only A (step f l) :=
  fun s => ⟨h s, trivial⟩

theorem only_bind {p : Proc L σ α} {g : α → Proc L σ β} (hp : Only A p) (hg : ∀ a, Only A (g a)) : Only A (p >>= g) := by
  show Only A (andThen p g)
  induction p with
  | ret a => exact hg a
  | act f l k ih => exact fun s => ⟨(hp s).1, ih _ (hp s).2 hg⟩
  | par x y k _ _ ih => exact ⟨hp.1, hp.2.1, fun b c => ih b c (hp.2.2 b c) hg⟩

theorem only_joinAll {ps : List (Proc L σ α)} (h : ∀ p ∈ ps, Only A p) : Only A (joinAll ps) := by
  induction ps with
  | nil => exact trivial
  | cons p ps ih =>
    exact ⟨h p List.mem_cons_self, ih fun q hq => h q (List.mem_cons_of_mem p hq), fun _ _ => trivial⟩

theorem only_forM {ι : Type} {f : ι → Proc L σ PUnit} {l : List ι} (h : ∀ i, Only A (f i)) : Only A (l.forM f) := by
  induction l with
  | nil => exact trivial
  | cons i l ih =>
    rw [List.forM_eq_forM, List.forM_cons]
    exact only_bind (h i) fun _ => ih

theorem only_and {B : σ → L → σ → Prop} {p : Proc L σ α} (h : Only A p) (h' : Only B p) :
    Only (fun s l s' => A s l s' ∧ B s l s') p := by
  induction p with
  | ret a => exact trivial
  | act f l k ih => exact fun s => ⟨⟨(h s).1, (h' s).1⟩, ih _ (h s).2 (h' s).2⟩
  | par x y k ihx ihy ih => exact ⟨ihx h.1 h'.1, ihy h.2.1 h'.2.1, fun b c => ih b c (h.2.2 b c) (h'.2.2 b c)⟩

theorem Only.mono {A' : σ → L → σ → Prop} {p : Proc L σ α} (h : Only A p) (hA : ∀ s l s', A s l s' → A' s l s') : Only A' p := by
  induction p with
  | ret a => exact trivial
  | act f l k ih => exact fun s => ⟨hA _ _ _ (h s).1, ih _ (h s).2⟩
  | par x y k ihx ihy ih => exact ⟨ihx h.1, ihy h.2.1, fun b c => ih b c (h.2.2 b c)⟩

theorem Only.steps {p : Proc L σ α} (h : Only A p) (s : σ) : ∀ e ∈ p.steps s, A e.1 e.2.1 e.2.2 := by
  induction p generalizing s with
  | ret a => simp [Proc.steps]
  | act f l k ih =>
    intro e he
    rcases List.mem_cons.mp he with rfl | he
    · exact (h s).1
    · exact ih _ (h s).2 _ e he
  | par x y k ihx ihy ih =>
    intro e he
    simp only [Proc.steps, List.mem_append] at he
    rcases he with (he | he) | he
    · exact ihx h.1 s e he
    · exact ihy h.2.1 _ e he
    · exact ih _ _ (h.2.2 _ _) _ e he

/-- What each step keeps, the run keeps. -/
theorem Only.run {R : σ → σ → Prop} {p : Proc L σ α} (h : Only (fun s _ s' => R s s') p) (hrefl : ∀ s, R s s)
    (htrans : ∀ s s' s'', R s s' → R s' s'' → R s s'') (s : σ) : R s (p.exec s).2 := by
  induction p generalizing s with
  | ret a => exact hrefl s
  | act f l k ih => exact htrans _ _ _ (h s).1 (ih _ (h s).2 _)
  | par x y k ihx ihy ih =>
    exact htrans _ _ _ (ihx h.1 s) (htrans _ _ _ (ihy h.2.1 _) (ih _ _ (h.2.2 _ _) _))

/-! ## A part of a larger state -/

/-- A process on a part of a larger state. -/
def within {τ : Type} (part : τ → σ) (put : τ → σ → τ) {α : Type} : Proc L σ α → Proc L τ α
  | ret a => ret a
  | act f l k => act (fun t => ((f (part t)).1, put t (f (part t)).2)) l fun b => within part put (k b)
  | par x y k => par (within part put x) (within part put y) fun b c => within part put (k b c)

theorem exec_within {τ : Type} {part : τ → σ} {put : τ → σ → τ} (hpart : ∀ t s, part (put t s) = s)
    (hput : ∀ t s s', put (put t s) s' = put t s') (hself : ∀ t, put t (part t) = t) (p : Proc L σ α) (t : τ) :
    (p.within part put).exec t = ((p.exec (part t)).1, put t (p.exec (part t)).2) := by
  induction p generalizing t with
  | ret a => simp only [within, exec, hself]
  | act f l k ih => simp only [within, exec, ih, hpart, hput]
  | par x y k ihx ihy ih => simp only [within, exec, ihx, ihy, ih, hpart, hput]

/-! ## States that are alike -/

/-- Every step answers the same on the image of a state, and ends in the image. -/
def Commutes {α : Type} (φ : σ → σ) : Proc L σ α → Prop
  | ret _ => True
  | act f _ k => (∀ s, f (φ s) = ((f s).1, φ (f s).2)) ∧ ∀ b, Commutes φ (k b)
  | par x y k => Commutes φ x ∧ Commutes φ y ∧ ∀ b c, Commutes φ (k b c)

variable {φ : σ → σ}

theorem commutes_pure (a : α) : Commutes φ (pure a : Proc L σ α) := trivial

theorem commutes_step {f : σ → α × σ} {l : α → L} (h : ∀ s, f (φ s) = ((f s).1, φ (f s).2)) : Commutes φ (step f l) :=
  ⟨h, fun _ => trivial⟩

theorem commutes_bind {p : Proc L σ α} {g : α → Proc L σ β} (hp : Commutes φ p) (hg : ∀ a, Commutes φ (g a)) :
    Commutes φ (p >>= g) := by
  show Commutes φ (andThen p g)
  induction p with
  | ret a => exact hg a
  | act f l k ih => exact ⟨hp.1, fun b => ih b (hp.2 b) hg⟩
  | par x y k _ _ ih => exact ⟨hp.1, hp.2.1, fun b c => ih b c (hp.2.2 b c) hg⟩

theorem Commutes.exec {p : Proc L σ α} (h : Commutes φ p) (s : σ) : p.exec (φ s) = ((p.exec s).1, φ (p.exec s).2) := by
  induction p generalizing s with
  | ret a => rfl
  | act f l k ih =>
    unfold Proc.exec
    rw [h.1 s]
    exact ih _ (h.2 _) _
  | par x y k ihx ihy ih =>
    unfold Proc.exec
    rw [ihx h.1 s]
    dsimp only
    rw [ihy h.2.1]
    exact ih _ _ (h.2.2 _ _) _

/-! ## Weakest preconditions -/

abbrev Steps (L σ : Type) := List (σ × L × σ)

variable {Q Q' : α → σ → Steps L σ → Prop} {s : σ}

/-- `p`, run alone from `s`, ends in `Q`: its result, its state and its steps. -/
def wp (Q : α → σ → Steps L σ → Prop) (p : Proc L σ α) (s : σ) : Prop := Q (p.exec s).1 (p.exec s).2 (p.steps s)

theorem wp_mono {p : Proc L σ α} (h : p.wp Q s) (hQ : ∀ a s' t, Q a s' t → Q' a s' t) : p.wp Q' s := hQ _ _ _ h

theorem wp_and {p : Proc L σ α} (h : p.wp Q s) (h' : p.wp Q' s) : p.wp (fun a s' t => Q a s' t ∧ Q' a s' t) s := ⟨h, h'⟩

@[simp] theorem wp_pure (a : α) : (pure a : Proc L σ α).wp Q s ↔ Q a s [] := Iff.rfl

@[simp] theorem wp_step (f : σ → α × σ) (l : α → L) :
    (step f l).wp Q s ↔ Q (f s).1 (f s).2 [(s, l (f s).1, (f s).2)] := Iff.rfl

theorem wp_bind (p : Proc L σ α) (g : α → Proc L σ β) {Q : β → σ → Steps L σ → Prop} :
    (p >>= g).wp Q s ↔ p.wp (fun a s1 t1 => (g a).wp (fun b s2 t2 => Q b s2 (t1 ++ t2)) s1) s := by
  simp only [wp, steps_bind, exec_bind]

theorem wp_par {x : Proc L σ β} {y : Proc L σ γ} {k : β → γ → Proc L σ α} :
    (par x y k).wp Q s ↔
      x.wp (fun b s1 t1 => y.wp (fun c s2 t2 => (k b c).wp (fun a s3 t3 => Q a s3 (t1 ++ t2 ++ t3)) s2) s1) s := Iff.rfl

/-- A loop over a list: the invariant is indexed by what is done. -/
theorem wp_foldlM {ι : Type} {f : β → ι → Proc L σ β} {l : List ι} {b : β} {Q : β → σ → Steps L σ → Prop}
    (I : List ι → β → σ → Steps L σ → Prop) (h0 : I [] b s [])
    (hstep : ∀ done i rest, l = done ++ i :: rest → ∀ b s t, I done b s t →
      (f b i).wp (fun b' s' t' => I (done ++ [i]) b' s' (t ++ t')) s)
    (hend : ∀ b s t, I l b s t → Q b s t) : (l.foldlM f b).wp Q s := by
  suffices h : ∀ rest done, l = done ++ rest → ∀ b s t, I done b s t →
      (rest.foldlM f b).wp (fun b' s' t' => Q b' s' (t ++ t')) s from by simpa using h l [] rfl b s [] h0
  intro rest
  induction rest with
  | nil =>
    intro done hl b s t hI
    rw [List.append_nil] at hl
    subst hl
    rw [List.foldlM_nil, wp_pure, List.append_nil]
    exact hend b s t hI
  | cons i rest ih =>
    intro done hl b s t hI
    rw [List.foldlM_cons, wp_bind]
    refine wp_mono (hstep done i rest hl b s t hI) fun b' s' t' h' => ?_
    simpa [List.append_assoc] using ih (done ++ [i]) (by simp [hl]) b' s' (t ++ t') h'

theorem wp_forM {ι : Type} {f : ι → Proc L σ PUnit} {l : List ι} {Q : PUnit → σ → Steps L σ → Prop}
    (I : List ι → σ → Steps L σ → Prop) (h0 : I [] s [])
    (hstep : ∀ done i rest, l = done ++ i :: rest → ∀ s t, I done s t →
      (f i).wp (fun _ s' t' => I (done ++ [i]) s' (t ++ t')) s)
    (hend : ∀ s t, I l s t → Q () s t) : (l.forM f).wp Q s := by
  suffices h : ∀ rest done, l = done ++ rest → ∀ s t, I done s t →
      (rest.forM f).wp (fun b' s' t' => Q b' s' (t ++ t')) s from by simpa using h l [] rfl s [] h0
  intro rest
  induction rest with
  | nil =>
    intro done hl s t hI
    rw [List.append_nil] at hl
    subst hl
    rw [List.forM_eq_forM, List.forM_nil, wp_pure, List.append_nil]
    exact hend s t hI
  | cons i rest ih =>
    intro done hl s t hI
    rw [List.forM_eq_forM, List.forM_cons, wp_bind]
    refine wp_mono (hstep done i rest hl s t hI) fun _ s' t' h' => ?_
    simpa [List.append_assoc] using ih (done ++ [i]) (by simp [hl]) s' (t ++ t') h'

/-- `joinAll`, one process after the other. -/
theorem wp_joinAll {ι : Type} {f : ι → Proc L σ β} {l : List ι} {Q : List β → σ → Steps L σ → Prop}
    (I : List ι → List β → σ → Steps L σ → Prop) (h0 : I [] [] s [])
    (hstep : ∀ done i rest, l = done ++ i :: rest → ∀ bs s t, I done bs s t →
      (f i).wp (fun b s' t' => I (done ++ [i]) (bs ++ [b]) s' (t ++ t')) s)
    (hend : ∀ bs s t, I l bs s t → Q bs s t) : (joinAll (l.map f)).wp Q s := by
  suffices h : ∀ rest done, l = done ++ rest → ∀ bs s t, I done bs s t →
      (joinAll (rest.map f)).wp (fun bs' s' t' => I l (bs ++ bs') s' (t ++ t')) s from by
    refine wp_mono (h l [] rfl [] s [] h0) fun bs s' t h' => hend bs s' t (by simpa using h')
  intro rest
  induction rest with
  | nil =>
    intro done hl bs s t hI
    rw [List.append_nil] at hl
    subst hl
    show I l (bs ++ []) s (t ++ [])
    simpa using hI
  | cons i rest ih =>
    intro done hl bs s t hI
    rw [List.map_cons, joinAll, wp_par]
    refine wp_mono (hstep done i rest hl bs s t hI) fun b s1 t1 h1 => ?_
    refine wp_mono (ih (done ++ [i]) (by simp [hl]) (bs ++ [b]) s1 (t ++ t1) h1) fun bs' s2 t2 h2 => ?_
    show I l (bs ++ b :: bs') s2 (t ++ (t1 ++ t2 ++ []))
    simpa [List.append_assoc] using h2

/-! ## Running next to others -/

/-- One step of a process: of one of the sides of a `par`, or the end of a `par` (no label). -/
inductive Step : {α : Type} → Proc L σ α → σ → Option L → Proc L σ α → σ → Prop
  | act {α β : Type} (f : σ → β × σ) (l : β → L) (k : β → Proc L σ α) (s : σ) :
      Step (.act f l k) s (some (l (f s).1)) (k (f s).1) (f s).2
  | left {α β γ : Type} {x x' : Proc L σ β} {y : Proc L σ γ} {k : β → γ → Proc L σ α} {s s' : σ} {l : Option L} :
      Step x s l x' s' → Step (.par x y k) s l (.par x' y k) s'
  | right {α β γ : Type} {x : Proc L σ β} {y y' : Proc L σ γ} {k : β → γ → Proc L σ α} {s s' : σ} {l : Option L} :
      Step y s l y' s' → Step (.par x y k) s l (.par x y' k) s'
  | joined {α β γ : Type} (b : β) (c : γ) (k : β → γ → Proc L σ α) (s : σ) :
      Step (.par (.ret b) (.ret c) k) s none (k b c) s

theorem Only.next {p q : Proc L σ α} {s s' : σ} {l : Option L} (h : Only A p) (hs : Step p s l q s') :
    Only A q ∧ ∀ x ∈ l, A s x s' := by
  induction hs with
  | act f l k s => exact ⟨(h s).2, fun x hx => by cases hx; exact (h s).1⟩
  | left _ ih => exact ⟨⟨(ih h.1).1, h.2.1, h.2.2⟩, (ih h.1).2⟩
  | right _ ih => exact ⟨⟨h.1, (ih h.2.1).1, h.2.2⟩, (ih h.2.1).2⟩
  | joined b c k s => exact ⟨h.2.2 b c, by simp⟩

/-- A step of the process, whatever it reports. -/
def Goes {α : Type} (c c' : Proc L σ α × σ) : Prop := ∃ l, Step c.1 c.2 l c'.1 c'.2

/-- Running alone is one of the runs. -/
theorem goes_exec {α : Type} (p : Proc L σ α) (s : σ) : Relation.ReflTransGen Goes (p, s) (.ret (p.exec s).1, (p.exec s).2) := by
  induction p generalizing s with
  | ret a => exact .refl
  | act f l k ih => exact .head ⟨_, .act f l k s⟩ (ih _ _)
  | par x y k ihx ihy ih =>
    have hx : Relation.ReflTransGen Goes (par x y k, s) (par (ret (x.exec s).1) y k, (x.exec s).2) :=
      (ihx s).lift (fun c => (par c.1 y k, c.2)) fun _ _ h => ⟨h.choose, .left h.choose_spec⟩
    have hy : Relation.ReflTransGen Goes (par (ret (x.exec s).1) y k, (x.exec s).2)
        (par (ret (x.exec s).1) (ret (y.exec (x.exec s).2).1) k, (y.exec (x.exec s).2).2) :=
      (ihy _).lift (fun c => (par (ret (x.exec s).1) c.1 k, c.2)) fun _ _ h => ⟨h.choose, .right h.choose_spec⟩
    exact (hx.trans hy).trans (.head ⟨none, .joined _ _ k _⟩ (ih _ _ _))

theorem Step.bind {α β : Type} {x x' : Proc L σ β} {s s' : σ} {l : Option L} (h : Step x s l x' s') (g : β → Proc L σ α) :
    Step (x >>= g) s l (x' >>= g) s' := by
  cases h with
  | act f l k s => exact .act f l (fun b => k b >>= g) s
  | left h => exact .left h
  | right h => exact .right h
  | joined b c k s => exact .joined b c (fun b c => k b c >>= g) s

/-- The first part of a process runs alone. -/
theorem goes_bind {α β : Type} (x : Proc L σ β) (g : β → Proc L σ α) (s : σ) :
    Relation.ReflTransGen Goes (x >>= g, s) (g (x.exec s).1, (x.exec s).2) :=
  (goes_exec x s).lift (fun c => (c.1 >>= g, c.2)) fun _ _ h => ⟨h.choose, h.choose_spec.bind g⟩

variable {ι : Type} {K : L → Prop} {I : σ → List (ι × L) → Prop} {i : ι} {R R' : α → List (ι × L) → Prop}
  {tr tr' tr'' : List (ι × L)}

/-- More has been reported, but no label in `K` by `i`. -/
def Later (K : L → Prop) (i : ι) (tr tr' : List (ι × L)) : Prop := ∃ t, tr' = tr ++ t ∧ ∀ l, (i, l) ∈ t → ¬ K l

theorem Later.refl (tr : List (ι × L)) : Later K i tr tr := ⟨[], by simp, by simp⟩

theorem Later.trans (h : Later K i tr tr') (h' : Later K i tr' tr'') : Later K i tr tr'' := by
  obtain ⟨t, rfl, ht⟩ := h
  obtain ⟨t', rfl, ht'⟩ := h'
  refine ⟨t ++ t', by simp, fun l hl => ?_⟩
  rcases List.mem_append.mp hl with hl | hl
  · exact ht l hl
  · exact ht' l hl

theorem Later.mem (h : Later K i tr tr') {x : ι × L} (hx : x ∈ tr) : x ∈ tr' := by
  obtain ⟨t, rfl, -⟩ := h
  exact List.mem_append_left _ hx

theorem Later.key (h : Later K i tr tr') {l : L} (hK : K l) : (i, l) ∈ tr' ↔ (i, l) ∈ tr := by
  obtain ⟨t, rfl, ht⟩ := h
  refine ⟨fun hl => ?_, fun hl => List.mem_append_left _ hl⟩
  rcases List.mem_append.mp hl with hl | hl
  · exact hl
  · exact absurd hK (ht l hl)

theorem Later.append {t : List (ι × L)} (ht : ∀ l, (i, l) ∈ t → ¬ K l) : Later K i tr (tr ++ t) := ⟨t, rfl, ht⟩

/-- The process `i`, when `tr` has been reported or more: its steps keep `I`, and what it returns is in
    `R`. The sides of a `par` do not report labels in `K`, so that a process knows which of these
    it has reported. -/
def Safe (K : L → Prop) (I : σ → List (ι × L) → Prop) (i : ι) {α : Type} :
    Proc L σ α → (α → List (ι × L) → Prop) → List (ι × L) → Prop
  | ret a, R, tr => ∀ tr', Later K i tr tr' → R a tr'
  | act f l k, R, tr => ∀ s tr', Later K i tr tr' → I s tr' →
      I (f s).2 (tr' ++ [(i, l (f s).1)]) ∧ Safe K I i (k (f s).1) R (tr' ++ [(i, l (f s).1)])
  | par x y k, R, tr => Only (fun _ l _ => ¬ K l) x ∧ Only (fun _ l _ => ¬ K l) y ∧
      ∃ Rx Ry, Safe K I i x Rx tr ∧ Safe K I i y Ry tr ∧
        ∀ b c tr', Later K i tr tr' → Rx b tr' → Ry c tr' → Safe K I i (k b c) R tr'

theorem Safe.later {p : Proc L σ α} (h : Safe K I i p R tr) (ht : Later K i tr tr') : Safe K I i p R tr' := by
  induction p generalizing tr tr' with
  | ret a => exact fun t h' => h t (ht.trans h')
  | act f l k ih => exact fun s t h' hI => h s t (ht.trans h') hI
  | par x y k ihx ihy ih =>
    obtain ⟨ox, oy, Rx, Ry, hx, hy, hk⟩ := h
    exact ⟨ox, oy, Rx, Ry, ihx hx ht, ihy hy ht, fun b c t h' => hk b c t (ht.trans h')⟩

theorem Safe.post {p : Proc L σ α} (h : Safe K I i p R tr) (hR : ∀ a t, R a t → R' a t) : Safe K I i p R' tr := by
  induction p generalizing tr with
  | ret a => exact fun t ht => hR a t (h t ht)
  | act f l k ih => exact fun s t ht hI => ⟨(h s t ht hI).1, ih _ (h s t ht hI).2 hR⟩
  | par x y k _ _ ih =>
    obtain ⟨ox, oy, Rx, Ry, hx, hy, hk⟩ := h
    exact ⟨ox, oy, Rx, Ry, hx, hy, fun b c t ht hb hc => ih b c (hk b c t ht hb hc) hR⟩

theorem safe_pure {a : α} (h : ∀ tr', Later K i tr tr' → R a tr') : Safe K I i (pure a) R tr := h

theorem safe_step {f : σ → α × σ} {l : α → L}
    (h : ∀ s tr', Later K i tr tr' → I s tr' → I (f s).2 (tr' ++ [(i, l (f s).1)]) ∧
      ∀ tr'', Later K i (tr' ++ [(i, l (f s).1)]) tr'' → R (f s).1 tr'') : Safe K I i (step f l) R tr := h

theorem safe_bind {p : Proc L σ α} {g : α → Proc L σ β} {R' : β → List (ι × L) → Prop} (h : Safe K I i p R tr)
    (hg : ∀ a tr', R a tr' → Safe K I i (g a) R' tr') : Safe K I i (p >>= g) R' tr := by
  show Safe K I i (andThen p g) R' tr
  induction p generalizing tr with
  | ret a => exact hg a tr (h tr (.refl tr))
  | act f l k ih =>
    intro s t h' hI
    obtain ⟨h1, h2⟩ := h s t h' hI
    exact ⟨h1, ih _ h2 hg⟩
  | par x y k _ _ ih =>
    obtain ⟨ox, oy, Rx, Ry, hx, hy, hk⟩ := h
    exact ⟨ox, oy, Rx, Ry, hx, hy, fun b c t h' hb hc => ih b c (hk b c t h' hb hc) hg⟩

/-- What was known before the process ran, and stays known, is known after it too. -/
theorem Safe.frame {p : Proc L σ α} {Q : List (ι × L) → Prop} (h : Safe K I i p R tr) (hQ : Q tr)
    (hlater : ∀ t t', Q t → Later K i t t' → Q t') (honly : Only (fun _ l _ => ¬ K l) p) :
    Safe K I i p (fun a t => R a t ∧ Q t) tr := by
  induction p generalizing tr with
  | ret a => exact fun t ht => ⟨h t ht, hlater _ _ hQ ht⟩
  | act f l k ih =>
    intro s t ht hI
    obtain ⟨h1, h2⟩ := h s t ht hI
    have hlast : Later K i t (t ++ [(i, l (f s).1)]) := .append fun l' hl' => by
      simp only [List.mem_singleton, Prod.mk.injEq] at hl'
      rw [hl'.2]
      exact (honly s).1
    exact ⟨h1, ih _ h2 (hlater _ _ hQ (ht.trans hlast)) (honly s).2⟩
  | par x y k _ _ ih =>
    obtain ⟨ox, oy, Rx, Ry, hx, hy, hk⟩ := h
    exact ⟨ox, oy, Rx, Ry, hx, hy, fun b c t ht hb hc => ih b c (hk b c t ht hb hc) (hlater _ _ hQ ht) (honly.2.2 b c)⟩

/-- `joinAll`: each process on its own, and their results together. -/
theorem safe_joinAll {κ : Type} {f : κ → Proc L σ α} {l : List κ} {R : κ → α → List (ι × L) → Prop}
    (honly : ∀ x ∈ l, Only (fun _ l _ => ¬ K l) (f x)) (h : ∀ x ∈ l, Safe K I i (f x) (R x) tr)
    (hR : ∀ x a t t', R x a t → Later K i t t' → R x a t') :
    Safe K I i (joinAll (l.map f)) (fun as tr' => List.Forall₂ (fun x a => R x a tr') l as) tr := by
  induction l generalizing tr with
  | nil => exact fun _ _ => .nil
  | cons x l ih =>
    have honly' : ∀ y ∈ l, Only (fun _ l _ => ¬ K l) (f y) := fun y hy => honly y (List.mem_cons_of_mem x hy)
    refine ⟨honly x List.mem_cons_self, only_joinAll fun p hp => ?_, _, _, h x List.mem_cons_self,
      ih honly' fun y hy => h y (List.mem_cons_of_mem x hy), fun a as t _ ha has t' ht' => ?_⟩
    · obtain ⟨y, hy, rfl⟩ := List.mem_map.mp hp
      exact honly' y hy
    · exact .cons (hR x a t t' ha ht') (has.imp fun y b hb => hR y b t t' hb ht')

theorem Safe.step {p q : Proc L σ α} {s s' : σ} {l : Option L} (h : Safe K I i p R tr) (hI : I s tr)
    (hs : Step p s l q s') : I s' (tr ++ (l.map (i, ·)).toList) ∧ Safe K I i q R (tr ++ (l.map (i, ·)).toList) := by
  have hlater : ∀ l : Option L, (∀ x ∈ l, ¬ K x) → Later K i tr (tr ++ (l.map (i, ·)).toList) := by
    intro l hl
    refine .append fun l' hl' => ?_
    cases l with
    | none => simp at hl'
    | some x =>
      simp only [Option.map_some, Option.toList_some, List.mem_singleton, Prod.mk.injEq] at hl'
      rw [hl'.2]
      exact hl x rfl
  induction hs with
  | act f l k s => exact h s tr (.refl tr) hI
  | left hstep ih =>
    obtain ⟨ox, oy, Rx, Ry, hx, hy, hk⟩ := h
    obtain ⟨h1, h2⟩ := ih hx hI
    obtain ⟨o1, o2⟩ := ox.next hstep
    exact ⟨h1, o1, oy, Rx, Ry, h2, hy.later (hlater _ o2), fun b c t h' => hk b c t ((hlater _ o2).trans h')⟩
  | right hstep ih =>
    obtain ⟨ox, oy, Rx, Ry, hx, hy, hk⟩ := h
    obtain ⟨h1, h2⟩ := ih hy hI
    obtain ⟨o1, o2⟩ := oy.next hstep
    exact ⟨h1, ox, o1, Rx, Ry, hx.later (hlater _ o2), h2, fun b c t h' => hk b c t ((hlater _ o2).trans h')⟩
  | joined b c k s =>
    obtain ⟨ox, oy, Rx, Ry, hx, hy, hk⟩ := h
    simp only [Option.map_none, Option.toList_none, List.append_nil]
    exact ⟨hI, hk b c tr (.refl tr) (hx tr (.refl tr)) (hy tr (.refl tr))⟩

/-- Steps of a kind keep the invariant. -/
theorem Only.safe {p : Proc L σ α} (h : Only A p) (hK : ∀ s l s', A s l s' → ¬ K l)
    (hA : ∀ s l s' t, A s l s' → I s t → I s' (t ++ [(i, l)])) : Safe K I i p (fun _ _ => True) tr := by
  induction p generalizing tr with
  | ret a => exact fun _ _ => trivial
  | act f l k ih => exact fun s t _ hI => ⟨hA _ _ _ _ (h s).1 hI, ih _ (h s).2⟩
  | par x y k ihx ihy ih =>
    exact ⟨h.1.mono hK, h.2.1.mono hK, _, _, ihx h.1, ihy h.2.1, fun b c t _ _ _ => ih b c (h.2.2 b c)⟩

/-! ## Keeping a property of the state -/

/-- Next to others that keep `P`, the process keeps `P`, and it returns a result in `R`. -/
def Keeps (P : σ → Prop) {α : Type} : Proc L σ α → (α → Prop) → Prop
  | ret a, R => R a
  | act f _ k, R => ∀ s, P s → P (f s).2 ∧ Keeps P (k (f s).1) R
  | par x y k, R => ∃ Rx Ry, Keeps P x Rx ∧ Keeps P y Ry ∧ ∀ b c, Rx b → Ry c → Keeps P (k b c) R

section Keeps

variable {P : σ → Prop} {S S' : α → Prop}

theorem Keeps.mono {p : Proc L σ α} (h : Keeps P p S) (hS : ∀ a, S a → S' a) : Keeps P p S' := by
  induction p with
  | ret a => exact hS a h
  | act f l k ih => exact fun s hP => ⟨(h s hP).1, ih _ (h s hP).2 hS⟩
  | par x y k _ _ ih =>
    obtain ⟨Rx, Ry, hx, hy, hk⟩ := h
    exact ⟨Rx, Ry, hx, hy, fun b c hb hc => ih b c (hk b c hb hc) hS⟩

theorem keeps_pure {a : α} (h : S a) : Keeps P (pure a : Proc L σ α) S := h

theorem keeps_step {f : σ → α × σ} {l : α → L} (h : ∀ s, P s → P (f s).2 ∧ S (f s).1) : Keeps P (step f l) S := h

theorem keeps_bind {p : Proc L σ α} {g : α → Proc L σ β} {T : β → Prop} (h : Keeps P p S)
    (hg : ∀ a, S a → Keeps P (g a) T) : Keeps P (p >>= g) T := by
  show Keeps P (andThen p g) T
  induction p with
  | ret a => exact hg a h
  | act f l k ih => exact fun s hP => ⟨(h s hP).1, ih _ (h s hP).2 hg⟩
  | par x y k _ _ ih =>
    obtain ⟨Rx, Ry, hx, hy, hk⟩ := h
    exact ⟨Rx, Ry, hx, hy, fun b c hb hc => ih b c (hk b c hb hc) hg⟩

/-- What comes after the first part keeps it as well. -/
theorem Keeps.of_bind {p : Proc L σ α} {g : α → Proc L σ β} {T : β → Prop} (h : Keeps P (p >>= g) T) :
    Keeps P p fun a => Keeps P (g a) T := by
  change Keeps P (andThen p g) T at h
  induction p with
  | ret a => exact h
  | act f l k ih => exact fun s hP => ⟨(h s hP).1, ih _ (h s hP).2⟩
  | par x y k _ _ ih =>
    obtain ⟨Rx, Ry, hx, hy, hk⟩ := h
    exact ⟨Rx, Ry, hx, hy, fun b c hb hc => ih b c (hk b c hb hc)⟩

/-- `joinAll`: each process on its own, and their results together. -/
theorem keeps_joinAll {κ : Type} {f : κ → Proc L σ α} {l : List κ} {R : κ → α → Prop} (h : ∀ x ∈ l, Keeps P (f x) (R x)) :
    Keeps P (joinAll (l.map f)) fun as => List.Forall₂ R l as := by
  induction l with
  | nil => exact .nil
  | cons x l ih =>
    exact ⟨_, _, h x List.mem_cons_self, ih fun y hy => h y (List.mem_cons_of_mem x hy), fun a as ha has => .cons ha has⟩

theorem keeps_forM {f : β → Proc L σ PUnit} {l : List β} (h : ∀ x ∈ l, Keeps P (f x) fun _ => True) :
    Keeps P (l.forM f) fun _ => True := by
  induction l with
  | nil => exact trivial
  | cons x l ih =>
    rw [List.forM_eq_forM, List.forM_cons]
    exact keeps_bind (h x List.mem_cons_self) fun _ _ => ih fun y hy => h y (List.mem_cons_of_mem x hy)

theorem keeps_foldlM {f : β → γ → Proc L σ β} {l : List γ} {b : β} (h : ∀ b, ∀ x ∈ l, Keeps P (f b x) fun _ => True) :
    Keeps P (l.foldlM f b) fun _ => True := by
  induction l generalizing b with
  | nil => exact trivial
  | cons x l ih =>
    rw [List.foldlM_cons]
    exact keeps_bind (h b x List.mem_cons_self) fun _ _ => ih fun b y hy => h b y (List.mem_cons_of_mem x hy)

/-- Steps of a kind keep the property. -/
theorem Only.keeps {p : Proc L σ α} (h : Only A p) (hA : ∀ s l s', A s l s' → P s → P s') : Keeps P p fun _ => True := by
  induction p with
  | ret a => exact trivial
  | act f l k ih => exact fun s hP => ⟨hA _ _ _ (h s).1 hP, ih _ (h s).2⟩
  | par x y k ihx ihy ih => exact ⟨_, _, ihx h.1, ihy h.2.1, fun b c _ _ => ih b c (h.2.2 b c)⟩

theorem Keeps.step {p q : Proc L σ α} {s s' : σ} {l : Option L} (h : Keeps P p S) (hP : P s) (hs : Step p s l q s') :
    P s' ∧ Keeps P q S := by
  induction hs with
  | act f l k s => exact h s hP
  | left _ ih =>
    obtain ⟨Rx, Ry, hx, hy, hk⟩ := h
    exact ⟨(ih hx hP).1, Rx, Ry, (ih hx hP).2, hy, hk⟩
  | right _ ih =>
    obtain ⟨Rx, Ry, hx, hy, hk⟩ := h
    exact ⟨(ih hy hP).1, Rx, Ry, hx, (ih hy hP).2, hk⟩
  | joined b c k s =>
    obtain ⟨Rx, Ry, hx, hy, hk⟩ := h
    exact ⟨hP, hk b c hx hy⟩

/-- Alone too. -/
theorem Keeps.exec {p : Proc L σ α} {s : σ} (h : Keeps P p S) (hP : P s) : S (p.exec s).1 ∧ P (p.exec s).2 := by
  induction p generalizing s with
  | ret a => exact ⟨h, hP⟩
  | act f l k ih => exact ih _ (h s hP).2 (h s hP).1
  | par x y k ihx ihy ih =>
    obtain ⟨Rx, Ry, hx, hy, hk⟩ := h
    have h1 := ihx hx hP
    have h2 := ihy hy h1.2
    exact ih _ _ (hk _ _ h1.1 h2.1) h2.2

/-- What `p` may have become, each of its steps taken from a state with `P`. -/
def Amid (P : σ → Prop) : Proc L σ α → Proc L σ α → Prop :=
  Relation.ReflTransGen fun p q => ∃ s l s', P s ∧ Step p s l q s'

theorem Amid.left {x x' : Proc L σ β} {y : Proc L σ γ} {k : β → γ → Proc L σ α} (h : Amid P x x') :
    Amid P (par x y k) (par x' y k) := by
  induction h with
  | refl => exact .refl
  | tail _ hstep ih =>
    obtain ⟨s, l, s', hs, hstep⟩ := hstep
    exact ih.tail ⟨s, l, s', hs, .left hstep⟩

theorem Amid.right {x : Proc L σ β} {y y' : Proc L σ γ} {k : β → γ → Proc L σ α} (h : Amid P y y') :
    Amid P (par x y k) (par x y' k) := by
  induction h with
  | refl => exact .refl
  | tail _ hstep ih =>
    obtain ⟨s, l, s', hs, hstep⟩ := hstep
    exact ih.tail ⟨s, l, s', hs, .right hstep⟩

/-- A process keeps `P` next to others that do, if no step that it may come to leaves `P`. -/
theorem keeps_of_amid {p : Proc L σ α} (hP : ∃ s, P s)
    (h : ∀ q, Amid P p q → ∀ s l q' s', P s → Step q s l q' s' → P s') : Keeps P p fun a => Amid P p (ret a) := by
  induction p with
  | ret a => exact .refl
  | act f l k ih =>
    intro s hs
    have hstep : Step (act f l k) s (some (l (f s).1)) (k (f s).1) (f s).2 := .act f l k s
    have hnext : ∀ {q}, Amid P (k (f s).1) q → Amid P (act f l k) q := fun hq => .head ⟨s, _, _, hs, hstep⟩ hq
    refine ⟨h _ .refl s _ _ _ hs hstep, ?_⟩
    exact (ih (f s).1 fun q hq => h q (hnext hq)).mono fun a ha => hnext ha
  | par x y k ihx ihy ih =>
    refine ⟨_, _, ihx fun q hq s l q' s' hs hstep => ?_, ihy fun q hq s l q' s' hs hstep => ?_, fun b c hb hc => ?_⟩
    · exact h _ hq.left s l _ s' hs (.left hstep)
    · exact h _ hq.right s l _ s' hs (.right hstep)
    · have hjoined : ∀ {q}, Amid P (k b c) q → Amid P (par x y k) q := fun hq => by
        obtain ⟨s, hs⟩ := hP
        exact (hb.left.trans hc.right).trans (.head ⟨s, none, s, hs, .joined b c k s⟩ hq)
      exact (ih b c fun q hq => h q (hjoined hq)).mono fun a ha => hjoined ha

theorem Keeps.amid {p q : Proc L σ α} (h : Keeps P p S) (hq : Amid P p q) : Keeps P q S := by
  induction hq with
  | refl => exact h
  | tail _ hstep ih =>
    obtain ⟨s, l, s', hs, hstep⟩ := hstep
    exact (ih.step hs hstep).2

/-- On a part of a larger state. -/
theorem Keeps.within {τ : Type} {part : τ → σ} {put : τ → σ → τ} (hpart : ∀ t s, part (put t s) = s) {p : Proc L σ α}
    (h : Keeps P p S) : Keeps (fun t => P (part t)) (p.within part put) S := by
  induction p with
  | ret a => exact h
  | act f l k ih =>
    intro t hP
    refine ⟨?_, ih _ (h _ hP).2⟩
    show P (part (put t _))
    rw [hpart]
    exact (h _ hP).1
  | par x y k ihx ihy ih =>
    obtain ⟨Rx, Ry, hx, hy, hk⟩ := h
    exact ⟨Rx, Ry, ihx hx, ihy hy, fun b c hb hc => ih b c (hk b c hb hc)⟩

theorem Keeps.of_within {τ : Type} {part : τ → σ} {put : τ → σ → τ} (hpart : ∀ t s, part (put t s) = s) (t : τ)
    {p : Proc L σ α} (h : Keeps (fun t => P (part t)) (p.within part put) S) : Keeps P p S := by
  induction p with
  | ret a => exact h
  | act f l k ih =>
    intro s hP
    have hput : P (part (put t s)) := by rwa [hpart]
    have hstep := h (put t s) hput
    dsimp only at hstep
    rw [hpart, hpart] at hstep
    exact ⟨hstep.1, ih _ hstep.2⟩
  | par x y k ihx ihy ih =>
    obtain ⟨Rx, Ry, hx, hy, hk⟩ := h
    exact ⟨Rx, Ry, ihx hx, ihy hy, fun b c hb hc => ih b c (hk b c hb hc)⟩

end Keeps

/-! ## One order of the steps -/

/-- The next step, the left side of a `par` first. -/
def advance {α : Type} : Proc L σ α → σ → Option (Option L × Proc L σ α × σ)
  | ret _, _ => none
  | act f l k, s => some (some (l (f s).1), k (f s).1, (f s).2)
  | par x y k, s =>
    match advance x s with
    | some (l, x', s') => some (l, par x' y k, s')
    | none =>
      match advance y s with
      | some (l, y', s') => some (l, par x y' k, s')
      | none =>
        match x, y with
        | ret b, ret c => some (none, k b c, s)
        | _, _ => none

theorem step_of_advance {p q : Proc L σ α} {s s' : σ} {l : Option L} (h : p.advance s = some (l, q, s')) : Step p s l q s' := by
  induction p generalizing s' l with
  | ret a => cases h
  | act f l k =>
    cases h
    exact .act f l k s
  | par x y k ihx ihy _ =>
    unfold advance at h
    cases hx : x.advance s with
    | some r =>
      obtain ⟨lx, x', sx⟩ := r
      rw [hx] at h
      cases h
      exact .left (ihx hx)
    | none =>
      rw [hx] at h
      cases hy : y.advance s with
      | some r =>
        obtain ⟨ly, y', sy⟩ := r
        rw [hy] at h
        cases h
        exact .right (ihy hy)
      | none =>
        rw [hy] at h
        dsimp only at h
        split at h
        · cases h
          exact .joined _ _ _ _
        · cases h

end Proc

/-- Processes on one state, and what they have reported so far. -/
structure Pool (ι L σ α : Type) where
  procs : ι → Proc L σ α
  state : σ
  trace : List (ι × L)

namespace Pool

variable {ι L σ α : Type} [DecidableEq ι]

inductive Step : Pool ι L σ α → Pool ι L σ α → Prop
  | run (i : ι) {p : Pool ι L σ α} {l : Option L} {q : Proc L σ α} {s' : σ} (h : Proc.Step (p.procs i) p.state l q s') :
      Step p ⟨Function.update p.procs i q, s', p.trace ++ (l.map (i, ·)).toList⟩

/-- Any interleaving of any number of steps. -/
def Runs : Pool ι L σ α → Pool ι L σ α → Prop := Relation.ReflTransGen Step

/-- Processes that keep the invariant one by one keep it in every interleaving. -/
theorem safe {K : L → Prop} {I : σ → List (ι × L) → Prop} {R : ι → α → List (ι × L) → Prop} {p q : Pool ι L σ α}
    (h : Runs p q) (hI : I p.state p.trace) (hp : ∀ i, Proc.Safe K I i (p.procs i) (R i) p.trace) :
    I q.state q.trace ∧ ∀ i, Proc.Safe K I i (q.procs i) (R i) q.trace := by
  induction h with
  | refl => exact ⟨hI, hp⟩
  | @tail p' _ _ hstep ih =>
    obtain ⟨hI', hp'⟩ := ih
    cases hstep with
    | @run i _ l q' s' hs =>
      obtain ⟨h1, h2⟩ := (hp' i).step hI' hs
      refine ⟨h1, fun j => ?_⟩
      by_cases hj : j = i
      · subst hj
        simpa using h2
      · have hlater : Proc.Later K j p'.trace (p'.trace ++ (l.map (i, ·)).toList) := .append fun x hx => by
          cases l with
          | none => simp at hx
          | some y => simp [hj] at hx
        simpa [hj] using (hp' j).later hlater

/-- Processes that keep a property one by one keep it in every interleaving. -/
theorem keeps {P : σ → Prop} {R : ι → α → Prop} {p q : Pool ι L σ α} (h : Runs p q) (hP : P p.state)
    (hp : ∀ i, Proc.Keeps P (p.procs i) (R i)) : P q.state ∧ ∀ i, Proc.Keeps P (q.procs i) (R i) := by
  induction h with
  | refl => exact ⟨hP, hp⟩
  | @tail p' _ _ hstep ih =>
    obtain ⟨hP', hp'⟩ := ih
    cases hstep with
    | @run i _ l q' s' hs =>
      obtain ⟨h1, h2⟩ := (hp' i).step hP' hs
      refine ⟨h1, fun j => ?_⟩
      by_cases hj : j = i
      · subst hj
        simpa using h2
      · simpa [hj] using hp' j

/-- One of the processes runs to the end of its first part, and the others wait. -/
theorem runs_bind {β : Type} {p : Pool ι L σ α} {i : ι} {x : Proc L σ β} {g : β → Proc L σ α} (h : p.procs i = x >>= g) :
    ∃ tr, Runs p ⟨Function.update p.procs i (g (x.exec p.state).1), (x.exec p.state).2, tr⟩ := by
  have hlift : ∀ {c c' : Proc L σ α × σ}, Relation.ReflTransGen Proc.Goes c c' → ∀ tr, ∃ tr',
      Runs ⟨Function.update p.procs i c.1, c.2, tr⟩ ⟨Function.update p.procs i c'.1, c'.2, tr'⟩ := by
    intro c c' h
    induction h with
    | refl => exact fun tr => ⟨tr, .refl⟩
    | @tail d d' _ hgo ih =>
      intro tr
      obtain ⟨tr', hruns⟩ := ih tr
      obtain ⟨l, hstep⟩ := hgo
      have hone := Step.run i (p := ⟨Function.update p.procs i d.1, d.2, tr'⟩) (by simpa using hstep)
      rw [Function.update_idem] at hone
      exact ⟨_, hruns.tail hone⟩
  obtain ⟨tr, hruns⟩ := hlift (Proc.goes_bind x g p.state) p.trace
  rw [← h, Function.update_eq_self] at hruns
  exact ⟨tr, hruns⟩

def sched : List ι → Pool ι L σ α → Pool ι L σ α
  | [], p => p
  | i :: is, p =>
    match (p.procs i).advance p.state with
    | some (l, q, s') => sched is ⟨Function.update p.procs i q, s', p.trace ++ (l.map (i, ·)).toList⟩
    | none => sched is p

theorem runs_sched (is : List ι) (p : Pool ι L σ α) : Runs p (sched is p) := by
  induction is generalizing p with
  | nil => exact .refl
  | cons i is ih =>
    unfold sched
    cases h : (p.procs i).advance p.state with
    | none => exact ih p
    | some r =>
      obtain ⟨l, q, s'⟩ := r
      exact .head (.run i (Proc.step_of_advance h)) (ih _)

end Pool
end ObjStr.Lib
