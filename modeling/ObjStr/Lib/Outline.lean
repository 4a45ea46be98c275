/-
  ObjStr.Lib.Outline — outlines: lines whose indentation says what they are part of.

  A line is a header or a leaf. What is indented more than a header, up to the first line that is not, is below it; the items
  below a header are leaves and headers with what is below them, at any indentation of their own.

  `items` reads them one line at a time and fails at the first line that cannot be read. `Reads` says of which lines they are
  the items, and `block_iff` that the reader finds these, exactly. What is proved of an outline is proved by induction on
  `Reads`.
-/

import Mathlib.Data.List.Basic
import Mathlib.Data.Sum.Basic

namespace ObjStr.Lib

/-- How the lines are read: `σ` is what a leaf is read to, `ν` a header, and `τ` a header with its items. -/
structure Outline (L ν σ τ E : Type) where
  isHeader : L → Bool
  header : L → Except E ν
  leaf : L → Except E σ
  build : ν → List (σ ⊕ τ) → τ

namespace Outline

variable {L ν σ τ E : Type} (g : Outline L ν σ τ E)

/-- The items of the lines that are indented more than `b`, and the lines from the first that is not; `n` bounds the number of
    lines. -/
def items : (n : Nat) → (b : Nat) → List (Nat × L) → Except E (List (σ ⊕ τ) × List (Nat × L))
  | 0, _, lines => .ok ([], lines)
  | _ + 1, _, [] => .ok ([], [])
  | n + 1, b, (i, l) :: lines =>
    if i ≤ b then .ok ([], (i, l) :: lines)
    else if g.isHeader l then do
      let h ← g.header l
      let (sub, lines) ← items n i lines
      let (more, lines) ← items n b lines
      pure (.inr (g.build h sub) :: more, lines)
    else do
      let s ← g.leaf l
      let (more, lines) ← items n b lines
      pure (.inl s :: more, lines)

/-- The block that the first line is the header of, and the lines behind it; `e` if there is no line. -/
def block (e : E) : List (Nat × L) → Except E (τ × List (Nat × L))
  | [] => .error e
  | (i, l) :: lines => do
    let h ← g.header l
    let (sub, lines) ← g.items lines.length i lines
    pure (g.build h sub, lines)

/-! ## What is read -/

def Ends (b : Nat) (lines : List (Nat × L)) : Prop := ∀ x ∈ lines.head?, x.1 ≤ b

theorem Ends.mono {b i : Nat} {lines : List (Nat × L)} (h : Ends b lines) (hi : b ≤ i) : Ends i lines :=
  fun x hx => Nat.le_trans (h x hx) hi

theorem Ends.append {i : Nat} {ls rest : List (Nat × L)} (h : Ends i ls) (hrest : Ends i rest) : Ends i (ls ++ rest) := by
  cases ls with
  | nil => exact hrest
  | cons x ls => exact h

/-- The lines, all indented more than `b`, are these items. -/
inductive Reads : Nat → List (Nat × L) → List (σ ⊕ τ) → Prop
  | nil {b : Nat} : Reads b [] []
  | leaf {b i : Nat} {l : L} {s : σ} {ls : List (Nat × L)} {vs : List (σ ⊕ τ)} :
      b < i → g.isHeader l = false → g.leaf l = .ok s → Reads b ls vs → Reads b ((i, l) :: ls) (.inl s :: vs)
  | node {b i : Nat} {l : L} {h : ν} {sub ls : List (Nat × L)} {ws vs : List (σ ⊕ τ)} :
      b < i → g.isHeader l = true → g.header l = .ok h → Reads i sub ws → Ends i ls → Reads b ls vs →
      Reads b ((i, l) :: (sub ++ ls)) (.inr (g.build h ws) :: vs)

variable {g}

theorem Reads.lt {b : Nat} {ls : List (Nat × L)} {vs : List (σ ⊕ τ)} (h : g.Reads b ls vs) : ∀ x ∈ ls, b < x.1 := by
  induction h with
  | nil => exact List.forall_mem_nil _
  | leaf hi _ _ _ ih => exact List.forall_mem_cons.mpr ⟨hi, ih⟩
  | node hi _ _ _ _ _ ihs ih =>
    refine List.forall_mem_cons.mpr ⟨hi, fun x hx => ?_⟩
    rcases List.mem_append.mp hx with hx | hx
    · exact Nat.lt_trans hi (ihs x hx)
    · exact ih x hx

theorem Reads.items {b : Nat} {ls : List (Nat × L)} {vs : List (σ ⊕ τ)} (h : g.Reads b ls vs) {n : Nat}
    {rest : List (Nat × L)} (hn : (ls ++ rest).length ≤ n) (hrest : Ends b rest) :
    g.items n b (ls ++ rest) = .ok (vs, rest) := by
  induction h generalizing n rest with
  | nil =>
    cases n with
    | zero => rfl
    | succ n =>
      cases rest with
      | nil => rfl
      | cons x rest => exact if_pos (hrest x rfl)
  | leaf hi hl hs _ ih =>
    cases n with
    | zero => cases hn
    | succ n =>
      have ih := ih (Nat.le_of_succ_le_succ hn) hrest
      simp only [List.cons_append, Outline.items, if_neg (Nat.not_le.mpr hi), hl, Bool.false_eq_true, if_false, hs, ih]
      rfl
  | @node b i l h sub ls ws vs hi hl hh _ hls _ ihs ih =>
    cases n with
    | zero => cases hn
    | succ n =>
      have hn : (sub ++ (ls ++ rest)).length ≤ n := by simpa using hn
      have hmore : (ls ++ rest).length ≤ n := by
        rw [List.length_append] at hn
        omega
      have ihs := ihs hn (hls.append (hrest.mono (Nat.le_of_lt hi)))
      have ih := ih hmore hrest
      simp only [List.cons_append, List.append_assoc, Outline.items, if_neg (Nat.not_le.mpr hi), hl, if_true, hh]
      change (Except.bind (g.items n i (sub ++ (ls ++ rest))) _ : Except E _) = _
      rw [ihs]
      change (Except.bind (g.items n b (ls ++ rest)) _ : Except E _) = _
      rw [ih]
      rfl

theorem bind_ok {α β : Type} {x : Except E α} {f : α → Except E β} {b : β} (h : (x >>= f) = .ok b) :
    ∃ a, x = .ok a ∧ f a = .ok b := by
  cases x with
  | error e => cases h
  | ok a => exact ⟨a, rfl, h⟩

/-- The items are those of the lines up to the first that is not below, if these lines have any. -/
theorem reads_of_items {n b : Nat} {lines rest : List (Nat × L)} {vs : List (σ ⊕ τ)} (hn : lines.length ≤ n)
    (h : g.items n b lines = .ok (vs, rest)) : ∃ ls, lines = ls ++ rest ∧ g.Reads b ls vs ∧ Ends b rest := by
  induction n generalizing b lines rest vs with
  | zero =>
    obtain rfl := List.length_eq_zero_iff.mp (Nat.le_zero.mp hn)
    cases h
    exact ⟨[], rfl, .nil, fun _ hx => by cases hx⟩
  | succ n ih =>
    cases lines with
    | nil =>
      cases h
      exact ⟨[], rfl, .nil, fun _ hx => by cases hx⟩
    | cons line lines =>
      obtain ⟨i, l⟩ := line
      have hn : lines.length ≤ n := Nat.le_of_succ_le_succ hn
      rw [Outline.items] at h
      split at h
      · next hi =>
        cases h
        exact ⟨[], rfl, .nil, fun x hx => Option.some.inj hx ▸ hi⟩
      split at h
      · next hi hl =>
        obtain ⟨hd, hh, h⟩ := bind_ok h
        obtain ⟨⟨sub, lines1⟩, hsub, h⟩ := bind_ok h
        obtain ⟨⟨more, lines2⟩, hmore, h⟩ := bind_ok h
        cases h
        obtain ⟨subs, rfl, hsubs, hends⟩ := ih hn hsub
        obtain ⟨ls, rfl, hls, hrest⟩ := ih (by rw [List.length_append] at hn; omega) hmore
        have hends : Ends i ls := by
          cases ls with
          | nil => exact fun _ hx => by cases hx
          | cons x ls => exact hends
        exact ⟨(i, l) :: (subs ++ ls), by simp, .node (Nat.not_le.mp hi) hl hh hsubs hends hls, hrest⟩
      · next hi hl =>
        obtain ⟨s, hs, h⟩ := bind_ok h
        obtain ⟨⟨more, lines1⟩, hmore, h⟩ := bind_ok h
        cases h
        obtain ⟨ls, rfl, hls, hrest⟩ := ih hn hmore
        exact ⟨(i, l) :: ls, rfl, .leaf (Nat.not_le.mp hi) (Bool.not_eq_true _ ▸ hl) hs hls, hrest⟩

theorem block_iff {e : E} {lines rest : List (Nat × L)} {t : τ} : g.block e lines = .ok (t, rest) ↔
    ∃ i l h sub ws, lines = (i, l) :: (sub ++ rest) ∧ g.header l = .ok h ∧ g.Reads i sub ws ∧ Ends i rest ∧ t = g.build h ws := by
  constructor
  · intro hb
    cases lines with
    | nil => cases hb
    | cons line lines =>
      obtain ⟨i, l⟩ := line
      obtain ⟨h, hh, hb⟩ := bind_ok hb
      obtain ⟨⟨ws, lines1⟩, hws, hb⟩ := bind_ok hb
      cases hb
      obtain ⟨sub, rfl, hsub, hrest⟩ := reads_of_items (Nat.le_refl _) hws
      exact ⟨i, l, h, sub, ws, rfl, hh, hsub, hrest, rfl⟩
  · rintro ⟨i, l, h, sub, ws, rfl, hh, hsub, hrest, rfl⟩
    rw [block, hh]
    change (Except.bind (g.items _ i (sub ++ rest)) _ : Except E _) = _
    rw [hsub.items (Nat.le_refl _) hrest]
    rfl

end Outline

end ObjStr.Lib
