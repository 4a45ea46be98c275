/-
  ObjStr.Lib.Spans — half-open spans of addresses and canonical span lists.

  A span `(start, size)` has the addresses `start ≤ x < start + size`. A list of spans is
  canonical (`Canon`) when its spans are not empty, in address order, and no two touch.
  A canonical list is determined by the addresses it covers (`Canon.ext`), so two ways of
  keeping a free list that agree on which addresses are free give the same list.

  `gaps lo hi used` walks the sorted spans `used` with a cursor and collects what lies
  between them in `[lo, hi)`; when they are apart, positive and inside, it is canonical and
  covers exactly the addresses of `[lo, hi)` that no span of `used` has. Its sizes add up to
  what the sizes of `used` leave of the range (`total_gaps`), so spans in order that add up to the
  whole range cover it (`Packed.covers_of_total`).
-/

import Mathlib.Data.List.Basic
import Mathlib.Algebra.Ring.Nat
import Mathlib.Tactic.Common

namespace ObjStr.Lib

/-- `(start, size)`. -/
abbrev Span := Nat × Nat

def Span.Has (e : Span) (x : Nat) : Prop := e.1 ≤ x ∧ x < e.1 + e.2

instance (e : Span) (x : Nat) : Decidable (e.Has x) := inferInstanceAs (Decidable (_ ∧ _))

/-- The two spans share no address (or one is empty between them). -/
def Span.Apart (a b : Span) : Prop := a.1 + a.2 ≤ b.1 ∨ b.1 + b.2 ≤ a.1

instance (a b : Span) : Decidable (a.Apart b) := inferInstanceAs (Decidable (_ ∨ _))

theorem Span.Apart.symm {a b : Span} (h : a.Apart b) : b.Apart a := Or.symm h

theorem Span.Apart.not_both {a b : Span} (h : a.Apart b) {x : Nat} (ha : a.Has x) : ¬ b.Has x := by
  intro hb
  unfold Span.Apart at h
  unfold Span.Has at ha hb
  omega

/-- Positive spans that share no address are apart. -/
theorem Span.apart_of_disjoint {a b : Span} (ha : 0 < a.2) (hb : 0 < b.2)
    (h : ∀ x, a.Has x → ¬ b.Has x) : a.Apart b := by
  unfold Span.Apart
  by_contra hc
  exact h (max a.1 b.1) (by unfold Span.Has; omega) (by unfold Span.Has; omega)

def Covers (l : List Span) (x : Nat) : Prop := ∃ e ∈ l, e.Has x

@[simp] theorem covers_nil (x : Nat) : ¬ Covers [] x := by simp [Covers]

@[simp] theorem covers_cons (e : Span) (l : List Span) (x : Nat) :
    Covers (e :: l) x ↔ e.Has x ∨ Covers l x := by simp [Covers]

@[simp] theorem covers_append (l m : List Span) (x : Nat) :
    Covers (l ++ m) x ↔ Covers l x ∨ Covers m x := by
  induction l with
  | nil => simp
  | cons e l ih => simp only [List.cons_append, covers_cons, ih, or_assoc]

/-- Every span of a list with no address in `e` is apart from `e`. -/
theorem apart_of_not_covers {e : Span} {l : List Span} (he : 0 < e.2) (hl : ∀ a ∈ l, 0 < a.2)
    (h : ∀ x, e.Has x → ¬ Covers l x) : ∀ a ∈ l, e.Apart a := by
  intro a ha
  exact Span.apart_of_disjoint he (hl a ha) (fun x hx hax => h x hx ⟨a, ha, hax⟩)

/-! ## Canonical lists -/

structure Canon (l : List Span) : Prop where
  pos : ∀ e ∈ l, 0 < e.2
  sep : l.Pairwise (fun a b => a.1 + a.2 < b.1)

theorem canon_nil : Canon [] := ⟨by simp, List.Pairwise.nil⟩

theorem canon_cons {e : Span} {l : List Span} :
    Canon (e :: l) ↔ 0 < e.2 ∧ (∀ b ∈ l, e.1 + e.2 < b.1) ∧ Canon l := by
  constructor
  · intro h
    obtain ⟨hs, hl⟩ := List.pairwise_cons.mp h.sep
    exact ⟨h.pos e (by simp), hs, fun a ha => h.pos a (by simp [ha]), hl⟩
  · rintro ⟨h1, h2, h3⟩
    refine ⟨?_, List.pairwise_cons.mpr ⟨h2, h3.sep⟩⟩
    intro a ha
    rcases List.mem_cons.mp ha with rfl | ha
    · exact h1
    · exact h3.pos a ha

theorem canon_append {l m : List Span} :
    Canon (l ++ m) ↔ Canon l ∧ Canon m ∧ ∀ a ∈ l, ∀ b ∈ m, a.1 + a.2 < b.1 := by
  induction l with
  | nil => simp [canon_nil]
  | cons e l ih =>
    simp only [List.cons_append, canon_cons, ih, List.mem_append, List.mem_cons, forall_eq_or_imp]
    constructor
    · rintro ⟨h1, h2, h3, h4, h5⟩
      exact ⟨⟨h1, fun b hb => h2 b (Or.inl hb), h3⟩, h4, fun b hb => h2 b (Or.inr hb), h5⟩
    · rintro ⟨⟨h1, h2, h3⟩, h4, h5, h6⟩
      exact ⟨h1, fun b hb => hb.elim (h2 b) (h5 b), h3, h4, h6⟩

theorem Canon.not_covers_le {e : Span} {l : List Span} (h : Canon (e :: l)) {x : Nat} (hx : x ≤ e.1 + e.2) :
    ¬ Covers l x := by
  rintro ⟨b, hb, hbx⟩
  have := (canon_cons.mp h).2.1 b hb
  unfold Span.Has at hbx
  omega

theorem Canon.le_of_covers {e : Span} {l : List Span} (h : Canon (e :: l)) {x : Nat} (hx : Covers (e :: l) x) :
    e.1 ≤ x := by
  rcases (covers_cons _ _ _).mp hx with hx | hx
  · exact hx.1
  · by_contra hlt
    exact h.not_covers_le (by omega) hx

/-- The start of a canonical list's first span is covered. -/
theorem Canon.covers_head {e : Span} {l : List Span} (h : Canon (e :: l)) : Covers (e :: l) e.1 := by
  have := (canon_cons.mp h).1
  simp only [covers_cons, Span.Has]
  omega

/-- The end of the first span of a canonical list is not covered. -/
theorem Canon.not_covers_end {e : Span} {l : List Span} (h : Canon (e :: l)) : ¬ Covers (e :: l) (e.1 + e.2) := by
  rintro hc
  rcases (covers_cons _ _ _).mp hc with hc | hc
  · unfold Span.Has at hc; omega
  · exact h.not_covers_le (Nat.le_refl _) hc

/-- A canonical list is determined by the addresses it covers. -/
theorem Canon.ext {l m : List Span} (hl : Canon l) (hm : Canon m) (h : ∀ x, Covers l x ↔ Covers m x) : l = m := by
  induction l generalizing m with
  | nil =>
    cases m with
    | nil => rfl
    | cons b m => exact absurd ((h b.1).mpr hm.covers_head) (covers_nil _)
  | cons a l ih =>
    cases m with
    | nil => exact absurd ((h a.1).mp hl.covers_head) (covers_nil _)
    | cons b m =>
      have h1 : b.1 ≤ a.1 := hm.le_of_covers ((h _).mp hl.covers_head)
      have h2 : a.1 ≤ b.1 := hl.le_of_covers ((h _).mpr hm.covers_head)
      have hab : a = b := by
        rcases Nat.lt_trichotomy a.2 b.2 with hlt | heq | hlt
        · refine absurd ((h (a.1 + a.2)).mpr ?_) hl.not_covers_end
          simp only [covers_cons, Span.Has]
          omega
        · exact Prod.ext (by omega) heq
        · refine absurd ((h (b.1 + b.2)).mp ?_) hm.not_covers_end
          simp only [covers_cons, Span.Has]
          omega
      subst hab
      have htail : l = m := by
        refine ih (canon_cons.mp hl).2.2 (canon_cons.mp hm).2.2 (fun x => ?_)
        by_cases hx : x < a.1 + a.2
        · exact iff_of_false (hl.not_covers_le (by omega)) (hm.not_covers_le (by omega))
        · have := h x
          simp only [covers_cons, Span.Has] at this
          constructor
          · intro hc; exact (this.mp (Or.inr hc)).resolve_left (by omega)
          · intro hc; exact (this.mpr (Or.inr hc)).resolve_left (by omega)
      rw [htail]

/-! ## Gaps between sorted spans -/

/-- What lies between the spans of `used`, from `cursor` up to `hi`. -/
def gaps (hi : Nat) : Nat → List Span → List Span
  | cursor, [] => if cursor < hi then [(cursor, hi - cursor)] else []
  | cursor, e :: rest => (if cursor < e.1 then [(cursor, e.1 - cursor)] else []) ++ gaps hi (e.1 + e.2) rest

/-- Spans in order from `lo` to `hi`, none empty, none overlapping the next. -/
structure Packed (lo hi : Nat) (used : List Span) : Prop where
  inside : ∀ e ∈ used, lo ≤ e.1 ∧ e.1 + e.2 ≤ hi ∧ 0 < e.2
  ordered : used.Pairwise (fun a b => a.1 + a.2 ≤ b.1)

theorem Packed.tail {lo hi : Nat} {e : Span} {l : List Span} (h : Packed lo hi (e :: l)) :
    Packed (e.1 + e.2) hi l := by
  obtain ⟨ho, hl⟩ := List.pairwise_cons.mp h.ordered
  exact ⟨fun b hb => ⟨ho b hb, (h.inside b (by simp [hb])).2⟩, hl⟩

theorem gaps_inside {hi lo : Nat} {used : List Span} (h : Packed lo hi used) :
    ∀ g ∈ gaps hi lo used, lo ≤ g.1 ∧ g.1 + g.2 ≤ hi := by
  induction used generalizing lo with
  | nil =>
    intro g hg
    simp only [gaps] at hg
    split at hg
    · simp only [List.mem_singleton] at hg; subst hg; simp only; omega
    · simp at hg
  | cons e l ih =>
    intro g hg
    obtain ⟨h1, h2, h3⟩ := h.inside e (by simp)
    simp only [gaps, List.mem_append] at hg
    rcases hg with hg | hg
    · split at hg
      · simp only [List.mem_singleton] at hg; subst hg; simp only; omega
      · simp at hg
    · have := ih h.tail g hg
      omega

/-- A gap begins where the gaps begin, or where a span ends. -/
theorem gaps_start {hi lo : Nat} {used : List Span} {g : Span} (hg : g ∈ gaps hi lo used) :
    g.1 = lo ∨ ∃ e ∈ used, g.1 = e.1 + e.2 := by
  induction used generalizing lo with
  | nil =>
    simp only [gaps] at hg
    split at hg
    · rw [List.mem_singleton.mp hg]
      exact .inl rfl
    · cases hg
  | cons e l ih =>
    simp only [gaps, List.mem_append] at hg
    rcases hg with hg | hg
    · split at hg
      · rw [List.mem_singleton.mp hg]
        exact .inl rfl
      · cases hg
    · rcases ih hg with h | ⟨f, hf, h⟩
      · exact .inr ⟨e, List.mem_cons_self, h⟩
      · exact .inr ⟨f, List.mem_cons_of_mem e hf, h⟩

theorem gaps_canon {hi lo : Nat} {used : List Span} (h : Packed lo hi used) : Canon (gaps hi lo used) := by
  induction used generalizing lo with
  | nil =>
    simp only [gaps]
    split
    · simp only [canon_cons, canon_nil, List.not_mem_nil]; exact ⟨by omega, by simp, trivial⟩
    · exact canon_nil
  | cons e l ih =>
    obtain ⟨h1, h2, h3⟩ := h.inside e (by simp)
    simp only [gaps]
    rw [canon_append]
    refine ⟨?_, ih h.tail, ?_⟩
    · split
      · simp only [canon_cons, canon_nil, List.not_mem_nil]; exact ⟨by omega, by simp, trivial⟩
      · exact canon_nil
    · intro a ha b hb
      have hb := gaps_inside h.tail b hb
      split at ha
      · simp only [List.mem_singleton] at ha; subst ha; simp only; omega
      · simp at ha

/-- The gaps cover what the spans do not. -/
theorem covers_gaps {hi lo : Nat} {used : List Span} (h : Packed lo hi used) (x : Nat) :
    Covers (gaps hi lo used) x ↔ lo ≤ x ∧ x < hi ∧ ¬ Covers used x := by
  induction used generalizing lo with
  | nil =>
    simp only [gaps, covers_nil, not_false_eq_true, and_true]
    split
    · simp only [covers_cons, covers_nil, or_false, Span.Has]; omega
    · simp only [covers_nil, false_iff]; omega
  | cons e l ih =>
    obtain ⟨h1, h2, h3⟩ := h.inside e (by simp)
    have hl : ∀ {y}, Covers l y → e.1 + e.2 ≤ y := by
      rintro y ⟨b, hb, hby⟩
      have := (h.tail.inside b hb).1
      unfold Span.Has at hby
      omega
    simp only [gaps, covers_append, ih h.tail, covers_cons, not_or]
    have hfirst : Covers (if lo < e.1 then [(lo, e.1 - lo)] else []) x ↔ lo ≤ x ∧ x < e.1 := by
      split
      · simp only [covers_cons, covers_nil, or_false, Span.Has]; omega
      · simp only [covers_nil, false_iff]; omega
    rw [hfirst]
    unfold Span.Has
    constructor
    · rintro (⟨ha, hb⟩ | ⟨ha, hb, hc⟩)
      · exact ⟨ha, by omega, by omega, fun hc => by have := hl hc; omega⟩
      · exact ⟨by omega, hb, by omega, hc⟩
    · rintro ⟨ha, hb, hc, hd⟩
      by_cases hx : x < e.1
      · exact Or.inl ⟨ha, hx⟩
      · exact Or.inr ⟨by omega, hb, hd⟩

/-! ## Sizes -/

def total (l : List Span) : Nat := (l.map (·.2)).sum

@[simp] theorem total_nil : total [] = 0 := rfl

@[simp] theorem total_cons (e : Span) (l : List Span) : total (e :: l) = e.2 + total l := by simp [total]

@[simp] theorem total_append (l m : List Span) : total (l ++ m) = total l + total m := by simp [total]

theorem total_perm {l m : List Span} (h : l.Perm m) : total l = total m := (h.map _).sum_nat

/-- Spans without addresses count for nothing. -/
theorem total_filter_pos (l : List Span) : total (l.filter fun e => 0 < e.2) = total l := by
  induction l with
  | nil => rfl
  | cons e l ih =>
    rw [List.filter_cons, total_cons]
    by_cases h : 0 < e.2
    · simp only [h, decide_true, if_true, total_cons, ih]
    · simp only [h, decide_false, Bool.false_eq_true, if_false, ih]
      omega

theorem covers_filter_pos (l : List Span) (x : Nat) : Covers (l.filter fun e => 0 < e.2) x ↔ Covers l x := by
  induction l with
  | nil => rfl
  | cons e l ih =>
    rw [List.filter_cons, covers_cons]
    by_cases h : 0 < e.2
    · simp only [h, decide_true, if_true, covers_cons, ih]
    · have hnone : ¬ e.Has x := by
        unfold Span.Has
        omega
      simp only [h, decide_false, Bool.false_eq_true, if_false, ih, hnone, false_or]

/-- The spans and the gaps between them fill the range. -/
theorem total_gaps {hi lo : Nat} {used : List Span} (h : Packed lo hi used) (hle : lo ≤ hi) :
    total (gaps hi lo used) + total used = hi - lo := by
  induction used generalizing lo with
  | nil =>
    simp only [gaps]
    split
    · simp
    · simp only [total_nil]
      omega
  | cons e l ih =>
    obtain ⟨h1, h2, h3⟩ := h.inside e List.mem_cons_self
    have ih := ih h.tail h2
    simp only [gaps, total_append, total_cons]
    split
    · simp only [total_cons, total_nil]
      omega
    · simp only [total_nil]
      omega

theorem Packed.total_le {lo hi : Nat} {l : List Span} (h : Packed lo hi l) (hle : lo ≤ hi) : total l ≤ hi - lo := by
  have := total_gaps h hle
  omega

/-- Spans in order whose sizes add up to the range leave nothing out. -/
theorem Packed.covers_of_total {lo hi : Nat} {l : List Span} (h : Packed lo hi l) (htotal : total l = hi - lo) {x : Nat}
    (hlo : lo ≤ x) (hhi : x < hi) : Covers l x := by
  have hgaps := total_gaps h (by omega)
  have hnone : gaps hi lo l = [] := by
    refine List.eq_nil_iff_forall_not_mem.mpr fun g hg => ?_
    have hpos := (gaps_canon h).pos g hg
    obtain ⟨before, after, hsplit⟩ := List.append_of_mem hg
    rw [hsplit, total_append, total_cons] at hgaps
    omega
  by_contra hout
  have hgap := (covers_gaps h x).mpr ⟨hlo, hhi, hout⟩
  rw [hnone] at hgap
  exact covers_nil x hgap

end ObjStr.Lib
