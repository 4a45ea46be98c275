/-
  ObjStr.Raw.Allocator — the first-fit extent allocator with coalescing (`allocator.rs`) and
  `rebuild_free_list` (`store.rs`).

  The free list is a vector of `(offset, size)` pairs edited by index, as in the source.

  Proved:
    - `alloc_spec`: an allocation takes its span out of the free addresses, keeps the list
      canonical, and is block-aligned when the list is;
    - `free_spec`: freeing a span that overlaps no free one adds it to the free addresses and
      keeps the list canonical (both merges together restore "no two touch");
    - `rebuildFreeList_eq`: a canonical free list whose addresses are those of the data area
      that no extent has is the list `rebuild_free_list` computes.
-/

import Mathlib.Data.List.Sort
import ObjStr.Raw.Basic

namespace ObjStr.Raw

open ObjStr.Lib

structure ExtentAllocator where
  /-- Sorted by offset: `(offset, size)`. -/
  freeList : List Span
  alignment : Nat
  deriving DecidableEq, Repr

/-- `slice::sort_by_key` on the offset (stable). -/
def sortByOffset (l : List Span) : List Span := l.insertionSort fun a b => a.1 ≤ b.1

namespace ExtentAllocator

def new (dataStart dataEnd alignment : Nat) : ExtentAllocator where
  freeList := if dataEnd > dataStart then [(dataStart, dataEnd - dataStart)] else []
  alignment := alignment

/-- Restore from a free list: sorted, without empty entries, clamped to the data area. -/
def fromFreeList (freeList : List Span) (dataStart dataEnd : Nat) : ExtentAllocator where
  freeList := ((sortByOffset freeList).filter fun e => 0 < e.2).filter
    fun e => dataStart ≤ e.1 && satAdd e.1 e.2 ≤ dataEnd
  alignment := blockAlignment

/-- First fit; the remainder of the entry goes back into the list. -/
def alloc (a : ExtentAllocator) (needed : Nat) : Except RawStoreError (Nat × ExtentAllocator) :=
  let needed := alignUp needed a.alignment
  match a.freeList.findIdx? (fun e => needed ≤ e.2) with
  | some idx =>
    let e := a.freeList.getD idx (0, 0)
    let remaining := e.2 - needed
    if 0 < remaining then .ok (e.1, { a with freeList := a.freeList.set idx (e.1 + needed, remaining) })
    else .ok (e.1, { a with freeList := a.freeList.eraseIdx idx })
  | none => .error (.noSpace needed ((a.freeList.map (·.2)).foldl max 0))

def mergeAt (l : List Span) (i : Nat) : List Span :=
  match l[i]?, l[i + 1]? with
  | some e, some f => if satAdd e.1 e.2 = f.1 then (l.set i (e.1, e.2 + f.2)).eraseIdx (i + 1) else l
  | _, _ => l

def free (a : ExtentAllocator) (offset paddedSize : Nat) : ExtentAllocator :=
  let insertPos := a.freeList.findIdx fun e => ¬ e.1 < offset
  let l := mergeAt (a.freeList.insertIdx insertPos (offset, paddedSize)) insertPos
  { a with freeList := if 0 < insertPos then mergeAt l (insertPos - 1) else l }

end ExtentAllocator

/-- The used extents inside `[dataStart, dataEnd)`, sorted, and the complement of them. -/
def rebuildFreeList (files : FMap ExtentInfo) (dataEnd : Nat) : List Span × List Span :=
  let used := sortByOffset ((files.values.filter fun e =>
    dataStart ≤ e.offset && 0 < e.paddedSize && satAdd e.offset e.paddedSize ≤ dataEnd).map fun e => (e.offset, e.paddedSize))
  (used, gaps dataEnd dataStart used)

/-! ## Allocation -/

namespace ExtentAllocator

/-- The free list is canonical, starts at block boundaries and stays inside `[lo, hi)`. -/
structure Tidy (a : ExtentAllocator) (lo hi : Nat) : Prop where
  alignment_eq : a.alignment = blockAlignment
  canon : Canon a.freeList
  aligned : ∀ e ∈ a.freeList, e.1 % blockAlignment = 0
  inside : ∀ e ∈ a.freeList, lo ≤ e.1 ∧ e.1 + e.2 ≤ hi

theorem alignUp_of_aligned {n : Nat} (h : n % blockAlignment = 0) : alignUp n blockAlignment = n := by
  unfold alignUp blockAlignment at *
  omega

/-- Where the first fit is, and what is left of it. -/
theorem alloc_split {a a' : ExtentAllocator} {n off : Nat} (h : a.alloc n = .ok (off, a')) :
    ∃ pre size post, a.freeList = pre ++ (off, size) :: post ∧ alignUp n a.alignment ≤ size ∧
      a' = { a with freeList := pre ++ ((if 0 < size - alignUp n a.alignment then
        [(off + alignUp n a.alignment, size - alignUp n a.alignment)] else []) ++ post) } := by
  simp only [alloc] at h
  generalize alignUp n a.alignment = needed at h ⊢
  split at h
  · next idx hidx =>
    obtain ⟨hlt, hp, -⟩ := List.findIdx?_eq_some_iff_getElem.mp hidx
    have hget : a.freeList.getD idx (0, 0) = a.freeList[idx] := by simp [List.getD_eq_getElem?_getD, hlt]
    have hsplit : a.freeList = a.freeList.take idx ++ a.freeList[idx] :: a.freeList.drop (idx + 1) := by
      rw [List.getElem_cons_drop, List.take_append_drop]
    have hlen : (a.freeList.take idx).length = idx := by simp; omega
    simp only [hget] at h
    refine ⟨a.freeList.take idx, (a.freeList[idx]).2, a.freeList.drop (idx + 1), ?_, by simpa using hp, ?_⟩
    · split at h <;> (simp only [Except.ok.injEq, Prod.mk.injEq] at h; rw [← h.1]; exact hsplit)
    · split at h
      · next hr =>
        simp only [Except.ok.injEq, Prod.mk.injEq] at h
        obtain ⟨rfl, rfl⟩ := h
        rw [if_pos hr, List.set_eq_take_append_cons_drop, if_pos hlt]
        rfl
      · next hr =>
        simp only [Except.ok.injEq, Prod.mk.injEq] at h
        obtain ⟨rfl, rfl⟩ := h
        rw [if_neg hr, List.eraseIdx_eq_take_drop_succ]
        rfl
  · simp at h

/-- An allocation takes its span out of the free addresses. -/
theorem alloc_spec {a a' : ExtentAllocator} {lo hi n off : Nat} (ht : a.Tidy lo hi) (hn : n % blockAlignment = 0)
    (h : a.alloc n = .ok (off, a')) :
    a'.Tidy lo hi ∧ off % blockAlignment = 0 ∧ lo ≤ off ∧ off + n ≤ hi ∧ (∀ x, Span.Has (off, n) x → Covers a.freeList x) ∧
      ∀ x, Covers a'.freeList x ↔ Covers a.freeList x ∧ ¬ Span.Has (off, n) x := by
  obtain ⟨pre, size, post, hl, hsz, rfl⟩ := alloc_split h
  obtain ⟨hal, hc, hb, hin⟩ := ht
  rw [hal, alignUp_of_aligned hn] at hsz ⊢
  rw [hl] at hc hb hin
  obtain ⟨hc1, hc2, hc3⟩ := canon_append.mp hc
  obtain ⟨hpos, hpost, hcp⟩ := canon_cons.mp hc2
  have hba := hb (off, size) (by simp)
  have hi' := hin (off, size) (by simp)
  simp only at hba hi' hpos hpost
  have hrest : Canon ((if 0 < size - n then [(off + n, size - n)] else []) ++ post) := by
    rw [canon_append]
    split
    · refine ⟨canon_cons.mpr ⟨by simp only; omega, by simp, canon_nil⟩, hcp, ?_⟩
      intro x hx b hb'
      simp only [List.mem_singleton] at hx
      subst hx
      have := hpost b hb'
      simp only; omega
    · exact ⟨canon_nil, hcp, by simp⟩
  have hmem : ∀ {e}, e ∈ (if 0 < size - n then [(off + n, size - n)] else []) → e = (off + n, size - n) := by
    intro e he
    split at he
    · simpa using he
    · simp at he
  have hcov : ∀ x, Covers (if 0 < size - n then [(off + n, size - n)] else []) x ↔
      Span.Has (off, size) x ∧ ¬ Span.Has (off, n) x := by
    intro x
    split
    · simp only [covers_cons, covers_nil, or_false, Span.Has]; omega
    · simp only [covers_nil, false_iff, Span.Has]; omega
  have hpre : ∀ x, Covers pre x → ¬ Span.Has (off, n) x := by
    rintro x ⟨b, hb', hbx⟩ hx
    have := hc3 b hb' (off, size) (by simp)
    simp only [Span.Has] at *; omega
  have hpo : ∀ x, Covers post x → ¬ Span.Has (off, n) x := by
    rintro x ⟨b, hb', hbx⟩ hx
    have := hpost b hb'
    simp only [Span.Has] at *; omega
  refine ⟨⟨rfl, ?_, ?_, ?_⟩, hba, hi'.1, by omega, ?_, ?_⟩
  · rw [canon_append]
    refine ⟨hc1, hrest, ?_⟩
    intro e he b hb'
    rcases List.mem_append.mp hb' with hb' | hb'
    · have := hc3 e he (off, size) (by simp)
      rw [hmem hb']
      simp only at *; omega
    · exact hc3 e he b (by simp [hb'])
  · intro e he
    rcases List.mem_append.mp he with he | he
    · exact hb e (by simp [he])
    · rcases List.mem_append.mp he with he | he
      · rw [hmem he]
        simp only [blockAlignment] at *
        omega
      · exact hb e (by simp [he])
  · intro e he
    rcases List.mem_append.mp he with he | he
    · exact hin e (by simp [he])
    · rcases List.mem_append.mp he with he | he
      · rw [hmem he]
        simp only; omega
      · exact hin e (by simp [he])
  · intro x hx
    rw [hl, covers_append, covers_cons]
    exact Or.inr (Or.inl (by simp only [Span.Has] at *; omega))
  · intro x
    simp only [hl, covers_append, covers_cons, hcov]
    constructor
    · rintro (h | ⟨h, h'⟩ | h)
      · exact ⟨Or.inl h, hpre x h⟩
      · exact ⟨Or.inr (Or.inl h), h'⟩
      · exact ⟨Or.inr (Or.inr h), hpo x h⟩
    · rintro ⟨h | h | h, h'⟩
      · exact Or.inl h
      · exact Or.inr (Or.inl ⟨h, h'⟩)
      · exact Or.inr (Or.inr h)

/-! ## Freeing -/

theorem mergeAt_append (pre post : List Span) (e : Span) :
    mergeAt (pre ++ e :: post) pre.length = pre ++ mergeAt (e :: post) 0 := by
  unfold mergeAt
  have h0 : (pre ++ e :: post)[pre.length]? = some e := by simp
  have h1 : (pre ++ e :: post)[pre.length + 1]? = (e :: post)[0 + 1]? := by
    rw [List.getElem?_append_right (by omega)]; simp
  rw [h0, h1]
  cases post with
  | nil => simp
  | cons f post =>
    simp only [List.getElem?_cons_zero, List.getElem?_cons_succ, Nat.zero_add]
    split
    · rw [List.set_append_right _ _ (Nat.le_refl _), List.eraseIdx_append_of_length_le (by simp)]
      simp
    · rfl

theorem mergeAt_zero_cons (e f : Span) (post : List Span) (h : e.1 + e.2 ≤ u64Max) :
    mergeAt (e :: f :: post) 0 = if e.1 + e.2 = f.1 then (e.1, e.2 + f.2) :: post else e :: f :: post := by
  unfold mergeAt
  simp only [List.getElem?_cons_zero, List.getElem?_cons_succ, Nat.zero_add, satAdd, Nat.min_eq_left h]
  split <;> simp

theorem insertIdx_append (pre post : List Span) (e : Span) :
    (pre ++ post).insertIdx pre.length e = pre ++ e :: post := by
  induction pre with
  | nil => simp
  | cons x pre ih => simp [List.insertIdx_succ_cons, ih]

/-- What merging does to a list in order whose first two spans may touch. -/
theorem mergeAt_spec {e : Span} {post : List Span} (he : 0 < e.2) (hmax : e.1 + e.2 ≤ u64Max) (hc : Canon post)
    (hlt : ∀ f ∈ post, e.1 + e.2 ≤ f.1) :
    ∃ size rest, mergeAt (e :: post) 0 = (e.1, size) :: rest ∧ e.2 ≤ size ∧ Canon ((e.1, size) :: rest) ∧
      (∀ x, Covers ((e.1, size) :: rest) x ↔ e.Has x ∨ Covers post x) ∧ (∀ f ∈ rest, f ∈ post) ∧
      (size = e.2 ∨ ∃ f ∈ post, e.1 + e.2 = f.1 ∧ size = e.2 + f.2) := by
  cases post with
  | nil =>
    refine ⟨e.2, [], by simp [mergeAt], Nat.le_refl _, canon_cons.mpr ⟨he, by simp, canon_nil⟩, by simp, by simp, Or.inl rfl⟩
  | cons f post =>
    obtain ⟨hf, hfl, hcp⟩ := canon_cons.mp hc
    rw [mergeAt_zero_cons e f post hmax]
    split
    · next heq =>
      refine ⟨e.2 + f.2, post, rfl, by omega, canon_cons.mpr ⟨by simp only; omega, ?_, hcp⟩, ?_, ?_, Or.inr ⟨f, by simp, heq, rfl⟩⟩
      · intro b hb
        have := hfl b hb
        simp only; omega
      · intro x
        simp only [covers_cons, Span.Has]
        constructor
        · rintro (h | h)
          · by_cases hx : x < e.1 + e.2
            · exact Or.inl ⟨h.1, hx⟩
            · exact Or.inr (Or.inl (by omega))
          · exact Or.inr (Or.inr h)
        · rintro (h | h | h)
          · exact Or.inl (by omega)
          · exact Or.inl (by omega)
          · exact Or.inr h
      · intro g hg
        simp [hg]
    · next hne =>
      refine ⟨e.2, f :: post, rfl, Nat.le_refl _, canon_cons.mpr ⟨he, ?_, hc⟩, by simp, by simp, Or.inl rfl⟩
      intro b hb
      have h1 := hlt f (by simp)
      rcases List.mem_cons.mp hb with rfl | hb
      · simp only; omega
      · have := hfl b hb
        simp only; omega

/-- The free list split where `free` inserts. -/
theorem findIdx_split (l : List Span) (off : Nat) (hs : l.Pairwise fun a b => a.1 + a.2 < b.1) :
    ∃ pre post, l = pre ++ post ∧ l.findIdx (fun e => ¬ e.1 < off) = pre.length ∧ (∀ e ∈ pre, e.1 < off) ∧
      ∀ e ∈ post, off ≤ e.1 := by
  induction l with
  | nil => exact ⟨[], [], rfl, rfl, by simp, by simp⟩
  | cons a l ih =>
    obtain ⟨ha, hl⟩ := List.pairwise_cons.mp hs
    by_cases h : a.1 < off
    · obtain ⟨pre, post, h1, h2, h3, h4⟩ := ih hl
      refine ⟨a :: pre, post, by simp [h1], ?_, ?_, h4⟩
      · simp only [List.findIdx_cons, h, not_true_eq_false, decide_false, cond_false, h2, List.length_cons]
      · intro e he
        rcases List.mem_cons.mp he with rfl | he
        · exact h
        · exact h3 e he
    · refine ⟨[], a :: l, rfl, by simp only [List.findIdx_cons, h, not_false_eq_true, decide_true, cond_true, List.length_nil],
        by simp, ?_⟩
      intro e he
      rcases List.mem_cons.mp he with rfl | he
      · omega
      · have := ha e he
        omega

/-- The list `free` builds, around the point of insertion. -/
theorem freeList_free (a : ExtentAllocator) (sz : Nat) {pre post : List Span} {off : Nat} (hl : a.freeList = pre ++ post)
    (hpos : a.freeList.findIdx (fun e => ¬ e.1 < off) = pre.length) :
    (a.free off sz).freeList = if 0 < pre.length then mergeAt (pre ++ mergeAt ((off, sz) :: post) 0) (pre.length - 1)
      else mergeAt ((off, sz) :: post) 0 := by
  simp only [free]
  rw [hpos, hl, insertIdx_append, mergeAt_append]
  split
  · rfl
  · next h =>
    have : pre = [] := List.eq_nil_of_length_eq_zero (by omega)
    subst this
    rfl

/-- Freeing a span that overlaps no free one adds it to the free addresses. -/
theorem free_spec {a : ExtentAllocator} {lo hi off sz : Nat} (ht : a.Tidy lo hi) (hmax : hi ≤ u64Max)
    (hoff : off % blockAlignment = 0) (hpos : 0 < sz) (hlo : lo ≤ off) (hhi : off + sz ≤ hi)
    (hno : ∀ x, Span.Has (off, sz) x → ¬ Covers a.freeList x) :
    (a.free off sz).Tidy lo hi ∧
      ∀ x, Covers (a.free off sz).freeList x ↔ Covers a.freeList x ∨ Span.Has (off, sz) x := by
  obtain ⟨hal, hc, hb, hin⟩ := ht
  obtain ⟨pre, post, hl, hidx, hpre, hpost⟩ := findIdx_split a.freeList off hc.sep
  have hfl := freeList_free a sz hl hidx
  rw [hl] at hc hb hin hno
  obtain ⟨hcpre, hcpost, hsep⟩ := canon_append.mp hc
  have hap : ∀ f ∈ pre ++ post, Span.Apart (off, sz) f := apart_of_not_covers hpos hc.pos hno
  have hnext : ∀ f ∈ post, off + sz ≤ f.1 := by
    intro f hf
    have h1 := hpost f hf
    have h2 := hc.pos f (by simp [hf])
    have := hap f (by simp [hf])
    unfold Span.Apart at this
    simp only at this; omega
  have hprev : ∀ f ∈ pre, f.1 + f.2 ≤ off := by
    intro f hf
    have h1 := hpre f hf
    have := hap f (by simp [hf])
    unfold Span.Apart at this
    simp only at this; omega
  obtain ⟨size, rest, hm, hle, hcm, hcov, hsub, hsize⟩ :=
    mergeAt_spec (e := (off, sz)) hpos (by simp only; omega) hcpost hnext
  simp only at hm hle hcm hcov hsize
  have hsize' : off + size ≤ hi := by
    rcases hsize with rfl | ⟨f, hf, h1, rfl⟩
    · exact hhi
    · have h3 := hin f (by simp [hf])
      omega
  rw [hm] at hfl
  have key : ∀ l, l = (a.free off sz).freeList → Canon l → (∀ e ∈ l, e.1 % blockAlignment = 0 ∧
      lo ≤ e.1 ∧ e.1 + e.2 ≤ hi) → (∀ x, Covers l x ↔ Covers (pre ++ post) x ∨ Span.Has (off, sz) x) →
      (a.free off sz).Tidy lo hi ∧ ∀ x, Covers (a.free off sz).freeList x ↔ Covers a.freeList x ∨ Span.Has (off, sz) x := by
    rintro l rfl h1 h2 h3
    exact ⟨⟨hal, h1, fun e he => (h2 e he).1, fun e he => (h2 e he).2⟩, by rw [hl]; exact h3⟩
  have hrest : ∀ e ∈ (off, size) :: rest, e.1 % blockAlignment = 0 ∧ lo ≤ e.1 ∧ e.1 + e.2 ≤ hi := by
    intro e he
    rcases List.mem_cons.mp he with rfl | he
    · exact ⟨hoff, hlo, hsize'⟩
    · exact ⟨hb e (by simp [hsub e he]), hin e (by simp [hsub e he])⟩
  rcases List.eq_nil_or_concat pre with rfl | ⟨init, p, rfl⟩
  · refine key _ (by simpa using hfl.symm) hcm hrest ?_
    intro x
    rw [hcov x, List.nil_append]
    exact or_comm
  · rw [List.concat_eq_append] at *
    obtain ⟨hcinit, hcp, hsepi⟩ := canon_append.mp hcpre
    have hp1 := hprev p (by simp)
    have hpp := hcpre.pos p (by simp)
    have hpin := hin p (by simp)
    have hpb := hb p (by simp)
    obtain ⟨size', rest', hm', hle', hcm', hcov', hsub', hsize''⟩ :=
      mergeAt_spec (e := p) hpp (by omega) hcm (by
        intro f hf
        rcases List.mem_cons.mp hf with rfl | hf
        · exact hp1
        · have := hnext f (hsub f hf)
          omega)
    rw [if_pos (by simp), show (init ++ [p]).length - 1 = init.length by simp,
      List.append_assoc, List.singleton_append, mergeAt_append, hm'] at hfl
    have hsz' : p.1 + size' ≤ hi := by
      rcases hsize'' with rfl | ⟨f, hf, h1, rfl⟩
      · exact hpin.2
      · obtain ⟨-, -, h4⟩ := hrest f hf
        omega
    refine key _ hfl.symm ?_ ?_ ?_
    · rw [canon_append]
      refine ⟨hcinit, hcm', ?_⟩
      intro e he b hb'
      have h1 := hsepi e he p (by simp)
      rcases List.mem_cons.mp hb' with rfl | hb'
      · exact h1
      · have h2 := (canon_cons.mp hcm').2.1 b hb'
        simp only at h2
        omega
    · intro e he
      rcases List.mem_append.mp he with he | he
      · exact ⟨hb e (by simp [he]), hin e (by simp [he])⟩
      · rcases List.mem_cons.mp he with rfl | he
        · exact ⟨hpb, hpin.1, hsz'⟩
        · exact hrest e (hsub' e he)
    · intro x
      rw [covers_append, hcov' x, hcov x]
      simp only [covers_append, covers_cons, covers_nil, or_false]
      grind

end ExtentAllocator

/-! ## The rebuilt free list -/

def ExtentInfo.span (e : ExtentInfo) : Span := (e.offset, e.paddedSize)

/-- Spans that are apart, sorted, are packed. -/
theorem packed_sortByOffset {lo hi : Nat} {l : List Span} (hin : ∀ e ∈ l, lo ≤ e.1 ∧ e.1 + e.2 ≤ hi ∧ 0 < e.2)
    (hap : l.Pairwise Span.Apart) : Packed lo hi (sortByOffset l) := by
  have hperm : (sortByOffset l).Perm l := List.perm_insertionSort _ _
  have hs : (sortByOffset l).Pairwise (fun a b => a.1 ≤ b.1) :=
    List.pairwise_insertionSort _ _
  have hap' : (sortByOffset l).Pairwise Span.Apart := (hperm.pairwise_iff (fun h => Span.Apart.symm h)).mpr hap
  have hin' : ∀ e ∈ sortByOffset l, lo ≤ e.1 ∧ e.1 + e.2 ≤ hi ∧ 0 < e.2 := fun e he => hin e (hperm.mem_iff.mp he)
  refine ⟨hin', ?_⟩
  refine List.Pairwise.imp_of_mem ?_ (hs.and hap')
  rintro a b ha hb ⟨h1, h2⟩
  have := (hin' a ha).2.2
  have := (hin' b hb).2.2
  unfold Span.Apart at h2
  omega

/-- The extents of the index are block-aligned, inside the data area and pairwise apart. -/
structure ExtentsOk (spans : List Span) (dataEnd : Nat) : Prop where
  aligned : ∀ e ∈ spans, e.1 % blockAlignment = 0 ∧ e.2 % blockAlignment = 0
  inside : ∀ e ∈ spans, dataStart ≤ e.1 ∧ e.1 + e.2 ≤ dataEnd ∧ 0 < e.2
  apart : spans.Pairwise Span.Apart

theorem covers_perm {l m : List Span} (h : l.Perm m) (x : Nat) : Covers l x ↔ Covers m x := by
  unfold Covers
  simp only [h.mem_iff]

/-- Extents inside the data area that are apart: the rebuilt free list is what lies between those that are not empty. -/
theorem rebuildFreeList_gaps {files : FMap ExtentInfo} {dataEnd : Nat}
    (hin : ∀ e ∈ files.values.map ExtentInfo.span, dataStart ≤ e.1 ∧ e.1 + e.2 ≤ dataEnd)
    (hap : (files.values.map ExtentInfo.span).Pairwise Span.Apart) :
    ∃ used, Packed dataStart dataEnd used ∧ used.Perm ((files.values.map ExtentInfo.span).filter fun e => 0 < e.2) ∧
      (rebuildFreeList files dataEnd).2 = gaps dataEnd dataStart used := by
  have hall : (files.values.filter fun e =>
      dataStart ≤ e.offset && 0 < e.paddedSize && satAdd e.offset e.paddedSize ≤ dataEnd).map ExtentInfo.span =
        (files.values.map ExtentInfo.span).filter fun e => 0 < e.2 := by
    rw [List.filter_map]
    congr 1
    refine List.filter_congr fun e he => ?_
    obtain ⟨h1, h2⟩ := hin e.span (List.mem_map_of_mem he)
    have h3 : satAdd e.offset e.paddedSize ≤ dataEnd := Nat.le_trans (Nat.min_le_left _ _) h2
    have h1' : dataStart ≤ e.offset := h1
    simp only [h1', h3, decide_true, Bool.true_and, Bool.and_true]
    rfl
  refine ⟨sortByOffset ((files.values.map ExtentInfo.span).filter fun e => 0 < e.2), packed_sortByOffset ?_ (hap.filter _),
    List.perm_insertionSort _ _, ?_⟩
  · intro e he
    obtain ⟨hmem, hpos⟩ := List.mem_filter.mp he
    exact ⟨(hin e hmem).1, (hin e hmem).2, of_decide_eq_true hpos⟩
  · rw [← hall]
    rfl

/-- The free list is then the complement of the extents. -/
theorem covers_rebuildFreeList {files : FMap ExtentInfo} {dataEnd : Nat}
    (hin : ∀ e ∈ files.values.map ExtentInfo.span, dataStart ≤ e.1 ∧ e.1 + e.2 ≤ dataEnd)
    (hap : (files.values.map ExtentInfo.span).Pairwise Span.Apart) (x : Nat) :
    Covers (rebuildFreeList files dataEnd).2 x ↔
      dataStart ≤ x ∧ x < dataEnd ∧ ¬ Covers (files.values.map ExtentInfo.span) x := by
  obtain ⟨used, hpacked, hperm, hlist⟩ := rebuildFreeList_gaps hin hap
  rw [hlist, covers_gaps hpacked x, covers_perm hperm, covers_filter_pos]

/-- A canonical list of the addresses no extent has is the rebuilt free list. -/
theorem rebuildFreeList_eq {files : FMap ExtentInfo} {dataEnd : Nat} {free : List Span}
    (hok : ExtentsOk (files.values.map ExtentInfo.span) dataEnd) (hc : Canon free)
    (hcov : ∀ x, Covers free x ↔ dataStart ≤ x ∧ x < dataEnd ∧ ¬ Covers (files.values.map ExtentInfo.span) x) :
    (rebuildFreeList files dataEnd).2 = free := by
  have hin : ∀ e ∈ files.values.map ExtentInfo.span, dataStart ≤ e.1 ∧ e.1 + e.2 ≤ dataEnd :=
    fun e he => ⟨(hok.inside e he).1, (hok.inside e he).2.1⟩
  obtain ⟨used, hpacked, -, hlist⟩ := rebuildFreeList_gaps hin hok.apart
  refine Canon.ext (hlist ▸ gaps_canon hpacked) hc fun x => ?_
  rw [covers_rebuildFreeList hin hok.apart, hcov x]

end ObjStr.Raw
