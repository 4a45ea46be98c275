/-
  ObjStr.Lib.Batch — the steps that the keys of a batch take, against a list of one step a key.

  `stepsOf` lists the steps of each key in turn; a plan that foresees the first step of each
  key is `stepsOf` of `take 1`. Over one batch the two agree when no key takes a second step
  (`firsts_perm_iff`). Over two batches that share the keys with a step they agree under the
  same condition, and if a key with a step in the first is also in the second
  (`firsts_perm_steps_iff`). What a batch cuts off a filtered list only moves forward when the
  filter gets weaker (`mem_take_filter`).
-/

import Mathlib.Data.List.Perm.Basic
import Mathlib.Data.List.Nodup

namespace ObjStr.Lib

variable {κ α : Type} {keys keys' : List κ} {f : κ → List α}

def stepsOf (keys : List κ) (f : κ → List α) : List (κ × α) := keys.flatMap fun k => (f k).map fun a => (k, a)

theorem mem_stepsOf {k : κ} {a : α} : (k, a) ∈ stepsOf keys f ↔ k ∈ keys ∧ a ∈ f k := by
  simp [stepsOf]

theorem stepsOf_congr {g : κ → List α} (h : ∀ k ∈ keys, f k = g k) : stepsOf keys f = stepsOf keys g := by
  unfold stepsOf
  rw [List.flatMap_def, List.flatMap_def, List.map_congr_left fun k hk => by rw [h k hk]]

/-- A key without a step adds nothing. -/
theorem stepsOf_filter (keys : List κ) (f : κ → List α) :
    stepsOf (keys.filter fun k => !(f k).isEmpty) f = stepsOf keys f := by
  induction keys with
  | nil => rfl
  | cons k keys ih =>
    have hcons : ∀ l, stepsOf (k :: l) f = (f k).map (fun a => (k, a)) ++ stepsOf l f := fun _ => rfl
    rw [List.filter_cons]
    split
    · rw [hcons, hcons, ih]
    · next h =>
      have hnil : f k = [] := by simpa using h
      rw [hcons, ih, hnil]
      rfl

/-- The first step of each key is all, when no key takes a second. -/
theorem firsts_perm_iff : (stepsOf keys fun k => (f k).take 1).Perm (stepsOf keys f) ↔ ∀ k ∈ keys, (f k).length ≤ 1 := by
  constructor
  · intro h
    -- as many steps in all, and no key has more in the first list
    have hlen := h.length_eq
    clear h
    have hle : ∀ l : List κ, (stepsOf l fun k => (f k).take 1).length ≤ (stepsOf l f).length := by
      intro l
      induction l with
      | nil => exact Nat.le_refl _
      | cons k l ih =>
        simp only [stepsOf, List.flatMap_cons, List.length_append, List.length_map, List.length_take] at ih ⊢
        omega
    induction keys with
    | nil => simp
    | cons k keys ih =>
      have hk := hle keys
      simp only [stepsOf, List.flatMap_cons, List.length_append, List.length_map, List.length_take] at hlen hk ih
      intro k' hk'
      rcases List.mem_cons.mp hk' with rfl | hk'
      · omega
      · exact ih (by omega) k' hk'
  · intro h
    rw [stepsOf_congr fun k hk => List.take_of_length_le (h k hk)]

/-- The same over two batches, when the second has no key with a step that the first has not. -/
theorem firsts_perm_steps_iff (hnd : keys.Nodup) (hnd' : keys'.Nodup) (hsub : ∀ k ∈ keys', f k ≠ [] → k ∈ keys) :
    (stepsOf keys fun k => (f k).take 1).Perm (stepsOf keys' f) ↔
      (∀ k ∈ keys, f k ≠ [] → k ∈ keys') ∧ ∀ k ∈ keys, (f k).length ≤ 1 := by
  have hsame : (∀ k ∈ keys, f k ≠ [] → k ∈ keys') → (stepsOf keys f).Perm (stepsOf keys' f) := by
    intro h
    rw [← stepsOf_filter keys f, ← stepsOf_filter keys' f]
    refine List.Perm.flatMap_right _ ((List.perm_ext_iff_of_nodup (hnd.filter _) (hnd'.filter _)).mpr fun k => ?_)
    simp only [List.mem_filter, Bool.not_eq_true', List.isEmpty_eq_false_iff]
    exact ⟨fun hk => ⟨h k hk.1 hk.2, hk.2⟩, fun hk => ⟨hsub k hk.1 hk.2, hk.2⟩⟩
  constructor
  · intro h
    have hin : ∀ k ∈ keys, f k ≠ [] → k ∈ keys' := by
      intro k hk hne
      obtain ⟨a, l, hf⟩ := List.exists_cons_of_ne_nil hne
      have hmem : (k, a) ∈ stepsOf keys fun k => (f k).take 1 := mem_stepsOf.mpr ⟨hk, by simp [hf]⟩
      exact (mem_stepsOf.mp (h.subset hmem)).1
    exact ⟨hin, firsts_perm_iff.mp (h.trans (hsame hin).symm)⟩
  · intro ⟨hin, hle⟩
    exact (firsts_perm_iff.mpr hle).trans (hsame hin)

/-- The keys without a step, where the batches share the others. -/
theorem countP_isEmpty_eq_iff (hnd : keys.Nodup) (hnd' : keys'.Nodup) (hsub : ∀ k ∈ keys', f k ≠ [] → k ∈ keys)
    (hin : ∀ k ∈ keys, f k ≠ [] → k ∈ keys') :
    (keys.countP fun k => (f k).isEmpty) = (keys'.countP fun k => (f k).isEmpty) ↔ keys'.length = keys.length := by
  have hperm : (keys.filter fun k => !(f k).isEmpty).Perm (keys'.filter fun k => !(f k).isEmpty) := by
    refine (List.perm_ext_iff_of_nodup (hnd.filter _) (hnd'.filter _)).mpr fun k => ?_
    simp only [List.mem_filter, Bool.not_eq_true', List.isEmpty_eq_false_iff]
    exact ⟨fun hk => ⟨hin k hk.1 hk.2, hk.2⟩, fun hk => ⟨hsub k hk.1 hk.2, hk.2⟩⟩
  have hcount : ∀ l : List κ, l.length = (l.countP fun k => (f k).isEmpty) + (l.filter fun k => !(f k).isEmpty).length := by
    intro l
    rw [List.countP_eq_length_filter]
    exact List.length_eq_length_filter_add _
  have h1 := hcount keys
  have h2 := hcount keys'
  have h3 := hperm.length_eq
  omega

/-- A weaker filter puts others before it: what is still in the batch was in it. -/
theorem mem_take_filter {p q : κ → Bool} (h : ∀ k, p k = true → q k = true) {l : List κ} {n : Nat} {k : κ}
    (hk : k ∈ (l.filter q).take n) (hp : p k = true) : k ∈ (l.filter p).take n := by
  induction l generalizing n with
  | nil => simp at hk
  | cons x l ih =>
    cases n with
    | zero => simp at hk
    | succ n =>
      by_cases hq : q x = true
      · rw [List.filter_cons_of_pos hq, List.take_succ_cons] at hk
        rcases List.mem_cons.mp hk with rfl | hk
        · rw [List.filter_cons_of_pos hp, List.take_succ_cons]
          exact List.mem_cons_self
        · by_cases hpx : p x = true
          · rw [List.filter_cons_of_pos hpx, List.take_succ_cons]
            exact List.mem_cons_of_mem _ (ih hk)
          · rw [List.filter_cons_of_neg hpx]
            exact List.take_subset_take_left _ (Nat.le_succ n) (ih hk)
      · have hpx : ¬ p x = true := fun hpx => hq (h x hpx)
        rw [List.filter_cons_of_neg hq] at hk
        rw [List.filter_cons_of_neg hpx]
        exact ih hk

end ObjStr.Lib
