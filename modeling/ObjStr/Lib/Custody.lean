/-
  ObjStr.Lib.Custody — things that are held, and their owners.

  What is held has one owner each, or has been lost (`Custody`). A thing that is taken gets an owner, things change owners, an
  owner gives things up and some of them are removed; what is given up and not removed is lost, and stays so. So the owners
  account for what is held exactly as long as nothing has been lost (`Custody.accounted_iff`).
-/

import Mathlib.Data.List.Nodup
import Mathlib.Data.List.Perm.Basic

namespace ObjStr.Lib

variable {α : Type} {owned owned' lost held : List α}

/-- Each thing that is held is owned by one, or lost. -/
structure Custody (owned lost held : List α) : Prop where
  perm : held.Perm (owned ++ lost)
  nodup : held.Nodup

namespace Custody

theorem nil : Custody ([] : List α) [] [] := ⟨.nil, List.nodup_nil⟩

theorem trade (h : Custody owned lost held) (howned : owned.Perm owned') : Custody owned' lost held :=
  ⟨h.perm.trans (howned.append_right lost), h.nodup⟩

theorem take {x : α} (h : Custody owned lost held) (hx : x ∉ held) (howned : owned'.Perm (x :: owned)) :
    Custody owned' lost (x :: held) := by
  refine ⟨(h.perm.cons x).trans ?_, List.nodup_cons.mpr ⟨hx, h.nodup⟩⟩
  exact (howned.append_right lost).symm

theorem lose {x : α} (h : Custody owned lost held) (howned : owned.Perm (x :: owned')) : Custody owned' (x :: lost) held := by
  refine ⟨h.perm.trans ((howned.append_right lost).trans ?_), h.nodup⟩
  exact List.perm_middle.symm

/-- What is given up is removed or lost. -/
theorem give [DecidableEq α] {given : List α} (removed : α → Bool) (h : Custody owned lost held)
    (howned : owned.Perm (given ++ owned')) :
    Custody owned' (given.filter (fun x => !removed x) ++ lost) (held.filter fun x => !(decide (x ∈ given) && removed x)) := by
  have hheld : held.Perm (given ++ (owned' ++ lost)) := by
    refine h.perm.trans ((howned.append_right lost).trans ?_)
    rw [List.append_assoc]
  have hnodup : (given ++ (owned' ++ lost)).Nodup := hheld.nodup h.nodup
  obtain ⟨-, -, hdisj⟩ := List.nodup_append.mp hnodup
  have hgiven : given.filter (fun x => !(decide (x ∈ given) && removed x)) = given.filter fun x => !removed x :=
    List.filter_congr fun x hx => by simp [hx]
  have hrest : (owned' ++ lost).filter (fun x => !(decide (x ∈ given) && removed x)) = owned' ++ lost := by
    refine List.filter_eq_self.mpr fun x hx => ?_
    have hx' : x ∉ given := fun hg => hdisj x hg x hx rfl
    simp [hx']
  refine ⟨(hheld.filter _).trans ?_, h.nodup.filter _⟩
  rw [List.filter_append, hgiven, hrest, ← List.append_assoc, ← List.append_assoc]
  exact List.perm_append_comm.append_right lost

/-- The owners account for what is held as long as nothing has been lost. -/
theorem accounted_iff (h : Custody owned lost held) : (∀ x, x ∈ held ↔ x ∈ owned) ↔ lost = [] := by
  constructor
  · intro hacc
    by_contra hlost
    obtain ⟨x, hx⟩ := List.exists_mem_of_ne_nil lost hlost
    obtain ⟨-, -, hdisj⟩ := List.nodup_append.mp (h.perm.nodup h.nodup)
    have hheld : x ∈ held := h.perm.mem_iff.mpr (List.mem_append_right _ hx)
    exact hdisj x ((hacc x).mp hheld) x hx rfl
  · intro hlost x
    rw [h.perm.mem_iff, hlost, List.append_nil]

end Custody

end ObjStr.Lib
