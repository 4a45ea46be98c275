/-
  ObjStr.Lib.Walk — walking a tree whose nodes say what their children are.

  `visits kids n q` is what a walk from `q` comes to in `n` rounds, parents first. If every child is one
  level below the node that names it, and that node is the one above it (`IsTree`), then nothing is visited
  twice (`IsTree.nodup_visits`), and nothing is collected twice if no two nodes hold the same
  (`IsTree.nodup_collected`).
-/

import Mathlib.Data.List.Nodup
import Mathlib.Data.List.Pairwise
import Mathlib.Logic.Function.Iterate

namespace ObjStr.Lib

variable {α β : Type}

/-- The nodes of the first `n` levels from `q` on. -/
def visits (kids : α → List α) : (n : Nat) → α → List α
  | 0, _ => []
  | n + 1, q => q :: (kids q).flatMap (visits kids n)

variable {kids : α → List α} {q d e : α} {m n : Nat}

theorem mem_visits_succ : d ∈ visits kids (n + 1) q ↔ d = q ∨ ∃ c ∈ kids q, d ∈ visits kids n c := by
  rw [visits, List.mem_cons, List.mem_flatMap]

theorem visits_mono (h : m ≤ n) (hd : d ∈ visits kids m q) : d ∈ visits kids n q := by
  induction m generalizing q n with
  | zero => cases hd
  | succ m ih =>
    obtain ⟨n, rfl⟩ : ∃ k, n = k + 1 := ⟨n - 1, by omega⟩
    rw [mem_visits_succ] at hd ⊢
    exact hd.imp_right fun ⟨c, hc, hd⟩ => ⟨c, hc, ih (by omega) hd⟩

theorem self_mem_visits (n : Nat) (q : α) : q ∈ visits kids (n + 1) q := List.mem_cons_self

/-- The children of what is visited are visited one round later. -/
theorem mem_visits_of_kid (hd : d ∈ visits kids n q) (he : e ∈ kids d) : e ∈ visits kids (n + 1) q := by
  induction n generalizing q with
  | zero => cases hd
  | succ n ih =>
    rw [mem_visits_succ] at hd ⊢
    rcases hd with rfl | ⟨c, hc, hd⟩
    · exact .inr ⟨e, he, self_mem_visits n e⟩
    · exact .inr ⟨c, hc, ih hd⟩

/-- What holds of the root and is handed down holds of all that is visited. -/
theorem visits_induction {P : α → Prop} (hq : P q) (hkids : ∀ d, P d → ∀ e ∈ kids d, P e) : ∀ d ∈ visits kids n q, P d := by
  induction n generalizing q with
  | zero => exact fun d hd => nomatch hd
  | succ n ih =>
    intro d hd
    rw [mem_visits_succ] at hd
    rcases hd with rfl | ⟨c, hc, hd⟩
    · exact hq
    · exact ih (hkids q hq c hc) d hd

/-- A tree: its nodes have different children, each on the level below and with the node above it as its own. -/
structure IsTree (kids : α → List α) (node : α → Prop) (up : α → α) (level : α → Nat) : Prop where
  nodup : ∀ q, node q → (kids q).Nodup
  kid : ∀ q, node q → ∀ d ∈ kids q, node d ∧ up d = q ∧ level d = level q + 1

namespace IsTree

variable {node : α → Prop} {up : α → α} {level : α → Nat}

/-- What is visited from a node lies as many steps below it as its level says. -/
theorem above (h : IsTree kids node up level) (hq : node q) :
    ∀ d ∈ visits kids n q, level q ≤ level d ∧ (up^[level d - level q]) d = q := by
  induction n generalizing q with
  | zero => exact fun d hd => nomatch hd
  | succ n ih =>
    intro d hd
    rw [mem_visits_succ] at hd
    rcases hd with rfl | ⟨c, hc, hd⟩
    · simp
    · obtain ⟨hnode, hup, hlevel⟩ := h.kid q hq c hc
      obtain ⟨hle, habove⟩ := ih hnode d hd
      have hsteps : level d - level q = (level d - level c) + 1 := by omega
      exact ⟨by omega, by rw [hsteps, Function.iterate_succ_apply', habove, hup]⟩

/-- Nothing is visited twice. -/
theorem nodup_visits (h : IsTree kids node up level) (n : Nat) (hq : node q) : (visits kids n q).Nodup := by
  induction n generalizing q with
  | zero => exact List.nodup_nil
  | succ n ih =>
    rw [visits, List.nodup_cons, List.nodup_flatMap]
    refine ⟨fun hmem => ?_, fun c hc => ih (h.kid q hq c hc).1, ?_⟩
    · obtain ⟨c, hc, hd⟩ := List.mem_flatMap.mp hmem
      obtain ⟨hnode, -, hlevel⟩ := h.kid q hq c hc
      have := (h.above hnode q hd).1
      omega
    · refine (h.nodup q hq).imp_of_mem fun {c c'} hc hc' hne => ?_
      refine List.disjoint_left.mpr ?_
      intro d hd hd'
      obtain ⟨hnode, -, hlevel⟩ := h.kid q hq c hc
      obtain ⟨hnode', -, hlevel'⟩ := h.kid q hq c' hc'
      have h1 := (h.above hnode d hd).2
      have h2 := (h.above hnode' d hd').2
      rw [hlevel] at h1
      rw [hlevel', h1] at h2
      exact hne h2

/-- Nothing is collected twice if no node holds a thing twice and no two nodes hold the same. -/
theorem nodup_collected (h : IsTree kids node up level) (n : Nat) (hq : node q) {f : α → List β} (hf : ∀ d, node d → (f d).Nodup)
    (hown : ∀ d e x, node d → node e → x ∈ f d → x ∈ f e → d = e) : ((visits kids n q).flatMap f).Nodup := by
  have hnodes : ∀ d ∈ visits kids n q, node d := visits_induction hq fun d hd e he => (h.kid d hd e he).1
  rw [List.nodup_flatMap]
  refine ⟨fun d hd => hf d (hnodes d hd), (h.nodup_visits n hq).imp_of_mem fun {d e} hd he hne => ?_⟩
  refine List.disjoint_left.mpr ?_
  exact fun x hx hx' => hne (hown d e x (hnodes d hd) (hnodes e he) hx hx')

end IsTree

/-- What is collected without duplicates is held by one node. -/
theorem eq_of_nodup_collected {f : α → List β} {l : List α} (h : (l.flatMap f).Nodup) {x : β} (hd : d ∈ l) (he : e ∈ l)
    (hx : x ∈ f d) (hx' : x ∈ f e) : d = e := by
  by_contra hne
  have : Std.Symm (Function.onFun List.Disjoint f) := ⟨fun _ _ h _ hx hx' => h hx' hx⟩
  exact (List.nodup_flatMap.mp h).2.forall hd he hne hx hx'

end ObjStr.Lib
