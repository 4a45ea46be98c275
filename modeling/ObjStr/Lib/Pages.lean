/-
  ObjStr.Lib.Pages — a sorted list, read in pages.

  A page is the first few of what lies behind a cursor, and its last element is the cursor of the next. In a list that is
  strictly sorted nothing lies between two pages, so the pages are the list, cut into pieces (`flatten_pages`).

  A client that takes another element of the page as its cursor gets what lies behind that one once more, so its pages are the
  list exactly if it takes the last element of every page but the last (`walk_covers_iff`).

  Two sorted lists without a common element are read as one, by merging them (`mergeTake`): what is taken is the first few
  of the merged list (`merged_taken`), and its last element is the greater of the last ones taken (`getLast?_merged`).
-/

import Mathlib.Data.List.Sort

namespace ObjStr.Lib

section Pages

variable {α : Type}

/-- The `k`-th of the pieces of length `n` that a list is cut into. -/
def piece (n k : Nat) (l : List α) : List α := (l.drop (k * n)).take n

theorem piece_zero (n : Nat) (l : List α) : piece n 0 l = l.take n := by rw [piece, Nat.zero_mul, List.drop_zero]

theorem piece_drop (n k : Nat) (l : List α) : piece n k (l.drop n) = piece n (k + 1) l := by
  rw [piece, piece, List.drop_drop, Nat.succ_mul, Nat.add_comm]

variable [LinearOrder α]

/-! ## Cursors -/

def behind (cursor : Option α) (l : List α) : List α := l.filter fun x => cursor.all (· < x)

theorem behind_none (l : List α) : behind none l = l := List.filter_eq_self.mpr fun _ _ => rfl

theorem mem_behind {cursor : Option α} {l : List α} {x : α} : x ∈ behind cursor l ↔ x ∈ l ∧ ∀ c, cursor = some c → c < x := by
  unfold behind
  cases cursor <;> simp

theorem pairwise_behind {l : List α} (h : l.Pairwise (· < ·)) (cursor : Option α) : (behind cursor l).Pairwise (· < ·) :=
  h.sublist List.filter_sublist

/-- Behind an element lies what follows it. -/
theorem behind_mid {pre post : List α} {x : α} (h : (pre ++ x :: post).Pairwise (· < ·)) :
    behind (some x) (pre ++ x :: post) = post := by
  obtain ⟨-, hpost, hpre⟩ := List.pairwise_append.mp h
  have h1 : pre.filter (fun y => (some x).all (· < y)) = [] := by
    refine List.filter_eq_nil_iff.mpr fun y hy => ?_
    have := hpre y hy x (by simp)
    simpa using this.le
  have h2 : post.filter (fun y => (some x).all (· < y)) = post := by
    refine List.filter_eq_self.mpr fun y hy => ?_
    simpa using (List.pairwise_cons.mp hpost).1 y hy
  unfold behind
  rw [List.filter_append, List.filter_cons, h1, h2]
  simp

/-- A second cursor that lies behind the first takes its place. -/
theorem behind_behind {c d : α} (h : c < d) (l : List α) : behind (some d) (behind (some c) l) = behind (some d) l := by
  unfold behind
  rw [List.filter_filter]
  refine List.filter_congr fun x _ => ?_
  simp only [Option.all_some, Bool.and_eq_left_iff_imp, decide_eq_true_eq]
  exact fun hd => h.trans hd

/-! ## Pages -/

def page (n : Nat) (cursor : Option α) (l : List α) : List α := (behind cursor l).take n

/-- The pages from a cursor on: another one as long as more is left than fits. -/
def pages (n : Nat) (l : List α) : Nat → Option α → List (List α)
  | 0, _ => []
  | fuel + 1, cursor =>
    page n cursor l :: if n < (behind cursor l).length then pages n l fuel (page n cursor l).getLast? else []

/-- Behind the last element of a page lies what did not fit. -/
theorem behind_getLast_page {n : Nat} {l : List α} (h : l.Pairwise (· < ·)) (hn : 0 < n) {cursor : Option α}
    (hmore : n < (behind cursor l).length) : behind (page n cursor l).getLast? l = (behind cursor l).drop n := by
  have hsorted := pairwise_behind h cursor
  obtain ⟨init, last, hlast⟩ := List.eq_nil_or_concat (page n cursor l) |>.resolve_left fun hnil => by
    have := congrArg List.length hnil
    rw [page, List.length_take, List.length_nil] at this
    omega
  have hsplit : behind cursor l = init ++ last :: (behind cursor l).drop n := by
    conv_lhs => rw [← List.take_append_drop n (behind cursor l)]
    rw [show (behind cursor l).take n = _ from hlast]
    simp
  have hmem : last ∈ behind cursor l := by
    rw [hsplit]
    simp
  have hover : behind (some last) (behind cursor l) = behind (some last) l := by
    cases cursor with
    | none => rw [behind_none]
    | some c => exact behind_behind ((mem_behind.mp hmem).2 c rfl) l
  rw [hlast, List.concat_eq_append, List.getLast?_concat, ← hover]
  rw [hsplit] at hsorted
  conv_lhs => rw [hsplit]
  exact behind_mid hsorted

/-- The pages are the list, cut into pieces. -/
theorem flatten_pages {n : Nat} {l : List α} (h : l.Pairwise (· < ·)) (hn : 0 < n) (fuel : Nat) (cursor : Option α)
    (hfuel : (behind cursor l).length < fuel) : (pages n l fuel cursor).flatten = behind cursor l := by
  induction fuel generalizing cursor with
  | zero => omega
  | succ fuel ih =>
    rw [pages]
    split
    · next hmore =>
      have hrest := behind_getLast_page h hn hmore
      rw [List.flatten_cons, ih _ (by rw [hrest, List.length_drop]; omega), hrest]
      exact List.take_append_drop n _
    · next hmore =>
      rw [List.flatten_cons, List.flatten_nil, List.append_nil]
      exact List.take_of_length_le (by omega)

/-! ## Another cursor -/

/-- The pages of a client that takes as the next cursor what `next` makes of a page. -/
def walk (next : List α → Option α) (n : Nat) (l : List α) : Nat → Option α → Option (List (List α))
  | 0, _ => none
  | fuel + 1, cursor =>
    if n < (behind cursor l).length then (walk next n l fuel (next (page n cursor l))).map (page n cursor l :: ·)
    else some [page n cursor l]

variable {next : List α → Option α} {n : Nat} {l : List α}

/-- The first page of a walk. -/
theorem walk_head {fuel : Nat} {cursor : Option α} {ps : List (List α)} (h : walk next n l fuel cursor = some ps) :
    ∃ rest, ps = page n cursor l :: rest := by
  cases fuel with
  | zero => cases h
  | succ fuel =>
    unfold walk at h
    split at h
    · obtain ⟨rest, -, rfl⟩ := Option.map_eq_some_iff.mp h
      exact ⟨rest, rfl⟩
    · exact ⟨[], (Option.some.inj h).symm⟩

/-- Behind an element of a page that is not the last one, the next page has the last one again. -/
theorem last_mem_page {c m : α} {cursor : Option α} (h : l.Pairwise (· < ·)) (hc : c ∈ page n cursor l)
    (hlast : (page n cursor l).getLast? = some m) (hne : c ≠ m) : m ∈ page n (some c) l := by
  obtain ⟨init, post, hsplit⟩ := List.append_of_mem hc
  have hsorted := pairwise_behind h cursor
  have hall : behind cursor l = init ++ c :: (post ++ (behind cursor l).drop n) := by
    conv_lhs => rw [← List.take_append_drop n (behind cursor l)]
    rw [show (behind cursor l).take n = _ from hsplit]
    simp
  have hbehind : behind (some c) l = post ++ (behind cursor l).drop n := by
    have hcmem : c ∈ behind cursor l := List.mem_of_mem_take hc
    have hover : behind (some c) (behind cursor l) = behind (some c) l := by
      cases cursor with
      | none => rw [behind_none]
      | some d => exact behind_behind ((mem_behind.mp hcmem).2 d rfl) l
    rw [hall] at hsorted
    rw [← hover]
    conv_lhs => rw [hall]
    exact behind_mid hsorted
  have hlen : (init ++ c :: post).length ≤ n := by
    rw [← hsplit, page, List.length_take]
    omega
  rw [hsplit] at hlast
  have hpost : m ∈ post := by
    cases post with
    | nil =>
      rw [List.getLast?_concat] at hlast
      exact absurd (Option.some.inj hlast) hne
    | cons d post =>
      rw [List.getLast?_append, List.getLast?_cons_cons] at hlast
      rw [List.getLast?_eq_some_getLast (List.cons_ne_nil d post), Option.some_or] at hlast
      rw [← Option.some.inj hlast]
      exact List.getLast_mem _
  rw [page, hbehind, List.take_append]
  refine List.mem_append_left _ ?_
  rw [List.take_of_length_le]
  · exact hpost
  · rw [List.length_append, List.length_cons] at hlen
    omega

/-- A walk shows everything exactly once if and only if it goes on behind the last element of each page but the last. -/
theorem walk_covers_iff (h : l.Pairwise (· < ·)) (hn : 0 < n) (hnext : ∀ p, p ≠ [] → ∃ c ∈ p, next p = some c) (cursor : Option α) :
    (∃ fuel ps, walk next n l fuel cursor = some ps ∧ ps.flatten.Perm (behind cursor l)) ↔
      ∀ k, (k + 1) * n < (behind cursor l).length →
        next (piece n k (behind cursor l)) = (piece n k (behind cursor l)).getLast? := by
  constructor
  · intro hcovers
    obtain ⟨fuel, ps, hps, hperm⟩ := hcovers
    induction fuel generalizing cursor ps with
    | zero => cases hps
    | succ fuel ih =>
      intro k hk
      have hmore : n < (behind cursor l).length := by
        have hle : n ≤ (k + 1) * n := Nat.le_mul_of_pos_left n k.succ_pos
        omega
      unfold walk at hps
      rw [if_pos hmore] at hps
      obtain ⟨rest, hrest, rfl⟩ := Option.map_eq_some_iff.mp hps
      rw [List.flatten_cons] at hperm
      have hlast : next (page n cursor l) = (page n cursor l).getLast? := by
        have hne : page n cursor l ≠ [] := fun hnil => by
          have := congrArg List.length hnil
          rw [page, List.length_take, List.length_nil] at this
          omega
        obtain ⟨c, hc, hcnext⟩ := hnext _ hne
        rw [hcnext, List.getLast?_eq_some_getLast hne]
        congr 1
        by_contra hother
        -- the last element would be shown again
        rw [hcnext] at hrest
        obtain ⟨more, rfl⟩ := walk_head hrest
        have hagain := last_mem_page h hc (List.getLast?_eq_some_getLast hne) hother
        have hnodup := hperm.nodup_iff.mpr ((pairwise_behind h cursor).imp fun hlt => hlt.ne)
        exact List.disjoint_of_nodup_append hnodup (List.getLast_mem hne) (List.mem_append_left _ hagain)
      have hbehind := behind_getLast_page h hn hmore
      rw [hlast] at hrest
      cases k with
      | zero =>
        rw [piece_zero]
        exact hlast
      | succ k =>
        rw [← piece_drop, ← hbehind]
        refine ih _ rest hrest ?_ k ?_
        · rw [hbehind]
          refine (List.perm_append_left_iff (page n cursor l)).mp (hperm.trans ?_)
          rw [page, List.take_append_drop]
        · rw [hbehind, List.length_drop]
          have : (k + 1 + 1) * n = (k + 1) * n + n := Nat.succ_mul (k + 1) n
          omega
  · intro hlast
    generalize hfuel : (behind cursor l).length = len
    induction len using Nat.strong_induction_on generalizing cursor with
    | _ len ih =>
      by_cases hmore : n < (behind cursor l).length
      · have hbehind := behind_getLast_page h hn hmore
        have hfirst := hlast 0 (by omega)
        rw [piece_zero] at hfirst
        obtain ⟨fuel, ps, hps, hperm⟩ := ih (len - n) (by omega) (page n cursor l).getLast? (fun k hk => by
          rw [hbehind, piece_drop]
          refine hlast (k + 1) ?_
          rw [hbehind, List.length_drop] at hk
          have : (k + 1 + 1) * n = (k + 1) * n + n := Nat.succ_mul (k + 1) n
          omega) (by rw [hbehind, List.length_drop, hfuel])
        refine ⟨fuel + 1, page n cursor l :: ps, ?_, ?_⟩
        · unfold walk
          rw [if_pos hmore, show next (page n cursor l) = _ from hfirst]
          exact Option.map_eq_some_iff.mpr ⟨ps, hps, rfl⟩
        · rw [List.flatten_cons]
          refine (hperm.append_left _).trans ?_
          rw [hbehind, page, List.take_append_drop]
      · refine ⟨1, [page n cursor l], ?_, ?_⟩
        · unfold walk
          rw [if_neg hmore]
        · rw [List.flatten_cons, List.flatten_nil, List.append_nil, page, List.take_of_length_le (by omega)]

/-! ## Merging -/

variable {β : Type} (key : β → α)

/-- Merge two sorted lists until there are `n` elements: what is taken of each, and what is left of each. -/
def mergeTake : Nat → List β → List α → (List β × List α) × (List β × List α)
  | n + 1, x :: xs, y :: ys =>
    if key x < y then
      let r := mergeTake n xs (y :: ys)
      ((x :: r.1.1, r.1.2), r.2)
    else
      let r := mergeTake n (x :: xs) ys
      ((r.1.1, y :: r.1.2), r.2)
  | n + 1, x :: xs, [] =>
    let r := mergeTake n xs []
    ((x :: r.1.1, r.1.2), r.2)
  | n + 1, [], y :: ys =>
    let r := mergeTake n [] ys
    ((r.1.1, y :: r.1.2), r.2)
  | _, xs, ys => (([], []), (xs, ys))

def merged (xs : List β) (ys : List α) : List α := List.merge (xs.map key) ys fun a b => decide (a < b)

theorem merged_perm (xs : List β) (ys : List α) : (merged key xs ys).Perm (xs.map key ++ ys) := List.merge_perm_append _

theorem length_merged (xs : List β) (ys : List α) : (merged key xs ys).length = xs.length + ys.length := by
  rw [(merged_perm key xs ys).length_eq, List.length_append, List.length_map]

theorem mem_merged {xs : List β} {ys : List α} {a : α} : a ∈ merged key xs ys ↔ a ∈ xs.map key ∨ a ∈ ys := by
  rw [(merged_perm key xs ys).mem_iff, List.mem_append]

/-- Each list is taken from the front. -/
theorem mergeTake_append (n : Nat) (xs : List β) (ys : List α) :
    (mergeTake key n xs ys).1.1 ++ (mergeTake key n xs ys).2.1 = xs ∧
      (mergeTake key n xs ys).1.2 ++ (mergeTake key n xs ys).2.2 = ys := by
  fun_induction mergeTake key n xs ys with
  | case1 n x xs y ys hlt r ih => exact ⟨by rw [List.cons_append, ih.1], ih.2⟩
  | case2 n x xs y ys hlt r ih => exact ⟨ih.1, by rw [List.cons_append, ih.2]⟩
  | case3 n x xs r ih => exact ⟨by rw [List.cons_append, ih.1], ih.2⟩
  | case4 n y ys r ih => exact ⟨ih.1, by rw [List.cons_append, ih.2]⟩
  | case5 => exact ⟨rfl, rfl⟩

/-- What is taken is the front of the merged list. -/
theorem merged_taken (n : Nat) (xs : List β) (ys : List α) :
    merged key (mergeTake key n xs ys).1.1 (mergeTake key n xs ys).1.2 = (merged key xs ys).take n := by
  fun_induction mergeTake key n xs ys with
  | case1 n x xs y ys hlt r ih =>
    have hys : r.1.2 ++ r.2.2 = y :: ys := (mergeTake_append key n xs (y :: ys)).2
    have ih : merged key r.1.1 r.1.2 = (merged key xs (y :: ys)).take n := ih
    clear_value r
    have hmerge : merged key (x :: xs) (y :: ys) = key x :: merged key xs (y :: ys) := by
      simp [merged, hlt]
    rw [hmerge, List.take_succ_cons, ← ih]
    cases htaken : r.1.2 with
    | nil => simp [merged]
    | cons z zs =>
      -- what comes next of the other list is `y`
      have hz : z = y := by
        rw [htaken] at hys
        exact (List.cons.inj hys).1
      subst hz
      simp [merged, hlt]
  | case2 n x xs y ys hlt r ih =>
    have hxs : r.1.1 ++ r.2.1 = x :: xs := (mergeTake_append key n (x :: xs) ys).1
    have ih : merged key r.1.1 r.1.2 = (merged key (x :: xs) ys).take n := ih
    clear_value r
    have hmerge : merged key (x :: xs) (y :: ys) = y :: merged key (x :: xs) ys := by
      simp [merged, hlt]
    rw [hmerge, List.take_succ_cons, ← ih]
    cases htaken : r.1.1 with
    | nil => simp [merged]
    | cons z zs =>
      have hz : z = x := by
        rw [htaken] at hxs
        exact (List.cons.inj hxs).1
      subst hz
      simp [merged, hlt]
  | case3 n x xs r ih =>
    have hys : r.1.2 ++ r.2.2 = [] := (mergeTake_append key n xs []).2
    have ih : merged key r.1.1 r.1.2 = (merged key xs []).take n := ih
    clear_value r
    have hnil : r.1.2 = [] := (List.append_eq_nil_iff.mp hys).1
    have hmerge : merged key (x :: xs) [] = key x :: merged key xs [] := by simp [merged]
    rw [hmerge, List.take_succ_cons, ← ih, hnil]
    simp [merged]
  | case4 n y ys r ih =>
    have hxs : r.1.1 ++ r.2.1 = [] := (mergeTake_append key n [] ys).1
    have ih : merged key r.1.1 r.1.2 = (merged key [] ys).take n := ih
    clear_value r
    have hnil : r.1.1 = [] := (List.append_eq_nil_iff.mp hxs).1
    have hmerge : merged key ([] : List β) (y :: ys) = y :: merged key [] ys := by simp [merged]
    rw [hmerge, List.take_succ_cons, ← ih, hnil]
    simp [merged]
  | case5 n xs ys h1 h2 h3 =>
    cases n with
    | zero => simp [merged]
    | succ n =>
      cases xs with
      | nil =>
        cases ys with
        | nil => simp [merged]
        | cons y ys => exact absurd rfl (h3 n y ys rfl rfl)
      | cons x xs =>
        cases ys with
        | nil => exact absurd rfl (h2 n x xs rfl rfl)
        | cons y ys => exact absurd rfl (h1 n x xs y ys rfl rfl)

theorem length_taken (n : Nat) (xs : List β) (ys : List α) :
    (mergeTake key n xs ys).1.1.length + (mergeTake key n xs ys).1.2.length = min n (xs.length + ys.length) := by
  rw [← length_merged key, merged_taken, List.length_take, length_merged]

/-- Something is left if there is more than was asked for. -/
theorem rest_ne_nil_iff (n : Nat) (xs : List β) (ys : List α) :
    (mergeTake key n xs ys).2.1 ≠ [] ∨ (mergeTake key n xs ys).2.2 ≠ [] ↔ n < xs.length + ys.length := by
  have htaken := length_taken key n xs ys
  obtain ⟨hxs, hys⟩ := mergeTake_append key n xs ys
  have hxs := congrArg List.length hxs
  have hys := congrArg List.length hys
  rw [List.length_append] at hxs hys
  rw [← List.length_pos_iff, ← List.length_pos_iff]
  omega

/-- Lists without a common element are merged into a sorted one. -/
theorem pairwise_merged {xs : List β} {ys : List α} (hxs : (xs.map key).Pairwise (· < ·)) (hys : ys.Pairwise (· < ·))
    (hne : ∀ x ∈ xs, key x ∉ ys) : (merged key xs ys).Pairwise (· < ·) := by
  induction xs generalizing ys with
  | nil => simpa [merged] using hys
  | cons x xs ih =>
    obtain ⟨hx, hxs⟩ := List.pairwise_cons.mp hxs
    induction ys with
    | nil =>
      have hnil : merged key (x :: xs) [] = key x :: xs.map key := by simp [merged]
      rw [hnil]
      exact List.pairwise_cons.mpr ⟨hx, hxs⟩
    | cons y ys ihy =>
      obtain ⟨hy, hys'⟩ := List.pairwise_cons.mp hys
      by_cases hlt : key x < y
      · have hcons : merged key (x :: xs) (y :: ys) = key x :: merged key xs (y :: ys) := by simp [merged, hlt]
        rw [hcons]
        refine List.pairwise_cons.mpr ⟨fun a ha => ?_, ih hxs hys fun x' hx' => hne x' (List.mem_cons_of_mem x hx')⟩
        rcases (mem_merged key).mp ha with ha | ha
        · exact hx a ha
        · rcases List.mem_cons.mp ha with rfl | ha
          · exact hlt
          · exact hlt.trans (hy a ha)
      · have hcons : merged key (x :: xs) (y :: ys) = y :: merged key (x :: xs) ys := by simp [merged, hlt]
        have hyx : y < key x := lt_of_le_of_ne (not_lt.mp hlt) fun he => hne x (by simp) (by simp [he])
        rw [hcons]
        refine List.pairwise_cons.mpr ⟨fun a ha => ?_, ihy hys' fun x' hx' hm => hne x' hx' (List.mem_cons_of_mem y hm)⟩
        rcases (mem_merged key).mp ha with ha | ha
        · rcases List.mem_cons.mp ha with rfl | ha
          · exact hyx
          · exact hyx.trans (hx a ha)
        · exact hy a ha

def greaterLast (xs : List β) (ys : List α) : Option α :=
  match xs.getLast?, ys.getLast? with
  | some x, some y => some (if y < key x then key x else y)
  | some x, none => some (key x)
  | none, some y => some y
  | none, none => none

theorem getLast?_of_greatest {l : List α} (h : l.Pairwise (· < ·)) {m : α} (hm : m ∈ l) (hmax : ∀ x ∈ l, x ≤ m) :
    l.getLast? = some m := by
  obtain ⟨pre, post, rfl⟩ := List.append_of_mem hm
  cases post with
  | nil => simp
  | cons y post =>
    obtain ⟨-, hpost, -⟩ := List.pairwise_append.mp h
    exact absurd (hmax y (by simp)) (not_le.mpr ((List.pairwise_cons.mp hpost).1 y (by simp)))

theorem le_last {l : List α} (h : l.Pairwise (· < ·)) {m : α} (hm : l.getLast? = some m) : m ∈ l ∧ ∀ x ∈ l, x ≤ m := by
  obtain ⟨pre, rfl⟩ := List.getLast?_eq_some_iff.mp hm
  refine ⟨by simp, fun x hx => ?_⟩
  rcases List.mem_append.mp hx with hx | hx
  · exact ((List.pairwise_append.mp h).2.2 x hx m (by simp)).le
  · exact (List.mem_singleton.mp hx).le

/-- The last element of the merged list is the greater of the two last ones. -/
theorem getLast?_merged {xs : List β} {ys : List α} (hxs : (xs.map key).Pairwise (· < ·)) (hys : ys.Pairwise (· < ·))
    (h : (merged key xs ys).Pairwise (· < ·)) : (merged key xs ys).getLast? = greaterLast key xs ys := by
  have hlast : (xs.map key).getLast? = xs.getLast?.map key := List.getLast?_map
  unfold greaterLast
  cases hx : xs.getLast? with
  | none =>
    rw [List.getLast?_eq_none_iff] at hx
    subst hx
    simp only [merged, List.map_nil, List.nil_merge]
    cases ys.getLast? <;> rfl
  | some x =>
    obtain ⟨hxm, hxmax⟩ := le_last hxs (m := key x) (by rw [hlast, hx]; rfl)
    cases hy : ys.getLast? with
    | none =>
      rw [List.getLast?_eq_none_iff] at hy
      subst hy
      simp only [merged, List.merge_right]
      rw [hlast, hx]
      rfl
    | some y =>
      obtain ⟨hym, hymax⟩ := le_last hys hy
      dsimp only
      refine getLast?_of_greatest h ?_ fun a ha => ?_
      · rw [mem_merged]
        split
        · exact .inl hxm
        · exact .inr hym
      · rw [mem_merged] at ha
        rcases ha with ha | ha
        · have hle := hxmax a ha
          split
          · exact hle
          · next hn => exact hle.trans (not_lt.mp hn)
        · have hle := hymax a ha
          split
          · next hlt => exact hle.trans hlt.le
          · exact hle

end Pages

end ObjStr.Lib
