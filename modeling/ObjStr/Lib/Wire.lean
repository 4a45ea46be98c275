/-
  ObjStr.Lib.Wire — fixed-width little-endian encodings.

  A `Wire α` writes a value in a fixed number of bytes and reads it back off the front of
  any input, leaving the rest (`take_put`). Integers are little-endian; `pair`, `iso` and
  `table` build records and fixed-length arrays. `patch` overwrites a few bytes of a buffer.
-/

import Mathlib.Algebra.Ring.Nat
import Mathlib.Data.List.Basic
import Mathlib.Data.List.OfFn
import Mathlib.Tactic.Common
import ObjStr.Lib.Disk

namespace ObjStr.Lib

/-! ## Little-endian integers -/

/-- The low `w` bytes of `n`, lowest first. -/
def leBytes : Nat → Nat → Bytes
  | 0, _ => []
  | w + 1, n => UInt8.ofNat (n % 256) :: leBytes w (n / 256)

def leNat : Bytes → Nat
  | [] => 0
  | b :: l => b.toNat + 256 * leNat l

@[simp] theorem length_leBytes (w n : Nat) : (leBytes w n).length = w := by
  induction w generalizing n with
  | zero => rfl
  | succ w ih => simp [leBytes, ih]

theorem leNat_leBytes (w n : Nat) (h : n < 256 ^ w) : leNat (leBytes w n) = n := by
  induction w generalizing n with
  | zero => simp at h; simp [leBytes, leNat, h]
  | succ w ih =>
    have hq : n / 256 < 256 ^ w := by
      rw [Nat.pow_succ] at h
      exact Nat.div_lt_of_lt_mul (by rw [Nat.mul_comm]; exact h)
    simp only [leBytes, leNat, ih _ hq]
    have : (UInt8.ofNat (n % 256)).toNat = n % 256 := UInt8.toNat_ofNat_of_lt' (Nat.mod_lt _ (by decide))
    rw [this]
    omega

/-! ## Codecs -/

structure Wire (α : Type) where
  /-- The number of bytes of every encoding. -/
  width : Nat
  put : α → Bytes
  take : Bytes → Option (α × Bytes)
  length_put : ∀ a, (put a).length = width
  take_put : ∀ a rest, take (put a ++ rest) = some (a, rest)

namespace Wire

/-- Unsigned integers of `w` bytes, through their value. -/
def uint (w : Nat) {α : Type} (toNat : α → Nat) (ofNat : Nat → α) (hlt : ∀ a, toNat a < 256 ^ w)
    (hof : ∀ a, ofNat (toNat a) = a) : Wire α where
  width := w
  put a := leBytes w (toNat a)
  take b := if w ≤ b.length then some (ofNat (leNat (b.take w)), b.drop w) else none
  length_put a := length_leBytes w _
  take_put a rest := by
    simp only [List.length_append, length_leBytes, Nat.le_add_right, if_true]
    rw [List.take_left' (length_leBytes w _), List.drop_left' (length_leBytes w _), leNat_leBytes _ _ (hlt a), hof]

def u8 : Wire UInt8 := uint 1 UInt8.toNat UInt8.ofNat (fun a => a.toNat_lt) (fun a => by simp)
def u32 : Wire UInt32 := uint 4 UInt32.toNat UInt32.ofNat (fun a => a.toNat_lt) (fun a => by simp)
def u64 : Wire UInt64 := uint 8 UInt64.toNat UInt64.ofNat (fun a => a.toNat_lt) (fun a => by simp)

def pair {α β : Type} (p : Wire α) (q : Wire β) : Wire (α × β) where
  width := p.width + q.width
  put x := p.put x.1 ++ q.put x.2
  take b := (p.take b).bind fun x => (q.take x.2).map fun y => ((x.1, y.1), y.2)
  length_put x := by simp [p.length_put, q.length_put]
  take_put x rest := by simp [p.take_put, q.take_put]

def iso {α β : Type} (p : Wire α) (f : α → β) (g : β → α) (hfg : ∀ b, f (g b) = b) : Wire β where
  width := p.width
  put b := p.put (g b)
  take b := (p.take b).map fun x => (f x.1, x.2)
  length_put b := p.length_put _
  take_put b rest := by simp [p.take_put, hfg]

def takeN {α : Type} (p : Wire α) : (n : Nat) → Bytes → Option ((Fin n → α) × Bytes)
  | 0, b => some (Fin.elim0, b)
  | n + 1, b => (p.take b).bind fun x => (takeN p n x.2).map fun y => (Fin.cons x.1 y.1, y.2)

theorem takeN_put {α : Type} (p : Wire α) (n : Nat) (f : Fin n → α) (rest : Bytes) :
    takeN p n ((List.ofFn f).flatMap p.put ++ rest) = some (f, rest) := by
  induction n with
  | zero => simp only [takeN, List.ofFn_zero, List.flatMap_nil, List.nil_append]; congr 2; funext i; exact i.elim0
  | succ n ih =>
    simp only [takeN, List.ofFn_succ, List.flatMap_cons, List.append_assoc, p.take_put, Option.bind_some, ih,
      Option.map_some]
    congr 2
    exact Fin.cons_self_tail f

def table {α : Type} (p : Wire α) (n : Nat) : Wire (Fin n → α) where
  width := n * p.width
  put f := (List.ofFn f).flatMap p.put
  take b := takeN p n b
  length_put f := by
    rw [List.length_flatMap, List.map_congr_left (fun a _ => p.length_put a), List.map_const', List.length_ofFn,
      List.sum_replicate_nat]
  take_put f rest := takeN_put p n f rest

/-! ### Reading exactly the width -/

/-- A read leaves what stands after its width, whatever the input is. -/
def Exact {α : Type} (p : Wire α) : Prop := ∀ b a rest, p.take b = some (a, rest) → rest = b.drop p.width

theorem exact_uint (w : Nat) {α : Type} (toNat : α → Nat) (ofNat : Nat → α) (hlt : ∀ a, toNat a < 256 ^ w)
    (hof : ∀ a, ofNat (toNat a) = a) : (uint w toNat ofNat hlt hof).Exact := by
  intro b a rest h
  simp only [uint] at h ⊢
  by_cases hw : w ≤ b.length
  · rw [if_pos hw] at h
    simp only [Option.some.injEq, Prod.mk.injEq] at h
    exact h.2.symm
  · rw [if_neg hw] at h
    simp at h

theorem Exact.pair {α β : Type} {p : Wire α} {q : Wire β} (hp : p.Exact) (hq : q.Exact) : (p.pair q).Exact := by
  intro b x rest h
  simp only [Wire.pair, Option.bind_eq_some_iff, Option.map_eq_some_iff] at h
  obtain ⟨y, hy, z, hz, he⟩ := h
  simp only [Prod.mk.injEq] at he
  have h1 : y.2 = b.drop p.width := hp b y.1 y.2 hy
  have h2 : z.2 = y.2.drop q.width := hq y.2 z.1 z.2 hz
  rw [← he.2, h2, h1, List.drop_drop]
  rfl

theorem Exact.iso {α β : Type} {p : Wire α} (hp : p.Exact) (f : α → β) (g : β → α) (hfg : ∀ b, f (g b) = b) :
    (p.iso f g hfg).Exact := by
  intro b x rest h
  simp only [Wire.iso, Option.map_eq_some_iff] at h
  obtain ⟨y, hy, he⟩ := h
  simp only [Prod.mk.injEq] at he
  rw [← he.2]
  exact hp b y.1 y.2 hy

theorem Exact.table {α : Type} {p : Wire α} (hp : p.Exact) (n : Nat) : (p.table n).Exact := by
  have main : ∀ (n : Nat) (b : Bytes) f rest, p.takeN n b = some (f, rest) → rest = b.drop (n * p.width) := by
    intro n
    induction n with
    | zero =>
      intro b f rest h
      simp only [takeN, Option.some.injEq, Prod.mk.injEq] at h
      simp [h.2]
    | succ n ih =>
      intro b f rest h
      simp only [takeN, Option.bind_eq_some_iff, Option.map_eq_some_iff] at h
      obtain ⟨y, hy, z, hz, he⟩ := h
      simp only [Prod.mk.injEq] at he
      have h1 : y.2 = b.drop p.width := hp b y.1 y.2 hy
      have h2 : z.2 = y.2.drop (n * p.width) := ih y.2 z.1 z.2 hz
      rw [← he.2, h2, h1, List.drop_drop, Nat.succ_mul, Nat.add_comm]
  intro b f rest h
  exact main n b f rest h

end Wire

/-! ## Patching a buffer -/

/-- `buf` with `data` written over it from `off` on. -/
def patch (buf : Bytes) (off : Nat) (data : Bytes) : Bytes := buf.take off ++ data ++ buf.drop (off + data.length)

theorem patch_append (pre mid post data : Bytes) (h : mid.length = data.length) :
    patch (pre ++ mid ++ post) pre.length data = pre ++ data ++ post := by
  have h1 : (pre ++ mid ++ post).take pre.length = pre := by rw [List.append_assoc, List.take_left]
  have h2 : (pre ++ mid ++ post).drop (pre.length + data.length) = post := by
    rw [← h, ← List.length_append, List.drop_left]
  rw [patch, h1, h2]

end ObjStr.Lib
