/-
  ObjStr.Lib.Bincode — encodings of variable length, as `bincode` 1 writes them: integers of a fixed width, little-endian;
  a string, a sequence or a map as the `u64` number of its items and the items; a record as its fields.

  A `Coder` encodes the values that satisfy `ok`, and reads such a value back off the front of any input (`take_put`). A time
  is the string of its RFC 3339 text.
-/

import ObjStr.Lib.Rfc3339
import ObjStr.Lib.Wire

namespace ObjStr.Lib

structure Coder (α : Type) where
  ok : α → Bool
  put : α → Bytes
  take : Bytes → Option (α × Bytes)
  take_put : ∀ a rest, ok a = true → take (put a ++ rest) = some (a, rest)

namespace Coder

variable {α β : Type}

/-- Unsigned integers of `w` bytes. -/
def uint (w : Nat) : Coder Nat where
  ok n := n < 256 ^ w
  put n := leBytes w n
  take b := if w ≤ b.length then some (leNat (b.take w), b.drop w) else none
  take_put n rest h := by
    have hlt : n < 256 ^ w := by simpa using h
    rw [if_pos (by simp), List.take_left' (length_leBytes w n), List.drop_left' (length_leBytes w n), leNat_leBytes w n hlt]

def ofWire (w : Wire α) : Coder α := ⟨fun _ => true, w.put, w.take, fun a rest _ => w.take_put a rest⟩

def pair (p : Coder α) (q : Coder β) : Coder (α × β) where
  ok x := p.ok x.1 && q.ok x.2
  put x := p.put x.1 ++ q.put x.2
  take b := (p.take b).bind fun x => (q.take x.2).map fun y => ((x.1, y.1), y.2)
  take_put x rest h := by
    obtain ⟨hp, hq⟩ := Bool.and_eq_true_iff.mp h
    simp [p.take_put _ _ hp, q.take_put _ _ hq]

def iso (p : Coder α) (f : α → β) (g : β → α) (hfg : ∀ b, f (g b) = b) : Coder β where
  ok b := p.ok (g b)
  put b := p.put (g b)
  take b := (p.take b).map fun x => (f x.1, x.2)
  take_put b rest h := by simp [p.take_put _ _ h, hfg]

def takeMany (p : Coder α) : (n : Nat) → Bytes → Option (List α × Bytes)
  | 0, b => some ([], b)
  | n + 1, b => (p.take b).bind fun x => (takeMany p n x.2).map fun y => (x.1 :: y.1, y.2)

theorem takeMany_put (p : Coder α) (l : List α) (rest : Bytes) (h : l.all p.ok = true) :
    takeMany p l.length (l.flatMap p.put ++ rest) = some (l, rest) := by
  induction l with
  | nil => rfl
  | cons a l ih =>
    obtain ⟨ha, hl⟩ := Bool.and_eq_true_iff.mp h
    simp [takeMany, p.take_put a _ ha, ih hl]

/-- The most items that a collection has: `isize::MAX` bytes. -/
def maxItems : Nat := 9223372036854775807

def list (p : Coder α) : Coder (List α) where
  ok l := decide (l.length ≤ maxItems) && l.all p.ok
  put l := leBytes 8 l.length ++ l.flatMap p.put
  take b := ((uint 8).take b).bind fun x => takeMany p x.1 x.2
  take_put l rest h := by
    obtain ⟨hlen, hall⟩ := Bool.and_eq_true_iff.mp h
    have hmax : l.length ≤ maxItems := by simpa using hlen
    have hfit : (uint 8).ok l.length = true := by
      unfold maxItems at hmax
      show decide (l.length < 256 ^ 8) = true
      exact decide_eq_true (by omega)
    rw [List.append_assoc, show leBytes 8 l.length = (uint 8).put l.length from rfl, (uint 8).take_put _ _ hfit]
    exact takeMany_put p l rest hall

def bytes : Coder Bytes := list (ofWire Wire.u8)

/-- A `DateTime<Utc>`, in nanoseconds. -/
def time : Coder Nat where
  ok t := t < Rfc3339.endOfYears
  put t := bytes.put (Rfc3339.text t)
  take b := (bytes.take b).map fun x => (Rfc3339.time x.1, x.2)
  take_put t rest h := by
    have hyear : t < Rfc3339.endOfYears := by simpa using h
    have hlen := Rfc3339.length_text hyear
    have hfrac := Rfc3339.length_fraction (t % 1000000000)
    have hok : bytes.ok (Rfc3339.text t) = true := by
      refine Bool.and_eq_true_iff.mpr ⟨?_, List.all_eq_true.mpr fun _ _ => rfl⟩
      unfold maxItems
      exact decide_eq_true (by omega)
    rw [bytes.take_put _ _ hok]
    simp [Rfc3339.time_text hyear]

/-! ## Lengths -/

@[simp] theorem length_uint (w n : Nat) : ((uint w).put n).length = w := length_leBytes w n

@[simp] theorem length_ofWire (w : Wire α) (a : α) : ((ofWire w).put a).length = w.width := w.length_put a

@[simp] theorem length_pair (p : Coder α) (q : Coder β) (x : α × β) :
    ((p.pair q).put x).length = (p.put x.1).length + (q.put x.2).length := List.length_append

@[simp] theorem length_iso (p : Coder α) (f : α → β) (g : β → α) (hfg : ∀ b, f (g b) = b) (b : β) :
    ((p.iso f g hfg).put b).length = (p.put (g b)).length := rfl

theorem length_list (p : Coder α) (l : List α) : ((list p).put l).length = 8 + (l.map fun a => (p.put a).length).sum := by
  show (leBytes 8 l.length ++ l.flatMap p.put).length = _
  rw [List.length_append, length_leBytes, List.length_flatMap]

@[simp] theorem length_bytes (b : Bytes) : (bytes.put b).length = 8 + b.length := by
  have hone : (b.map fun a => ((ofWire Wire.u8).put a).length) = b.map fun _ => 1 := List.map_congr_left fun a _ =>
    length_ofWire Wire.u8 a
  unfold bytes
  rw [length_list, hone]
  simp

@[simp] theorem length_time (t : Nat) : (time.put t).length = 8 + (Rfc3339.text t).length := length_bytes _

end Coder

end ObjStr.Lib
