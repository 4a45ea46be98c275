/-
  ObjStr.Lib.Rfc3339 — a time as text.

  A time is a number of nanoseconds since 1970-01-01T00:00:00Z. `text` is its RFC 3339 form in UTC with as many digits of
  the second as it needs, in groups of three: `2024-05-17T09:30:00Z`, `2024-05-17T09:30:00.250Z`. The text has 20 to 30
  bytes (`length_text`), and gives the time back (`time_text`).

  A day is found in its era of 400 years, which begin in March: a year's leap day is its last (`civil`, `dayOf_civil`).
-/

import Mathlib.Algebra.Ring.Nat
import Mathlib.Tactic.Common
import ObjStr.Lib.Disk

namespace ObjStr.Lib.Rfc3339

/-! ## Decimal digits -/

def digit (n : Nat) : UInt8 := UInt8.ofNat (48 + n % 10)

def pad : Nat → Nat → Bytes
  | 0, _ => []
  | w + 1, n => pad w (n / 10) ++ [digit n]

def value (b : Bytes) : Nat := b.foldl (fun n d => 10 * n + (d.toNat - 48)) 0

@[simp] theorem length_pad (w n : Nat) : (pad w n).length = w := by
  induction w generalizing n with
  | zero => rfl
  | succ w ih => simp [pad, ih]

theorem toNat_digit (n : Nat) : (digit n).toNat - 48 = n % 10 := by
  have hlt : 48 + n % 10 < 256 := by omega
  unfold digit
  rw [UInt8.toNat_ofNat_of_lt' hlt]
  omega

theorem value_pad (w n : Nat) (h : n < 10 ^ w) : value (pad w n) = n := by
  induction w generalizing n with
  | zero =>
    have hn : n = 0 := by simpa using h
    rw [hn]
    rfl
  | succ w ih =>
    have hq : n / 10 < 10 ^ w := by
      rw [Nat.pow_succ] at h
      omega
    have hih := ih (n / 10) hq
    unfold value at hih ⊢
    rw [pad, List.foldl_append, hih, List.foldl_cons, List.foldl_nil, toNat_digit]
    omega

def field (w : Nat) (b : Bytes) : Nat × Bytes := (value (b.take w), b.drop (w + 1))

theorem field_pad (w n : Nat) (c : UInt8) (rest : Bytes) (h : n < 10 ^ w) : field w (pad w n ++ c :: rest) = (n, rest) := by
  unfold field
  rw [List.take_left' (length_pad w n), value_pad w n h, ← List.drop_drop, List.drop_left' (length_pad w n)]
  rfl

/-! ## Days -/

/-- A day counted from 0000-03-01, as a year that begins in March and the day in it. -/
def yearDay (n : Nat) : Nat × Nat :=
  let dayOfEra := n % 146097
  let century := min (dayOfEra / 36524) 3
  let dayOfCentury := dayOfEra - 36524 * century
  let cycle := dayOfCentury / 1461
  let dayOfCycle := dayOfCentury - 1461 * cycle
  let year := min (dayOfCycle / 365) 3
  (400 * (n / 146097) + 100 * century + 4 * cycle + year, dayOfCycle - 365 * year)

def dayNumber (year day : Nat) : Nat :=
  146097 * (year / 400) + 36524 * (year % 400 / 100) + 1461 * (year % 100 / 4) + 365 * (year % 4) + day

/-- The parts of a year in its era. -/
theorem dayNumber_parts (era day : Nat) {century cycle year : Nat} (h1 : century ≤ 3) (h2 : cycle ≤ 24) (h3 : year ≤ 3) :
    dayNumber (400 * era + 100 * century + 4 * cycle + year) day =
      146097 * era + 36524 * century + 1461 * cycle + 365 * year + day := by
  have e1 : (400 * era + 100 * century + 4 * cycle + year) / 400 = era := by omega
  have e2 : (400 * era + 100 * century + 4 * cycle + year) % 400 / 100 = century := by omega
  have e3 : (400 * era + 100 * century + 4 * cycle + year) % 100 = 4 * cycle + year := by omega
  have e4 : (400 * era + 100 * century + 4 * cycle + year) % 4 = year := by omega
  have e5 : (4 * cycle + year) / 4 = cycle := by omega
  unfold dayNumber
  rw [e1, e2, e3, e4, e5]

theorem dayNumber_yearDay (n : Nat) : dayNumber (yearDay n).1 (yearDay n).2 = n ∧ (yearDay n).2 < 366 := by
  have hera := Nat.div_add_mod n 146097
  have hlt := Nat.mod_lt n (show 0 < 146097 by decide)
  unfold yearDay
  generalize n % 146097 = dayOfEra at hera hlt
  generalize n / 146097 = era at hera
  dsimp only
  have hcentury : min (dayOfEra / 36524) 3 ≤ 3 ∧ 36524 * min (dayOfEra / 36524) 3 ≤ dayOfEra ∧
      dayOfEra - 36524 * min (dayOfEra / 36524) 3 ≤ 36524 := by omega
  generalize min (dayOfEra / 36524) 3 = century at hcentury
  obtain ⟨hc, hcle, hdoc⟩ := hcentury
  generalize hdayOfCentury : dayOfEra - 36524 * century = dayOfCentury at hdoc
  have hcycle : dayOfCentury / 1461 ≤ 24 ∧ 1461 * (dayOfCentury / 1461) ≤ dayOfCentury ∧
      dayOfCentury - 1461 * (dayOfCentury / 1461) < 1461 := by omega
  generalize dayOfCentury / 1461 = cycle at hcycle
  obtain ⟨hq, hqle, hdoq⟩ := hcycle
  generalize hdayOfCycle : dayOfCentury - 1461 * cycle = dayOfCycle at hdoq
  have hyear : min (dayOfCycle / 365) 3 ≤ 3 ∧ 365 * min (dayOfCycle / 365) 3 ≤ dayOfCycle ∧
      dayOfCycle - 365 * min (dayOfCycle / 365) 3 < 366 := by omega
  generalize min (dayOfCycle / 365) 3 = year at hyear
  obtain ⟨hy, hyle, hdoy⟩ := hyear
  rw [dayNumber_parts era _ hc hq hy]
  exact ⟨by omega, hdoy⟩

/-- The days from 0000-03-01 to 1970-01-01. -/
def epoch : Nat := 719468

/-- Year, month and day of a day since 1970-01-01. -/
def civil (day : Nat) : Nat × Nat × Nat :=
  let (year, dayOfYear) := yearDay (day + epoch)
  -- March is month 0
  let month := (5 * dayOfYear + 2) / 153
  (year + (if month < 10 then 0 else 1), if month < 10 then month + 3 else month - 9, dayOfYear - (153 * month + 2) / 5 + 1)

def dayOf (year month day : Nat) : Nat :=
  if month < 3 then dayNumber (year - 1) ((153 * (month + 9) + 2) / 5 + day - 1) - epoch
  else dayNumber year ((153 * (month - 3) + 2) / 5 + day - 1) - epoch

theorem dayOf_civil (day : Nat) : dayOf (civil day).1 (civil day).2.1 (civil day).2.2 = day := by
  obtain ⟨hday, hlt⟩ := dayNumber_yearDay (day + epoch)
  unfold civil
  generalize yearDay (day + epoch) = yd at hday hlt
  obtain ⟨year, dayOfYear⟩ := yd
  dsimp only at hday hlt ⊢
  have hmonth : (5 * dayOfYear + 2) / 153 < 12 ∧ (153 * ((5 * dayOfYear + 2) / 153) + 2) / 5 ≤ dayOfYear := by omega
  generalize (5 * dayOfYear + 2) / 153 = month at hmonth
  obtain ⟨hm12, hle⟩ := hmonth
  unfold dayOf
  by_cases hm : month < 10
  · simp only [if_pos hm, Nat.add_zero]
    rw [if_neg (by omega), Nat.add_sub_cancel,
      show (153 * month + 2) / 5 + (dayOfYear - (153 * month + 2) / 5 + 1) - 1 = dayOfYear by omega, hday, Nat.add_sub_cancel]
  · simp only [if_neg hm]
    rw [if_pos (by omega), Nat.add_sub_cancel, show month - 9 + 9 = month by omega,
      show (153 * month + 2) / 5 + (dayOfYear - (153 * month + 2) / 5 + 1) - 1 = dayOfYear by omega, hday, Nat.add_sub_cancel]

/-- A date of four-digit year. -/
theorem civil_lt {day : Nat} (h : day < 2932897) :
    (civil day).1 < 10000 ∧ (civil day).2.1 < 100 ∧ (civil day).2.2 < 100 := by
  obtain ⟨hday, hlt⟩ := dayNumber_yearDay (day + epoch)
  unfold civil
  generalize yearDay (day + epoch) = yd at hday hlt
  obtain ⟨year, dayOfYear⟩ := yd
  dsimp only at hday hlt ⊢
  have hmonth : (5 * dayOfYear + 2) / 153 < 12 ∧ dayOfYear - (153 * ((5 * dayOfYear + 2) / 153) + 2) / 5 < 31 := by omega
  refine ⟨?_, by split <;> omega, by omega⟩
  unfold dayNumber epoch at hday
  have hera : year / 400 ≤ 24 := by omega
  split
  · omega
  · -- January and February belong to the year before
    have hlast : year < 9999 := by
      by_contra hge
      have hyear : year = 9999 := by omega
      rw [hyear] at hday
      omega
    omega

/-! ## Texts -/

/-- The part of the second, in as few groups of three digits as give it exactly. -/
def fraction (ns : Nat) : Bytes :=
  if ns = 0 then []
  else if ns % 1000000 = 0 then 46 :: pad 3 (ns / 1000000)
  else if ns % 1000 = 0 then 46 :: pad 6 (ns / 1000)
  else 46 :: pad 9 ns

def yearText (year : Nat) : Bytes :=
  if year < 10000 then pad 4 year else 43 :: (Nat.toDigits 10 year).map fun c => UInt8.ofNat c.toNat

def text (t : Nat) : Bytes :=
  let seconds := t / 1000000000
  let date := civil (seconds / 86400)
  yearText date.1 ++ 45 :: (pad 2 date.2.1 ++ 45 :: (pad 2 date.2.2 ++ 84 :: (pad 2 (seconds % 86400 / 3600) ++
    58 :: (pad 2 (seconds % 3600 / 60) ++ 58 :: (pad 2 (seconds % 60) ++ (fraction (t % 1000000000) ++ [90]))))))

/-- The first time of the year 10000. -/
def endOfYears : Nat := 2932897 * 86400 * 1000000000

theorem length_fraction (ns : Nat) : (fraction ns).length ≤ 10 := by
  unfold fraction
  split
  · simp
  · split
    · simp
    · split <;> simp

theorem day_lt {t : Nat} (h : t < endOfYears) : t / 1000000000 / 86400 < 2932897 := by
  unfold endOfYears at h
  have h1 : t / 1000000000 < 2932897 * 86400 := Nat.div_lt_of_lt_mul (by omega)
  exact Nat.div_lt_of_lt_mul (by omega)

/-- The text of a time has 20 bytes and those of the fraction. -/
theorem length_text {t : Nat} (h : t < endOfYears) : (text t).length = 20 + (fraction (t % 1000000000)).length := by
  obtain ⟨hyear, -, -⟩ := civil_lt (day_lt h)
  unfold text yearText
  simp only [if_pos hyear, List.length_append, List.length_cons, length_pad, List.length_nil]
  omega

def nanos (digits : Bytes) : Nat := value digits * 10 ^ (9 - digits.length)

theorem nanos_fraction {ns : Nat} (h : ns < 1000000000) : nanos ((fraction ns).drop 1) = ns := by
  unfold fraction nanos
  by_cases h0 : ns = 0
  · rw [if_pos h0, h0]
    rfl
  rw [if_neg h0]
  by_cases h6 : ns % 1000000 = 0
  · rw [if_pos h6, List.drop_one, List.tail_cons, length_pad, value_pad 3 _ (by omega)]
    omega
  rw [if_neg h6]
  by_cases h3 : ns % 1000 = 0
  · rw [if_pos h3, List.drop_one, List.tail_cons, length_pad, value_pad 6 _ (by omega)]
    omega
  · rw [if_neg h3, List.drop_one, List.tail_cons, length_pad, value_pad 9 _ (by omega)]
    omega

def time (b : Bytes) : Nat :=
  let (year, b) := field 4 b
  let (month, b) := field 2 b
  let (day, b) := field 2 b
  let (hour, b) := field 2 b
  let (minute, b) := field 2 b
  1000000000 * (86400 * dayOf year month day + 3600 * hour + 60 * minute + value (b.take 2)) + nanos ((b.drop 2).dropLast.drop 1)

theorem time_text {t : Nat} (h : t < endOfYears) : time (text t) = t := by
  obtain ⟨hyear, hmonth, hday⟩ := civil_lt (day_lt h)
  have hdate := dayOf_civil (t / 1000000000 / 86400)
  have hparts := Nat.div_add_mod t 1000000000
  have hns := Nat.mod_lt t (show 0 < 1000000000 by decide)
  unfold time text yearText
  dsimp only
  generalize t / 1000000000 = seconds at *
  generalize t % 1000000000 = ns at *
  generalize civil (seconds / 86400) = date at *
  rw [if_pos hyear, field_pad 4 _ _ _ hyear]
  dsimp only
  rw [field_pad 2 _ _ _ hmonth]
  dsimp only
  rw [field_pad 2 _ _ _ hday]
  dsimp only
  rw [field_pad 2 _ _ _ (by omega)]
  dsimp only
  rw [field_pad 2 _ _ _ (by omega)]
  dsimp only
  rw [List.take_left' (length_pad 2 _), List.drop_left' (length_pad 2 _), List.dropLast_concat, value_pad 2 _ (by omega),
    nanos_fraction hns, hdate]
  omega

end ObjStr.Lib.Rfc3339
