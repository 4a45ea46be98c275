/-
  ObjStr.Sharded.Sample — small clusters to run the model on: shards that are all healthy, on
  stores of their own that hold what they are given and fail the calls they are told to.
-/

import ObjStr.Raw.Sample
import ObjStr.Sharded.Basic

namespace ObjStr.Sharded.Sample

open ObjStr.Lib ObjStr.Raw
open ObjStr.Raw.Sample (Code)

/-! ## Times -/

def two (n : Nat) : Bytes := [UInt8.ofNat (48 + n / 10), UInt8.ofNat (48 + n % 10)]

/-- The number that two digits of a text are. -/
def twoAt (b : Bytes) (i : Nat) : Nat := ((b.getD i 48).toNat - 48) * 10 + ((b.getD (i + 1) 48).toNat - 48)

theorem twoAt_two : ∀ n < 60, twoAt (two n) 0 = n := by decide

/-- The time on the first day after the epoch; any later time as a number. -/
def timeText (t : Nat) : Bytes :=
  if t < 86400 then keyBytes "1970-01-01T" ++ (two (t / 3600) ++ 58 :: (two (t / 60 % 60) ++ 58 :: (two (t % 60) ++ keyBytes "+00:00")))
  else 0 :: Code.nat.put t

def timeOf (b : Bytes) : Option Nat :=
  match b with
  | 0 :: rest => (Code.nat.take rest).map (·.1)
  | b => if b.length = 25 then some (twoAt b 11 * 3600 + twoAt b 14 * 60 + twoAt b 17) else none

theorem timeOf_timeText (t : Nat) : timeOf (timeText t) = some t := by
  unfold timeText
  split
  · next h =>
    have hday : keyBytes "1970-01-01T" = [49, 57, 55, 48, 45, 48, 49, 45, 48, 49, 84] := by decide
    have hzone : keyBytes "+00:00" = [43, 48, 48, 58, 48, 48] := by decide
    have hh : twoAt (two (t / 3600)) 0 = t / 3600 := twoAt_two _ (by omega)
    have hm : twoAt (two (t / 60 % 60)) 0 = t / 60 % 60 := twoAt_two _ (by omega)
    have hs : twoAt (two (t % 60)) 0 = t % 60 := twoAt_two _ (by omega)
    rw [hday, hzone]
    show some (twoAt (two (t / 3600)) 0 * 3600 + twoAt (two (t / 60 % 60)) 0 * 60 + twoAt (two (t % 60)) 0) = some t
    rw [hh, hm, hs]
    congr 1
    omega
  · have h := Code.nat.take_put t []
    rw [List.append_nil] at h
    show (Code.nat.take (Code.nat.put t)).map (·.1) = some t
    rw [h]
    rfl

scoped instance chrono : Chrono := ⟨timeText, timeOf, timeOf_timeText⟩

/-! ## Clusters -/

def fresh : Store where
  objects := ∅
  outcomes _ := []
  clock := []
  strictDelete := false

def Store.failing (st : Store) (c : Call) (fs : List (Option StoreError)) : Store :=
  { st with outcomes := Function.update st.outcomes c fs }

def Store.holding (st : Store) (key : Key) (body : Bytes) : Store :=
  { st with objects := st.objects.insert key ⟨body, [], ∅, 0⟩ }

def broken : Option StoreError := some (.backend false)

def healthyShard : ShardInfo := ⟨true, .healthy, 0, none, 0, none, false⟩

theorem one_of_one : 1 ≤ 1 ∧ 1 ≤ 1 := by decide

theorem one_of_two : 1 ≤ 1 ∧ 1 ≤ 2 := by decide

theorem two_of_two : 1 ≤ 2 ∧ 2 ≤ 2 := by decide

theorem one_of_three : 1 ≤ 1 ∧ 1 ≤ 3 := by decide

def config (rf minWrites : Nat) (h : 1 ≤ minWrites ∧ minWrites ≤ rf := by
    first
      | exact ObjStr.Sharded.Sample.one_of_one
      | exact ObjStr.Sharded.Sample.one_of_two
      | exact ObjStr.Sharded.Sample.two_of_two
      | exact ObjStr.Sharded.Sample.one_of_three) : Config where
  replicationFactor := rf
  minWrites := minWrites
  readOnly := false
  deleteRequiresMinWrites := false
  rawRefs := none
  storeOf := Function.Embedding.refl _
  one_le_minWrites := h.1
  minWrites_le := h.2

def cluster (shards : Nat) (cfg : Config) : Cluster where
  config := cfg
  shards := List.replicate shards healthyShard
  catalog := ⟨∅, false⟩
  readCounter := 0
  readPreference := .ordered
  repairs := []

def sys (shards : Nat) (cfg : Config) (stores : StoreId → Store) : Sys := ⟨stores, cluster shards cfg, []⟩

def sidecars (n : Nat) : RawRefRegistry := ⟨List.replicate n none, List.replicate n .sidecar, by simp⟩

def raws (n : Nat) : RawRefRegistry := ⟨(List.range n).map some, List.replicate n .raw, by simp⟩

end ObjStr.Sharded.Sample
