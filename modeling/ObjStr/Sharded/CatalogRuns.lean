/-
  ObjStr.Sharded.CatalogRuns — the catalog's dirty flag, its mutators and its file, in threads that run side by side
  (`shardedobjstr/src/lib.rs`, `catalog.rs`).

  An operation is a sequence of steps, and another thread may take steps between any two:
  - a mutator changes the map and then sets the flag; `put`, `remove`, `clear` and `replace`
    have released the lock by then, the others have not;
  - a save serializes the map under the lock, writes the temporary file, renames it, and
    clears the flag; two saves write the same temporary file;
  - a load reads the file, replaces the map, and clears the flag;
  - a rebuild replaces the map like a mutator, and then clears the flag without a save.
  The rule that the flag is to keep (`CleanIsSaved`): while it is clear and no save is in progress, the file
  holds the map.
  - `clean_is_saved_iff`: it holds in every state of a run if and only if it holds in the first, and no step of the run
    changes an unflagged map away from the file, clears the flag while the file holds another
    map, or ends the last save in failure over an unflagged map (`Fits`).
  - `one_at_a_time_saved`: after each of operations that wait for each other it holds, but for a rebuild that finds something
    else than the file.
  - `a_put_behind_the_snapshot_is_lost`: a `put` between the snapshot of a save and the end
    of it leaves the flag clear and is not in the file.
-/

import Mathlib.Data.List.Induction
import Mathlib.Data.String.Basic
import ObjStr.Raw.Sample
import ObjStr.Sharded.CatalogFile

namespace ObjStr.Sharded

open ObjStr.Lib ObjStr.Raw

/-! ## Operations -/

inductive Mutation where
  | put (key : Key) (shards : List ShardId) (size : Nat) (crc32c : Option UInt32) (metaLen : UInt16) (now : DateTime)
  | addReplica (key : Key) (shardId : ShardId) (size : Nat) (metaLen : UInt16) (now : DateTime)
  | tryInsert (key : Key) (shards : List ShardId) (size : Nat) (now : DateTime)
  | remove (key : Key)
  | clear
  | removeShard (key : Key) (shardId : ShardId)
  | removeAllForShard (shardId : ShardId)

def Mutation.apply (c : Catalog) : Mutation → Catalog
  | .put key shards size crc32c metaLen now => c.put key shards size crc32c metaLen now
  | .addReplica key shardId size metaLen now => c.addReplica key shardId size metaLen now
  | .tryInsert key shards size now => (c.tryInsert key shards size now).2
  | .remove key => (c.remove key).2
  | .clear => c.replace ∅
  | .removeShard key shardId => c.removeShard key shardId
  | .removeAllForShard shardId => (c.removeAllForShard shardId).2

/-- Whether the flag is set before the lock is released. -/
def Mutation.marksUnderLock : Mutation → Bool
  | .addReplica .. | .tryInsert .. | .removeShard .. | .removeAllForShard .. => true
  | .put .. | .remove .. | .clear => false

inductive CatalogOp where
  | mutate (m : Mutation)
  | saveCatalog
  | saveCatalogIfDirty
  | loadCatalog
  /-- Its scan has found these entries. -/
  | rebuildCatalog (newMap : FMap PlacementEntry)

inductive Phase where
  | idle
  /-- `mark_dirty`, of a mutator that still has the lock or not. -/
  | marking (locked : Bool)
  /-- Serialize the map. -/
  | saving
  /-- Write the temporary file. -/
  | serialized (data : Bytes)
  /-- Rename it. -/
  | written
  /-- `clear_dirty`. -/
  | renamed
  /-- `load_into`: replace the map by this one. -/
  | loaded (m : FMap PlacementEntry)
  /-- Clear the flag. -/
  | loadedInto
  /-- `mark_dirty`, of a rebuild. -/
  | replaced
  /-- `clear_dirty`. -/
  | rebuilt

def Phase.inSave : Phase → Bool
  | .saving | .serialized _ | .written | .renamed => true
  | _ => false

def Phase.hasLock : Phase → Bool
  | .marking locked => locked
  | _ => false

/-! ## Steps -/

/-- A catalog, the file at its path, the temporary file, and the threads. -/
structure CatalogSys where
  persistence : CatalogPersistence
  catalog : Catalog
  file : Option Bytes
  tmp : Option Bytes
  threads : List Phase

/-- What an idle thread calls, or the next step of one that is not; a write or a rename may fail,
    and leaves something at the temporary path then. -/
inductive CatalogAct where
  | call (op : CatalogOp)
  | next (failed : Option (Option Bytes))

namespace CatalogSys

variable [Crates] [Serde] (w : CatalogSys)

def goto (i : Nat) (p : Phase) : CatalogSys := { w with threads := w.threads.set i p }

def locked : Bool := w.threads.any Phase.hasLock

def setInner (m : FMap PlacementEntry) : CatalogSys := { w with catalog := { w.catalog with inner := m } }

def setDirty (dirty : Bool) : CatalogSys := { w with catalog := { w.catalog with dirty := dirty } }

def mutated (m : Mutation) : Catalog := m.apply { w.catalog with dirty := false }

/-- The first step of an operation; none while it waits for the lock. -/
def call (i : Nat) : CatalogOp → Option CatalogSys
  | .mutate m =>
    if w.locked then none
    else some ((w.setInner (w.mutated m).inner).goto i (if (w.mutated m).dirty then .marking m.marksUnderLock else .idle))
  | .saveCatalog => some (w.goto i .saving)
  | .saveCatalogIfDirty => some (if w.catalog.dirty then w.goto i .saving else w)
  | .loadCatalog =>
    match w.persistence.load w.file with
    | .ok m => some (w.goto i (.loaded m))
    | .error _ => some w
  | .rebuildCatalog newMap => if w.locked then none else some ((w.setInner newMap).goto i .replaced)

def next (i : Nat) (failed : Option (Option Bytes)) : Phase → Option CatalogSys
  | .idle => none
  | .marking _ => some ((w.setDirty true).goto i .idle)
  | .saving =>
    if w.locked then none
    else
      match w.persistence.encode w.catalog.inner with
      | some data => some (w.goto i (.serialized data))
      | none => some (w.goto i .renamed)
  | .serialized data =>
    match failed with
    | none => some ({ w with tmp := some data }.goto i .written)
    | some left => some ({ w with tmp := left }.goto i .idle)
  | .written =>
    match failed, w.tmp with
    | none, some data => some ({ w with file := some data, tmp := none }.goto i .renamed)
    | _, _ => some (w.goto i .idle)
  | .renamed => some ((w.setDirty false).goto i .idle)
  | .loaded m => if w.locked then none else some ((w.setInner m).goto i .loadedInto)
  | .loadedInto => some ((w.setDirty false).goto i .idle)
  | .replaced => some ((w.setDirty true).goto i .rebuilt)
  | .rebuilt => some ((w.setDirty false).goto i .idle)

/-- One step of thread `i`. -/
def act (a : Nat × CatalogAct) : Option CatalogSys :=
  match w.threads[a.1]?, a.2 with
  | some .idle, .call op => w.call a.1 op
  | some .idle, .next _ => none
  | some p, .next failed => w.next a.1 failed p
  | _, _ => none

def run : CatalogSys → List (Nat × CatalogAct) → Option CatalogSys
  | w, [] => some w
  | w, a :: acts => (w.act a).bind fun w' => run w' acts

/-! ## The rule -/

/-- Loading the file yields these entries. -/
def Holds (m : FMap PlacementEntry) : Prop := ∃ m', w.persistence.load w.file = .ok m' ∧ SameEntries m' m

def SaveInProgress : Prop := ∃ p ∈ w.threads, p.inSave = true

def OtherSaveInProgress (i : Nat) : Prop := ∃ j p, j ≠ i ∧ w.threads[j]? = some p ∧ p.inSave = true

/-- A clean catalog is a saved catalog. -/
def CleanIsSaved : Prop := w.catalog.dirty = false → ¬ w.SaveInProgress → w.Holds w.catalog.inner

/-- What a step may do without breaking the rule, by the state before it. -/
def Fits (a : Nat × CatalogAct) : Prop :=
  match w.threads[a.1]?, a.2 with
  -- a map that is not flagged changes only to what the file holds
  | some .idle, .call (.mutate m) => w.catalog.dirty = true ∨ w.SaveInProgress ∨ w.Holds (w.mutated m).inner
  | some .idle, .call (.rebuildCatalog newMap) => w.catalog.dirty = true ∨ w.SaveInProgress ∨ w.Holds newMap
  | some (.loaded m), .next _ => w.catalog.dirty = true ∨ w.SaveInProgress ∨ w.Holds m
  -- the flag is cleared only when the file holds the map
  | some .renamed, .next _ => w.OtherSaveInProgress a.1 ∨ w.Holds w.catalog.inner
  | some .loadedInto, .next _ => w.SaveInProgress ∨ w.Holds w.catalog.inner
  | some .rebuilt, .next _ => w.SaveInProgress ∨ w.Holds w.catalog.inner
  -- the last save fails only when the map is flagged or saved
  | some (.serialized _), .next (some _) => w.catalog.dirty = true ∨ w.OtherSaveInProgress a.1 ∨ w.Holds w.catalog.inner
  | some .written, .next failed =>
    (failed = none ∧ w.tmp ≠ none) ∨ w.catalog.dirty = true ∨ w.OtherSaveInProgress a.1 ∨ w.Holds w.catalog.inner
  | _, _ => True

/-! ## One step -/

variable {w : CatalogSys} {i : Nat} {p q : Phase}

omit [Crates] [Serde] in
theorem saveInProgress_iff (h : w.threads[i]? = some q) : w.SaveInProgress ↔ q.inSave = true ∨ w.OtherSaveInProgress i := by
  constructor
  · intro ⟨r, hr, hsave⟩
    obtain ⟨j, hj⟩ := List.mem_iff_getElem?.mp hr
    by_cases hji : j = i
    · subst hji
      rw [h] at hj
      cases hj
      exact .inl hsave
    · exact .inr ⟨j, r, hji, hj, hsave⟩
  · intro hor
    rcases hor with hq | ⟨j, r, -, hj, hsave⟩
    · exact ⟨q, List.mem_of_getElem? h, hq⟩
    · exact ⟨r, List.mem_of_getElem? hj, hsave⟩

omit [Crates] [Serde] in
theorem otherSaveInProgress_goto (w : CatalogSys) (i : Nat) (p : Phase) :
    (w.goto i p).OtherSaveInProgress i ↔ w.OtherSaveInProgress i := by
  have hget : ∀ j, j ≠ i → (w.goto i p).threads[j]? = w.threads[j]? := fun j hj => List.getElem?_set_ne (Ne.symm hj)
  constructor
  · intro ⟨j, r, hj, hr, hsave⟩
    rw [hget j hj] at hr
    exact ⟨j, r, hj, hr, hsave⟩
  · intro ⟨j, r, hj, hr, hsave⟩
    rw [← hget j hj] at hr
    exact ⟨j, r, hj, hr, hsave⟩

theorem cleanIsSaved_iff : w.CleanIsSaved ↔ w.catalog.dirty = true ∨ w.SaveInProgress ∨ w.Holds w.catalog.inner := by
  unfold CleanIsSaved
  cases w.catalog.dirty <;> by_cases hs : w.SaveInProgress <;> simp [hs]

/-- After a step that ends here. -/
theorem cleanIsSaved_goto (h : w.threads[i]? = some q) : (w.goto i p).CleanIsSaved ↔
    w.catalog.dirty = true ∨ (p.inSave = true ∨ w.OtherSaveInProgress i) ∨ w.Holds w.catalog.inner := by
  have hi : (w.goto i p).threads[i]? = some p := by
    have hlt := (List.getElem?_eq_some_iff.mp h).1
    show (w.threads.set i p)[i]? = some p
    rw [List.getElem?_set_self hlt]
  rw [cleanIsSaved_iff, saveInProgress_iff hi, otherSaveInProgress_goto]
  exact Iff.rfl

/-- A first step keeps the rule exactly if it fits. -/
theorem call_keeps_iff {op : CatalogOp} {w' : CatalogSys} (hidle : w.threads[i]? = some .idle) (h : w.call i op = some w')
    (hw : w.CleanIsSaved) : w'.CleanIsSaved ↔ w.Fits (i, .call op) := by
  have hsaving := saveInProgress_iff hidle
  have hother : w.SaveInProgress ↔ w.OtherSaveInProgress i := by
    rw [hsaving]
    simp [Phase.inSave]
  unfold Fits
  rw [hidle]
  cases op with
  | mutate m =>
    simp only [call] at h
    split at h
    · cases h
    · cases h
      have hp : (if (w.mutated m).dirty = true then Phase.marking m.marksUnderLock else .idle).inSave = false := by
        split <;> rfl
      rw [cleanIsSaved_goto (w := w.setInner (w.mutated m).inner) hidle, hp, hother]
      simp [setInner, Holds, OtherSaveInProgress]
  | rebuildCatalog newMap =>
    simp only [call] at h
    split at h
    · cases h
    · cases h
      rw [cleanIsSaved_goto (w := w.setInner newMap) hidle, hother]
      simp [setInner, Holds, OtherSaveInProgress, Phase.inSave]
  | saveCatalog =>
    cases h
    rw [cleanIsSaved_goto hidle]
    simp [Phase.inSave]
  | saveCatalogIfDirty =>
    cases h
    simp only [iff_true]
    split
    · rw [cleanIsSaved_goto hidle]
      simp [Phase.inSave]
    · exact hw
  | loadCatalog =>
    have hsame : ∀ m, (w.goto i (.loaded m)).CleanIsSaved := by
      intro m
      rw [cleanIsSaved_goto hidle]
      rw [cleanIsSaved_iff, hother] at hw
      simpa [Phase.inSave] using hw
    simp only [call] at h
    split at h
    · cases h
      exact iff_of_true (hsame _) trivial
    · cases h
      exact iff_of_true hw trivial

theorem next_keeps_iff {failed : Option (Option Bytes)} {w' : CatalogSys} (hp : w.threads[i]? = some p)
    (h : w.next i failed p = some w') : w'.CleanIsSaved ↔ w.Fits (i, .next failed) := by
  have hsaving := saveInProgress_iff hp
  unfold Fits
  rw [hp]
  cases p with
  | idle => cases h
  | marking locked =>
    cases h
    rw [cleanIsSaved_goto (w := w.setDirty true) hp]
    simp [setDirty]
  | saving =>
    simp only [next] at h
    split at h
    · cases h
    · split at h
      · cases h
        rw [cleanIsSaved_goto hp]
        simp [Phase.inSave]
      · cases h
        rw [cleanIsSaved_goto hp]
        simp [Phase.inSave]
  | serialized data =>
    cases failed with
    | none =>
      cases h
      rw [cleanIsSaved_goto (w := { w with tmp := some data }) hp]
      simp [Phase.inSave]
    | some left =>
      cases h
      rw [cleanIsSaved_goto (w := { w with tmp := left }) hp]
      simp [Phase.inSave, Holds, OtherSaveInProgress]
  | written =>
    have hfailed : ¬ (failed = none ∧ w.tmp ≠ none) → w' = w.goto i .idle → (w'.CleanIsSaved ↔
        (failed = none ∧ w.tmp ≠ none) ∨ w.catalog.dirty = true ∨ w.OtherSaveInProgress i ∨
          w.Holds w.catalog.inner) := by
      intro hno hw'
      rw [hw', cleanIsSaved_goto hp]
      simp [Phase.inSave, hno]
    simp only [next] at h
    cases failed with
    | some left =>
      cases h
      exact hfailed (by simp) rfl
    | none =>
      rcases Option.eq_none_or_eq_some w.tmp with htmp | ⟨data, htmp⟩
      · rw [htmp] at h
        cases h
        exact hfailed (by simp [htmp]) rfl
      · rw [htmp] at h
        cases h
        rw [cleanIsSaved_goto (w := { w with file := some data, tmp := none }) hp]
        simp [Phase.inSave, htmp]
  | renamed =>
    cases h
    rw [cleanIsSaved_goto (w := w.setDirty false) hp]
    simp [setDirty, Phase.inSave, Holds, OtherSaveInProgress]
  | loaded m =>
    simp only [next] at h
    split at h
    · cases h
    · cases h
      rw [cleanIsSaved_goto (w := w.setInner m) hp, hsaving]
      simp [setInner, Phase.inSave, Holds, OtherSaveInProgress]
  | loadedInto =>
    cases h
    rw [cleanIsSaved_goto (w := w.setDirty false) hp, hsaving]
    simp [setDirty, Phase.inSave, Holds, OtherSaveInProgress]
  | replaced =>
    cases h
    rw [cleanIsSaved_goto (w := w.setDirty true) hp]
    simp [setDirty]
  | rebuilt =>
    cases h
    rw [cleanIsSaved_goto (w := w.setDirty false) hp, hsaving]
    simp [setDirty, Phase.inSave, Holds, OtherSaveInProgress]

/-- A step keeps the rule exactly if it fits. -/
theorem act_keeps_iff {a : Nat × CatalogAct} {w' : CatalogSys} (h : w.act a = some w') (hw : w.CleanIsSaved) :
    w'.CleanIsSaved ↔ w.Fits a := by
  obtain ⟨i, a⟩ := a
  unfold act at h
  cases hp : w.threads[i]? with
  | none => simp [hp] at h
  | some p =>
    cases a with
    | call op =>
      cases p with
      | idle =>
        simp only [hp] at h
        exact call_keeps_iff hp h hw
      | _ => simp [hp] at h
    | next failed =>
      cases p with
      | idle => simp [hp] at h
      | _ =>
        simp only [hp] at h
        exact next_keeps_iff hp h

/-! ## Runs -/

def AlwaysSaved (w : CatalogSys) (acts : List (Nat × CatalogAct)) : Prop :=
  ∀ pre v, pre <+: acts → w.run pre = some v → v.CleanIsSaved

def AllFit (w : CatalogSys) (acts : List (Nat × CatalogAct)) : Prop :=
  ∀ pre a v v', pre ++ [a] <+: acts → w.run pre = some v → v.act a = some v' → v.Fits a

theorem run_append (w : CatalogSys) (acts acts' : List (Nat × CatalogAct)) :
    w.run (acts ++ acts') = (w.run acts).bind fun v => v.run acts' := by
  induction acts generalizing w with
  | nil => rfl
  | cons a acts ih =>
    simp only [List.cons_append, run]
    cases w.act a with
    | none => rfl
    | some v => exact ih v

/-- In a run, the flag tells the truth exactly if it did at first and every step fits. -/
theorem clean_is_saved_iff (w : CatalogSys) (acts : List (Nat × CatalogAct)) :
    w.AlwaysSaved acts ↔ w.CleanIsSaved ∧ w.AllFit acts := by
  constructor
  · intro h
    refine ⟨h [] w List.nil_prefix rfl, fun pre a v v' hpre hv hact => ?_⟩
    have hrun : w.run (pre ++ [a]) = some v' := by
      rw [run_append, hv]
      simp [run, hact]
    exact (act_keeps_iff hact (h pre v ((List.prefix_append _ _).trans hpre) hv)).mp (h _ v' hpre hrun)
  · intro ⟨hfirst, hfit⟩ pre
    induction pre using List.reverseRecOn with
    | nil =>
      intro v _ hv
      cases hv
      exact hfirst
    | append_singleton pre a ih =>
      intro v hpre hv
      rw [run_append] at hv
      obtain ⟨u, hu, hv⟩ := Option.bind_eq_some_iff.mp hv
      have hact : u.act a = some v := by simpa [run] using hv
      have hclean := ih u ((List.prefix_append _ _).trans hpre) hu
      exact (act_keeps_iff hact hclean).mpr (hfit pre a u v hpre hu hact)

/-! ## Operations one at a time -/

omit [Crates] [Serde] in
/-- A mutation that does not set the flag leaves the entries as they are. -/
theorem mutated_same {m : Mutation} (h : (w.mutated m).dirty = false) : SameEntries (w.mutated m).inner w.catalog.inner := by
  cases m with
  | put key shards size crc32c metaLen now => cases h
  | addReplica key shardId size metaLen now => cases h
  | tryInsert key shards size now =>
    simp only [mutated, Mutation.apply, Catalog.tryInsert] at h ⊢
    split at h
    · exact .refl _
    · cases h
  | remove key =>
    have hnone : w.catalog.inner.lookup key = none := by simpa [mutated, Mutation.apply, Catalog.remove, Catalog.get] using h
    intro k
    refine (FMap.lookup_erase w.catalog.inner key k).trans ?_
    split
    · next hk => rw [hk, hnone]
    · rfl
  | clear => cases h
  | removeShard key shardId =>
    simp only [mutated, Mutation.apply, Catalog.removeShard] at h ⊢
    split at h
    · exact .refl _
    · split at h <;> cases h
  | removeAllForShard shardId =>
    have hzero : (w.catalog.inner.filterValues fun e => e.shards.contains shardId).entries = [] := by
      simpa [mutated, Mutation.apply, Catalog.removeAllForShard] using h
    intro k
    refine (Catalog.get_removeAllForShard _ k shardId).trans ?_
    show ((w.catalog.inner.lookup k).filter _).map _ = _
    cases hk : w.catalog.inner.lookup k with
    | none => rfl
    | some e =>
      have hno : shardId ∉ e.shards := by
        have hmem : (⟨k, e⟩ : Sigma fun _ : Key => PlacementEntry) ∈ w.catalog.inner.entries := AList.mem_lookup_iff.mp hk
        simpa using List.filter_eq_nil_iff.mp hzero _ hmem
      have hsame : e.shards.filter (· != shardId) = e.shards := by
        refine List.filter_eq_self.mpr fun x hx => ?_
        have hne : x ≠ shardId := fun hxs => hno (hxs ▸ hx)
        simpa using hne
      simp [Option.filter, hno, PlacementEntry.without, hsame]

def Resting (w : CatalogSys) : Prop := ∀ p ∈ w.threads, p = .idle

def wholeOp (i : Nat) (op : CatalogOp) (failed : List (Option (Option Bytes))) : List (Nat × CatalogAct) :=
  (i, .call op) :: failed.map fun f => (i, .next f)

omit [Crates] [Serde] in
theorem getElem?_goto (h : w.threads[i]? = some q) : (w.goto i p).threads[i]? = some p := by
  have hlt := (List.getElem?_eq_some_iff.mp h).1
  show (w.threads.set i p)[i]? = some p
  rw [List.getElem?_set_self hlt]

theorem run_call (hidle : w.threads[i]? = some .idle) (op : CatalogOp) (acts : List (Nat × CatalogAct)) :
    w.run ((i, .call op) :: acts) = (w.call i op).bind fun w' => w'.run acts := by
  simp only [run, act, hidle]

theorem run_next (hp : w.threads[i]? = some p) (hne : p ≠ .idle) (f : Option (Option Bytes)) (acts : List (Nat × CatalogAct)) :
    w.run ((i, .next f) :: acts) = (w.next i f p).bind fun w' => w'.run acts := by
  cases p with
  | idle => exact absurd rfl hne
  | _ => simp only [run, act, hp]

/-- A thread that goes back to rest does nothing more. -/
theorem run_idle (hidle : w.threads[i]? = some .idle) {failed : List (Option (Option Bytes))} {v : CatalogSys}
    (hrun : w.run (failed.map fun f => (i, .next f)) = some v) : v = w := by
  cases failed with
  | nil => exact (Option.some.inj hrun).symm
  | cons f failed => simp [run, act, hidle] at hrun

/-- A thread that is not at rest takes its next step. -/
theorem run_on (hp : w.threads[i]? = some p) (hne : p ≠ .idle) {failed : List (Option (Option Bytes))} {v : CatalogSys}
    (hrun : w.run (failed.map fun f => (i, .next f)) = some v) (hrest : v.Resting) :
    ∃ f, ∃ rest : List (Option (Option Bytes)), ∃ u,
      w.next i f p = some u ∧ u.run (rest.map fun f => (i, .next f)) = some v := by
  cases failed with
  | nil =>
    cases hrun
    exact absurd (hrest p (List.mem_of_getElem? hp)) hne
  | cons f failed =>
    rw [List.map_cons, run_next hp hne] at hrun
    obtain ⟨u, hu, hrun⟩ := Option.bind_eq_some_iff.mp hrun
    exact ⟨f, failed, u, hu, hrun⟩

def Saved (w : CatalogSys) : Prop := w.catalog.dirty = false → w.Holds w.catalog.inner

/-- The last step of an operation that clears the flag. -/
theorem saved_of_cleared {failed : List (Option (Option Bytes))} {v : CatalogSys} (hp : w.threads[i]? = some p)
    (hclears : ∀ f, w.next i f p = some ((w.setDirty false).goto i .idle)) (hne : p ≠ .idle)
    (hrun : w.run (failed.map fun f => (i, .next f)) = some v) (hrest : v.Resting) (h : w.Holds w.catalog.inner) : v.Saved := by
  obtain ⟨f, rest, u, hu, hrun⟩ := run_on hp hne hrun hrest
  rw [hclears] at hu
  cases hu
  rw [run_idle (getElem?_goto (w := w.setDirty false) hp) hrun]
  exact fun _ => h

theorem saved_of_written {failed : List (Option (Option Bytes))} {v : CatalogSys} {data : Bytes}
    (hp : w.threads[i]? = some .written) (htmp : w.tmp = some data) (hdata : w.persistence.encode w.catalog.inner = some data)
    (hrun : w.run (failed.map fun f => (i, .next f)) = some v) (hrest : v.Resting) (h : w.Saved) : v.Saved := by
  obtain ⟨f, rest, u, hu, hrun⟩ := run_on hp (by simp) hrun hrest
  cases f with
  | some left =>
    cases hu
    rw [run_idle (getElem?_goto hp) hrun]
    exact h
  | none =>
    simp only [next, htmp] at hu
    cases hu
    have hp1 : ({ w with file := some data, tmp := none }.goto i .renamed).threads[i]? = some .renamed := getElem?_goto hp
    refine saved_of_cleared hp1 (fun _ => rfl) (by simp) hrun hrest ?_
    exact CatalogPersistence.load_encode hdata

theorem saved_of_serialized {failed : List (Option (Option Bytes))} {v : CatalogSys} {data : Bytes}
    (hp : w.threads[i]? = some (.serialized data)) (hdata : w.persistence.encode w.catalog.inner = some data)
    (hrun : w.run (failed.map fun f => (i, .next f)) = some v) (hrest : v.Resting) (h : w.Saved) : v.Saved := by
  obtain ⟨f, rest, u, hu, hrun⟩ := run_on hp (by simp) hrun hrest
  cases f with
  | some left =>
    cases hu
    have hp1 : ({ w with tmp := left }.goto i .idle).threads[i]? = some .idle := getElem?_goto hp
    rw [run_idle hp1 hrun]
    exact h
  | none =>
    cases hu
    have hp1 : ({ w with tmp := some data }.goto i .written).threads[i]? = some .written := getElem?_goto hp
    exact saved_of_written hp1 rfl hdata hrun hrest h

/-- A save that no other thread disturbs. -/
theorem saved_of_saving {failed : List (Option (Option Bytes))} {v : CatalogSys} (hp : w.threads[i]? = some .saving)
    (hkind : w.persistence ≠ .none) (hrun : w.run (failed.map fun f => (i, .next f)) = some v) (hrest : v.Resting)
    (h : w.Saved) : v.Saved := by
  obtain ⟨f, rest, u, hu, hrun⟩ := run_on hp (by simp) hrun hrest
  obtain ⟨data, hdata⟩ : ∃ data, w.persistence.encode w.catalog.inner = some data := by
    cases hpers : w.persistence with
    | none => exact absurd hpers hkind
    | _ => exact ⟨_, rfl⟩
  simp only [next, hdata] at hu
  split at hu
  · cases hu
  · cases hu
    exact saved_of_serialized (getElem?_goto hp) hdata hrun hrest h

/-- One operation, to its end, with no step of another thread. -/
theorem saved_of_wholeOp {failed : List (Option (Option Bytes))} {op : CatalogOp} {v : CatalogSys}
    (hidle : w.threads[i]? = some .idle)
    (hkind : w.persistence ≠ .none) (hrun : w.run (wholeOp i op failed) = some v) (hrest : v.Resting) (h : w.Saved)
    (hop : ∀ newMap, op = .rebuildCatalog newMap → w.Holds newMap) : v.Saved := by
  rw [wholeOp, run_call hidle] at hrun
  obtain ⟨u, hu, hrun⟩ := Option.bind_eq_some_iff.mp hrun
  cases op with
  | mutate m =>
    simp only [call] at hu
    split at hu
    · cases hu
    · cases hu
      cases hmarks : (w.mutated m).dirty with
      | true =>
        rw [hmarks] at hrun
        have hp1 : ((w.setInner (w.mutated m).inner).goto i (.marking m.marksUnderLock)).threads[i]? =
            some (.marking m.marksUnderLock) := getElem?_goto hidle
        obtain ⟨f, rest, u, hu, hrun⟩ := run_on hp1 (by simp) hrun hrest
        cases hu
        have hp2 : ((((w.setInner (w.mutated m).inner).goto i (.marking m.marksUnderLock)).setDirty true).goto i
            .idle).threads[i]? = some .idle := by
          refine getElem?_goto (q := .marking m.marksUnderLock) (w := CatalogSys.setDirty _ true) ?_
          exact hp1
        rw [run_idle hp2 hrun]
        exact fun hclean => absurd hclean (by simp [setDirty, goto])
      | false =>
        rw [hmarks] at hrun
        have hp1 : ((w.setInner (w.mutated m).inner).goto i .idle).threads[i]? = some .idle := getElem?_goto hidle
        rw [run_idle hp1 hrun]
        intro hclean
        obtain ⟨m', hm', hsame⟩ := h hclean
        exact ⟨m', hm', hsame.trans (mutated_same hmarks).symm⟩
  | saveCatalog =>
    cases hu
    exact saved_of_saving (getElem?_goto hidle) hkind hrun hrest h
  | saveCatalogIfDirty =>
    simp only [call] at hu
    split at hu
    · cases hu
      exact saved_of_saving (getElem?_goto hidle) hkind hrun hrest h
    · cases hu
      rw [run_idle hidle hrun]
      exact h
  | loadCatalog =>
    simp only [call] at hu
    split at hu
    · next m hm =>
      cases hu
      have hp1 : (w.goto i (.loaded m)).threads[i]? = some (.loaded m) := getElem?_goto hidle
      obtain ⟨f, rest, u, hu, hrun⟩ := run_on hp1 (by simp) hrun hrest
      simp only [next] at hu
      split at hu
      · cases hu
      · cases hu
        have hp2 : (((w.goto i (.loaded m)).setInner m).goto i .loadedInto).threads[i]? = some .loadedInto := getElem?_goto hp1
        exact saved_of_cleared hp2 (fun _ => rfl) (by simp) hrun hrest ⟨m, hm, .refl m⟩
    · cases hu
      rw [run_idle hidle hrun]
      exact h
  | rebuildCatalog newMap =>
    simp only [call] at hu
    split at hu
    · cases hu
    · cases hu
      have hp1 : ((w.setInner newMap).goto i .replaced).threads[i]? = some .replaced := getElem?_goto hidle
      obtain ⟨f, rest, u, hu, hrun⟩ := run_on hp1 (by simp) hrun hrest
      cases hu
      have hp2 : ((((w.setInner newMap).goto i .replaced).setDirty true).goto i .rebuilt).threads[i]? = some .rebuilt :=
        getElem?_goto (w := ((w.setInner newMap).goto i .replaced).setDirty true) hp1
      exact saved_of_cleared hp2 (fun _ => rfl) (by simp) hrun hrest (hop newMap rfl)

/-- Operations one after the other, each to its end; a rebuild finds what the file holds. -/
inductive OneAtATime : CatalogSys → CatalogSys → Prop
  | start (w : CatalogSys) : OneAtATime w w
  | op {w u v : CatalogSys} {i : Nat} {op : CatalogOp} {failed : List (Option (Option Bytes))} (h : OneAtATime w u)
      (hrun : u.run (wholeOp i op failed) = some v) (hrest : v.Resting)
      (hop : ∀ newMap, op = .rebuildCatalog newMap → u.Holds newMap) : OneAtATime w v

theorem call_persistence {op : CatalogOp} {w' : CatalogSys} (h : w.call i op = some w') : w'.persistence = w.persistence := by
  cases op with
  | mutate m =>
    simp only [call] at h
    split at h <;> cases h
    rfl
  | saveCatalog =>
    cases h
    rfl
  | saveCatalogIfDirty =>
    simp only [call] at h
    split at h <;> cases h <;> rfl
  | loadCatalog =>
    simp only [call] at h
    split at h <;> cases h <;> rfl
  | rebuildCatalog newMap =>
    simp only [call] at h
    split at h <;> cases h
    rfl

theorem next_persistence {failed : Option (Option Bytes)} {w' : CatalogSys} (h : w.next i failed p = some w') :
    w'.persistence = w.persistence := by
  cases p with
  | idle => cases h
  | saving =>
    simp only [next] at h
    split at h
    · cases h
    · split at h <;> cases h <;> rfl
  | serialized data => cases failed <;> cases h <;> rfl
  | written =>
    simp only [next] at h
    split at h <;> cases h <;> rfl
  | loaded m =>
    simp only [next] at h
    split at h <;> cases h
    rfl
  | _ =>
    cases h
    rfl

theorem act_persistence {a : Nat × CatalogAct} {w' : CatalogSys} (h : w.act a = some w') : w'.persistence = w.persistence := by
  unfold act at h
  split at h
  · exact call_persistence h
  · cases h
  · exact next_persistence h
  · cases h

theorem run_persistence {acts : List (Nat × CatalogAct)} {v : CatalogSys} (h : w.run acts = some v) :
    v.persistence = w.persistence := by
  induction acts generalizing w with
  | nil =>
    cases h
    rfl
  | cons a acts ih =>
    obtain ⟨u, hu, hv⟩ := Option.bind_eq_some_iff.mp h
    exact (ih hv).trans (act_persistence hu)

omit [Crates] [Serde] in
/-- At rest no save is in progress. -/
theorem not_saveInProgress (h : w.Resting) : ¬ w.SaveInProgress := by
  intro hsave
  obtain ⟨p, hp, hin⟩ := hsave
  rw [h p hp] at hin
  cases hin

/-- Where the operations wait for each other, the rule holds after each of them. -/
theorem one_at_a_time_saved {v : CatalogSys} (hrun : OneAtATime w v) (hkind : w.persistence ≠ .none) (hrest : w.Resting)
    (h : w.CleanIsSaved) : v.CleanIsSaved := by
  have hsaved : v.Saved ∧ v.persistence = w.persistence := by
    induction hrun with
    | start => exact ⟨fun hclean => h hclean (not_saveInProgress hrest), rfl⟩
    | @op u v i op failed _ hrun hrest hop ih =>
      obtain ⟨hsaved, hpers⟩ := ih
      have hidle : u.threads[i]? = some .idle := by
        obtain ⟨u', hu', -⟩ := Option.bind_eq_some_iff.mp hrun
        unfold act at hu'
        split at hu'
        · assumption
        · cases hu'
        · next heq => cases heq
        · cases hu'
      refine ⟨saved_of_wholeOp hidle ?_ hrun hrest hsaved hop, (run_persistence hrun).trans hpers⟩
      rw [hpers]
      exact hkind
  exact fun hclean _ => hsaved.1 hclean

end CatalogSys

/-! ## A mutation behind the snapshot -/

namespace Sample

open ObjStr.Raw.Sample (Code)

def placement : Code PlacementEntry :=
  .iso (.pair (.list .nat) (.pair .nat (.pair (.list (.ofWire Wire.u32)) (.pair .nat .u16))))
    (fun x => ⟨x.1, x.2.1, x.2.2.1.head?, x.2.2.2.1, x.2.2.2.2⟩)
    (fun e => (e.shards, e.size, e.crc32c.toList, e.updated, e.metaLen)) (by intro e; cases h : e.crc32c <;> cases e <;> simp_all)

def sorted (m : FMap PlacementEntry) : List (Sigma fun _ : Key => PlacementEntry) :=
  m.entries.mergeSort fun a b => decide (a.1 ≤ b.1)

theorem sorted_congr {m m' : FMap PlacementEntry} (h : SameEntries m m') : sorted m = sorted m' := by
  have hperm : m.entries.Perm m'.entries := List.lookup_ext m.nodupKeys m'.nodupKeys fun k e => by
    have hk : List.dlookup k m.entries = List.dlookup k m'.entries := h k
    rw [hk]
  have hle : ∀ l : List (Sigma fun _ : Key => PlacementEntry),
      (l.mergeSort fun a b => decide (a.1 ≤ b.1)).Pairwise fun a b => a.1 ≤ b.1 := by
    intro l
    refine (List.pairwise_mergeSort (fun a b c hab hbc => ?_) (fun a b => ?_) l).imp fun h => of_decide_eq_true h
    · exact decide_eq_true ((of_decide_eq_true hab).trans (of_decide_eq_true hbc))
    · simpa using le_total a.1 b.1
  have hsort : (sorted m).Perm (sorted m') := (List.mergeSort_perm _ _).trans (hperm.trans (List.mergeSort_perm _ _).symm)
  refine hsort.eq_of_pairwise (fun a b ha hb hab hba => ?_) (hle _) (hle _)
  -- two entries of one key are one
  have hb' : b ∈ m.entries := hperm.symm.subset ((List.mergeSort_perm _ _).subset hb)
  have ha' : a ∈ m.entries := (List.mergeSort_perm _ _).subset ha
  exact m.nodupKeys.eq_of_fst_eq ha' hb' (le_antisymm hab hba)

scoped instance serde : Serde where
  toJson m := (Code.list (Code.entry placement)).put (sorted m)
  toJson_congr m m' h := by rw [sorted_congr h]
  envelope checksum m := (Code.pair (.ofWire Wire.u32) (Code.map placement)).put (checksum, m)
  parseEnvelope b := ((Code.pair (.ofWire Wire.u32) (Code.map placement)).take b).map (·.1)
  parse_envelope checksum m := ⟨m, by
    have h := (Code.pair (.ofWire Wire.u32) (Code.map placement)).take_put (checksum, m) []
    rw [List.append_nil] at h
    rw [h]
    rfl, .refl m⟩
  fromJson b := ((Code.map placement).take b).map (·.1)
  toBincode := (Code.map placement).put
  fromBincode b := ((Code.map placement).take b).map (·.1)
  from_toBincode m := ⟨m, by
    have h := (Code.map placement).take_put m []
    rw [List.append_nil] at h
    rw [h]
    rfl, .refl m⟩

end Sample

def twoThreads : CatalogSys := ⟨.bincode, ⟨∅, false⟩, none, none, [.idle, .idle]⟩

/-- The first thread saves; the second puts `"k"` after the snapshot. -/
def putBehindSnapshot : List (Nat × CatalogAct) :=
  [(0, .call .saveCatalog), (0, .next none), (1, .call (.mutate (.put "k" [0] 3 none 0 0))), (1, .next none),
    (0, .next none), (0, .next none), (0, .next none)]

/-- The map has the key, the file holds the snapshot. -/
theorem run_putBehindSnapshot [Crates] [Serde] : twoThreads.run putBehindSnapshot =
    some ⟨.bincode, ⟨(∅ : FMap PlacementEntry).set "k" ⟨[0], 3, none, 0, 0⟩, false⟩,
      CatalogPersistence.bincode.encode ∅, none, [.idle, .idle]⟩ := rfl

open Sample Raw.Sample in
/-- The rule held at first; in the end the flag is clear, all threads rest, and the file does not
    have the key. -/
theorem a_put_behind_the_snapshot_is_lost :
    twoThreads.CleanIsSaved ∧ ∃ v, twoThreads.run putBehindSnapshot = some v ∧ v.Resting ∧ v.catalog.dirty = false ∧
      (v.catalog.get "k").isSome ∧ ¬ v.CleanIsSaved := by
  refine ⟨fun _ _ => ⟨∅, rfl, .refl ∅⟩, _, run_putBehindSnapshot, ?_, rfl, rfl, fun h => ?_⟩
  · simp [CatalogSys.Resting]
  · obtain ⟨m, hm, hsame⟩ := h rfl (by simp [CatalogSys.SaveInProgress, Phase.inSave])
    -- the file is the snapshot's
    obtain ⟨m', hm', hempty⟩ := CatalogPersistence.load_encode (p := .bincode) rfl
    have heq : m = m' := Except.ok.inj (hm.symm.trans hm')
    rw [heq] at hsame
    have hk := (hempty "k").symm.trans (hsame "k")
    cases hk

end ObjStr.Sharded
