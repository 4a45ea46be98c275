/-
  ObjStr.Raw.Reload — `reload_index` when it fails (`store.rs`).

  A reload reads the superblock, and then the shards whose slots differ from those in memory, one after the other. The
  entries of a shard leave the maps before its slot is read, and the superblock in memory is changed only after the last
  one. So when a read fails, the shards read before it have been replaced, and the one that was to be read is gone
  (`wp_reloadIndex`); superblock, allocator and flags are as they were.
  - `reload_keeps_index_iff`: a reload that fails leaves the index as it was if and only if the shard it stopped at had
    no entries, and the shards read before it hold what the maps had (`NothingLost`).
  - `a_failed_reload_drops_a_shard`: a reader whose read of a slot fails has lost the keys of the shard.

  Opening a device reads the same shards into maps of its own, and fails as a whole.
-/

import ObjStr.Raw.Reachable

namespace ObjStr.Raw

open ObjStr.Lib DeviceIo

section Reloads

variable [Crates]

/-! ## What a failed reload should leave -/

/-- The index, the superblock, the allocator and the dirty flags are those of before. -/
structure IndexKept (s s' : Store) : Prop where
  files : ∀ k, s'.files.lookup k = s.files.lookup k
  tombstones : ∀ k, s'.tombstones.lookup k = s.tombstones.lookup k
  superblock : s'.superblock = s.superblock
  allocator : s'.allocator = s.allocator
  dirty : s'.dirty = s.dirty
  shardDirty : s'.shardDirty = s.shardDirty

/-- A reload that fails changes nothing. -/
def Store.ReloadsWhole (s : Store) : Prop := ∀ e s', reloadIndex.exec s = (.error e, s') → IndexKept s s'

/-! ## What the device answers -/

def Store.changedShards (s : Store) (newSb : Superblock) : List (Fin numShards) :=
  (List.finRange numShards).filter fun i => s.superblock.shardSlots i ≠ newSb.shardSlots i

def Store.readNew (s : Store) (newSb : Superblock) (i : Fin numShards) : IoM ShardData :=
  readShard s.indexRegionA s.indexRegionB s.shardSlotSize (newSb.shardSlots i) i

/-- What the device answers when these shards are read in turn: the shards up to the first read that fails, and
    the shard whose read that is. -/
def Store.answers (s : Store) (newSb : Superblock) : List (Fin numShards) → DeviceIo →
    List (Fin numShards × ShardData) × Option (Fin numShards)
  | [], _ => ([], none)
  | i :: rest, io =>
    match (s.readNew newSb i).exec io with
    | (.ok d, io') => let r := s.answers newSb rest io'; ((i, d) :: r.1, r.2)
    | (.error _, _) => ([], some i)

/-- A shard has something to say of a key: it holds the key, or is the shard of the key. -/
def Concerns {V : Type} (k : Key) (m : Fin numShards × FMap V) : Bool := (m.2.lookup k).isSome || shardForKey k = m.1

/-- Nothing is lost of a map when the shard `failed` is dropped from it after these have been read: it had no entry of
    that shard, and what was read last of any other key is what the map had. -/
structure MapKept {V : Type} (m : FMap V) (read : List (Fin numShards × FMap V)) (failed : Fin numShards) : Prop where
  dropped : ∀ k, shardForKey k = failed → m.lookup k = none
  replaced : ∀ k, shardForKey k ≠ failed → ∀ r, read.reverse.find? (Concerns k) = some r → r.2.lookup k = m.lookup k

/-- No reload is under way that fails, or what it would lose is nothing. -/
def Store.NothingLost (s : Store) : Prop :=
  ∀ newSb io failed, primaryOrBackup.exec s.io = (.ok newSb, io) → newSb.txnId ≠ s.superblock.txnId →
    (s.answers newSb (s.changedShards newSb) io).2 = some failed →
    MapKept s.files ((s.answers newSb (s.changedShards newSb) io).1.map fun r => (r.1, r.2.files)) failed ∧
    MapKept s.tombstones ((s.answers newSb (s.changedShards newSb) io).1.map fun r => (r.1, r.2.tombstones)) failed

/-! ## Shards that are replaced -/

def Store.replaceShard (s : Store) (r : Fin numShards × ShardData) : Store := (s.clearShard r.1).addShard r.2

def FMap.replaceShard {V : Type} (m : FMap V) (r : Fin numShards × FMap V) : FMap V :=
  (m.filterKeys fun k => shardForKey k ≠ r.1).extend r.2

theorem FMap.lookup_replaceShard {V : Type} (m : FMap V) (r : Fin numShards × FMap V) (k : Key) :
    (m.replaceShard r).lookup k = if Concerns k r then r.2.lookup k else m.lookup k := by
  unfold FMap.replaceShard Concerns
  rw [FMap.lookup_extend, FMap.lookup_filterKeys]
  cases h : r.2.lookup k with
  | some v => simp
  | none =>
    by_cases hk : shardForKey k = r.1
    · simp [hk]
    · simp [hk]

/-- The last shard that concerns a key decides. -/
theorem FMap.lookup_replaceShards {V : Type} (m : FMap V) (read : List (Fin numShards × FMap V)) (k : Key) :
    (read.foldl FMap.replaceShard m).lookup k =
      match read.reverse.find? (Concerns k) with
      | some r => r.2.lookup k
      | none => m.lookup k := by
  induction read using List.reverseRecOn with
  | nil => rfl
  | append_singleton read r ih =>
    rw [List.foldl_append, List.foldl_cons, List.foldl_nil, FMap.lookup_replaceShard, ih, List.reverse_append,
      List.reverse_singleton, List.singleton_append, List.find?_cons]
    cases Concerns k r <;> rfl

/-- Replacing shards and dropping one keeps a map exactly if nothing is lost of it. -/
theorem FMap.lookup_dropped_iff {V : Type} (m : FMap V) (read : List (Fin numShards × FMap V)) (failed : Fin numShards) :
    (∀ k, ((read.foldl FMap.replaceShard m).filterKeys fun k => shardForKey k ≠ failed).lookup k = m.lookup k) ↔
      MapKept m read failed := by
  constructor
  · intro h
    refine ⟨fun k hk => ?_, fun k hk r hr => ?_⟩
    · rw [← h k, FMap.lookup_filterKeys]
      simp [hk]
    · have hk' := h k
      rw [FMap.lookup_filterKeys, FMap.lookup_replaceShards, hr] at hk'
      simpa [hk] using hk'
  · intro h k
    rw [FMap.lookup_filterKeys, FMap.lookup_replaceShards]
    by_cases hk : shardForKey k = failed
    · simp [hk, h.dropped k hk]
    · simp only [ne_eq, hk, not_false_eq_true, decide_true, if_true]
      cases hr : read.reverse.find? (Concerns k) with
      | none => rfl
      | some r => exact h.replaced k hk r hr

/-! ## A reload that fails -/

/-- The maps of a store whose shards are replaced one by one. -/
theorem replaceShards_maps (s : Store) (read : List (Fin numShards × ShardData)) :
    (read.foldl Store.replaceShard s).files = (read.map fun r => (r.1, r.2.files)).foldl FMap.replaceShard s.files ∧
      (read.foldl Store.replaceShard s).tombstones =
        (read.map fun r => (r.1, r.2.tombstones)).foldl FMap.replaceShard s.tombstones := by
  induction read generalizing s with
  | nil => exact ⟨rfl, rfl⟩
  | cons r read ih => exact ih (s.replaceShard r)

/-- Nothing but the maps is replaced. -/
theorem replaceShards_frame (s : Store) (read : List (Fin numShards × ShardData)) :
    read.foldl Store.replaceShard s =
      { s with files := (read.foldl Store.replaceShard s).files, tombstones := (read.foldl Store.replaceShard s).tombstones } := by
  induction read generalizing s with
  | nil => rfl
  | cons r read ih =>
    rw [List.foldl_cons, ih]
    rfl

/-- The loop of a reload, from where `read` has been replaced: it ends if every read succeeds, and else with the
    shard gone whose read failed. -/
theorem wp_reloadShards (s : Store) (newSb : Superblock) (l : List (Fin numShards)) (read : List (Fin numShards × ShardData))
    (io : DeviceIo) :
    Prog.wp (l.forM (reloadShard newSb))
      (fun _ _ => (s.answers newSb (l.filter fun i => s.superblock.shardSlots i ≠ newSb.shardSlots i) io).2 = none)
      (fun _ s' => ∃ failed io',
        (s.answers newSb (l.filter fun i => s.superblock.shardSlots i ≠ newSb.shardSlots i) io).2 = some failed ∧
        s' = (((read ++ (s.answers newSb (l.filter fun i => s.superblock.shardSlots i ≠ newSb.shardSlots i) io).1).foldl
          Store.replaceShard s).clearShard failed).withIo io')
      ((read.foldl Store.replaceShard s).withIo io) := by
  induction l generalizing read io with
  | nil => exact rfl
  | cons i l ih =>
    have hframe := replaceShards_frame s read
    have hslots : ((read.foldl Store.replaceShard s).withIo io).superblock = s.superblock := by rw [hframe]; rfl
    show Prog.wp (reloadShard newSb i >>= fun _ => l.forM (reloadShard newSb)) _ _ _
    rw [Prog.wp_bind]
    unfold reloadShard
    rw [Prog.wp_bind, Prog.wp_get, hslots]
    by_cases hi : s.superblock.shardSlots i = newSb.shardSlots i
    · rw [if_pos hi, Prog.wp_pure, List.filter_cons_of_neg (by simp [hi])]
      exact ih read io
    · have hread : readShard ((read.foldl Store.replaceShard s).withIo io).indexRegionA
          ((read.foldl Store.replaceShard s).withIo io).indexRegionB ((read.foldl Store.replaceShard s).withIo io).shardSlotSize
          (newSb.shardSlots i) i = s.readNew newSb i := by
        rw [hframe]
        rfl
      rw [if_neg hi, Prog.wp_bind, Prog.wp_modify, Prog.wp_bind, hread, wp_onDevice, List.filter_cons_of_pos (by simp [hi])]
      unfold Store.answers
      cases hr : (s.readNew newSb i).exec io with
      | mk r io' =>
        cases r with
        | error e =>
          refine (Prog.wp_of_error hr).mpr ⟨i, io', rfl, ?_⟩
          rw [List.append_nil]
          rfl
        | ok d =>
          have hnext := ih (read ++ [(i, d)]) io'
          have hstep : (read ++ [(i, d)]).foldl Store.replaceShard s = (read.foldl Store.replaceShard s).replaceShard (i, d) := by
            rw [List.foldl_append]
            rfl
          rw [hstep] at hnext
          simp only [List.append_assoc, List.singleton_append] at hnext
          exact (Prog.wp_of_ok hr).mpr hnext

/-- A reload returns only if every shard was read; else it leaves the store with the shards replaced that were read
    before, and without the one whose read failed. -/
theorem wp_reloadIndex (s : Store) :
    Prog.wp reloadIndex
      (fun _ _ => ∀ newSb io, primaryOrBackup.exec s.io = (.ok newSb, io) → newSb.txnId ≠ s.superblock.txnId →
        (s.answers newSb (s.changedShards newSb) io).2 = none)
      (fun e s' => (∃ io, primaryOrBackup.exec s.io = (.error e, io) ∧ s' = s.withIo io) ∨
        ∃ newSb io failed io', primaryOrBackup.exec s.io = (.ok newSb, io) ∧ newSb.txnId ≠ s.superblock.txnId ∧
          (s.answers newSb (s.changedShards newSb) io).2 = some failed ∧
          s' = (((s.answers newSb (s.changedShards newSb) io).1.foldl Store.replaceShard s).clearShard failed).withIo io') s := by
  unfold reloadIndex
  rw [Prog.wp_bind, wp_onDevice]
  cases hsb : primaryOrBackup.exec s.io with
  | mk r io =>
    cases r with
    | error e => exact (Prog.wp_of_error hsb).mpr (.inl ⟨io, rfl, rfl⟩)
    | ok newSb =>
      rw [Prog.wp_of_ok hsb, Prog.wp_bind, Prog.wp_get]
      by_cases htxn : newSb.txnId = s.superblock.txnId
      · rw [if_pos (show newSb.txnId = (s.withIo io).superblock.txnId from htxn), Prog.wp_pure]
        intro newSb' io' h hne
        cases h
        exact absurd htxn hne
      · rw [if_neg (show newSb.txnId ≠ (s.withIo io).superblock.txnId from htxn), Prog.wp_bind]
        refine Prog.wp_mono (wp_reloadShards s newSb (List.finRange numShards) [] io) ?_ ?_
        · intro _ s' hnone
          rw [Prog.wp_bind, Prog.wp_modify, Prog.wp_pure]
          intro newSb' io' h _
          cases h
          exact hnone
        · intro e s' h
          obtain ⟨failed, io', hfailed, hs'⟩ := h
          exact .inr ⟨newSb, io, failed, io', rfl, htxn, hfailed, hs'⟩

/-- The store that a reload leaves is the one before exactly if its maps are. -/
theorem indexKept_iff (s : Store) (read : List (Fin numShards × ShardData)) (failed : Fin numShards) (io : DeviceIo) :
    IndexKept s (((read.foldl Store.replaceShard s).clearShard failed).withIo io) ↔
      MapKept s.files (read.map fun r => (r.1, r.2.files)) failed ∧
        MapKept s.tombstones (read.map fun r => (r.1, r.2.tombstones)) failed := by
  obtain ⟨hfiles, htombstones⟩ := replaceShards_maps s read
  have hframe := replaceShards_frame s read
  rw [← FMap.lookup_dropped_iff, ← FMap.lookup_dropped_iff, ← hfiles, ← htombstones]
  constructor
  · intro h
    exact ⟨h.files, h.tombstones⟩
  · intro h
    refine ⟨h.1, h.2, ?_, ?_, ?_, ?_⟩ <;> (rw [hframe]; rfl)

/-- A reload that fails leaves the index as it was if and only if the shard it stopped at had nothing to lose, and the
    shards before it nothing new. -/
theorem reload_keeps_index_iff (s : Store) : s.ReloadsWhole ↔ s.NothingLost := by
  have hspec := wp_reloadIndex s
  constructor
  · intro h newSb io failed hsb htxn hfailed
    cases hr : reloadIndex.exec s with
    | mk r s' =>
      cases r with
      | ok _ =>
        have hnone := Prog.wp_ok hspec hr newSb io hsb htxn
        rw [hfailed] at hnone
        cases hnone
      | error e =>
        obtain ⟨io', hsb', _⟩ | ⟨newSb', io', failed', io'', hsb', _, hfailed', hs'⟩ := Prog.wp_error hspec hr
        · rw [hsb] at hsb'
          cases hsb'
        · rw [hsb] at hsb'
          cases hsb'
          rw [hfailed] at hfailed'
          cases hfailed'
          have hkept := h e s' hr
          rw [hs'] at hkept
          exact (indexKept_iff s _ failed io'').mp hkept
  · intro h e s' hr
    obtain ⟨io, _, hs'⟩ | ⟨newSb, io, failed, io', hsb, htxn, hfailed, hs'⟩ := Prog.wp_error hspec hr
    · rw [hs']
      exact ⟨fun _ => rfl, fun _ => rfl, rfl, rfl, rfl, rfl⟩
    · rw [hs']
      exact (indexKept_iff s _ failed io').mpr (h newSb io failed hsb htxn hfailed)

end Reloads

/-! ## A read that fails -/

open Sample

def Sample.flushed (key : Key) : Superblock :=
  { options.superblock.next 2 with
    shardSlots := fun i => if i = shardForKey key then ⟨1, 100, 0⟩ else options.superblock.shardSlots i }

/-- A reader of the transaction before, that lists the key; its device reads the superblock and fails to read more. -/
def Sample.reader (key : Key) : Store :=
  { options.newStore ⟨(⟨options.deviceSize, fun _ => 0⟩ : Disk).write 0 (flushed key).bytes fun _ => true, false, true,
      [.done, .failed fun _ => false], []⟩ with
    readOnly := true
    files := (∅ : FMap ExtentInfo).insert key ⟨dataStart, 1, blockAlignment, 0, 1, 0, 0, 0⟩ }

def Sample.worn (key : Key) : DeviceIo := { (reader key).io with script := [.failed fun _ => false] }

theorem Sample.primary_of_reader (key : Key) : primaryOrBackup.exec (reader key).io = (.ok (flushed key).stored, worn key) := by
  have hread : (reader key).io.dev.read 0 superblockSize = (flushed key).bytes := by
    have h := Disk.read_write_same ⟨options.deviceSize, fun _ => 0⟩ 0 (flushed key).bytes
    rwa [Superblock.length_bytes] at h
  have hpread : (DeviceIo.pread 0 superblockSize).exec (reader key).io = (.ok (flushed key).bytes, worn key) := by
    rw [← hread]
    rfl
  have hplace : (readSuperblock 0).exec (reader key).io = (.ok (.ok (flushed key).stored), worn key) := by
    unfold readSuperblock
    rw [Prog.exec_bind, hpread]
    show (Except.ok (Superblock.fromBytes ((flushed key).image (flushed key).checksum)), worn key) = _
    rw [fromBytes_image (flushed key) rfl rfl (show options.superblock.blockAlignment ≠ 0 by decide)]
    rfl
  unfold primaryOrBackup
  rw [Prog.exec_bind, hplace]
  rfl

/-- One slot is another one. -/
theorem Sample.changedShards_of_reader (key : Key) : (reader key).changedShards (flushed key).stored = [shardForKey key] := by
  have hslots : ∀ i, ((reader key).superblock.shardSlots i ≠ (flushed key).stored.shardSlots i) ↔ i = shardForKey key := by
    intro i
    show options.superblock.shardSlots i ≠ (if i = shardForKey key then ⟨1, 100, 0⟩ else options.superblock.shardSlots i) ↔ _
    by_cases hi : i = shardForKey key
    · rw [if_pos hi]
      refine iff_of_true (fun h => ?_) hi
      have hzero : (options.superblock.shardSlots i).activeSlot = 0 := rfl
      rw [h] at hzero
      exact absurd hzero (by decide)
    · rw [if_neg hi]
      exact iff_of_false (fun h => h rfl) hi
  unfold Store.changedShards
  simp only [hslots]
  rw [List.filter_eq, List.count_eq_one_of_mem (List.nodup_finRange _) (List.mem_finRange _)]
  rfl

/-- The reader's key is gone, and the superblock is still the old one. -/
theorem a_failed_reload_drops_a_shard : ¬ ∀ s : Store, s.ReloadsWhole := by
  intro h
  have hspec := wp_reloadIndex (reader "k")
  have hanswers : (reader "k").answers (flushed "k").stored ((reader "k").changedShards (flushed "k").stored) (worn "k") =
      ([], some (shardForKey "k")) := by
    rw [changedShards_of_reader]
    rfl
  cases hr : reloadIndex.exec (reader "k") with
  | mk r s' =>
    cases r with
    | ok _ =>
      have hnone := Prog.wp_ok hspec hr _ _ (primary_of_reader "k") (by decide)
      rw [hanswers] at hnone
      cases hnone
    | error e =>
      obtain ⟨io, hsb, _⟩ | ⟨newSb, io, failed, io', hsb, _, hfailed, hs'⟩ := Prog.wp_error hspec hr
      · rw [primary_of_reader] at hsb
        cases hsb
      · rw [primary_of_reader] at hsb
        cases hsb
        have hkept := h _ e s' hr
        rw [hs', hanswers, indexKept_iff] at hkept
        rw [hanswers] at hfailed
        cases hfailed
        have hlookup : (reader "k").files.lookup "k" = some _ := AList.lookup_insert _
        rw [hkept.1.dropped "k" rfl] at hlookup
        cases hlookup

end ObjStr.Raw
