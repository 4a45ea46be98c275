/-
  ObjStr.Raw.Tombstones — live files and tombstones (`store.rs`).

  An open that finds a stale entry removes it and records a tombstone, for an orchestrator to restore the object from a
  backup. A put, a write from a file, a metadata update and a completed upload clear the tombstone of the key they make
  live. A copy and a rename do not: `do_copy`, `rename` and `rename_if_not_exists` put the entry in the index and leave
  the tombstone where it is.
  - `Op.apart_iff`: a call keeps live files and tombstones apart if and only if it does not copy or move an entry onto
    a tombstone (`Op.Clears`).
  - `tombstones_stay_apart`: in a run of such calls no listed tombstone is of a live file, and each can be deleted.
  - `a_rename_leaves_the_tombstone`: a rename onto a tombstone; `delete_tombstone` then refuses to remove it.
-/

import ObjStr.Raw.Image

namespace ObjStr.Raw

open ObjStr.Lib DeviceIo

section Tombstones

variable [Crates] {care : Care} {s s' : Store}

/-! ## The list of tombstones -/

structure TombstoneEntry where
  path : Key
  size : Nat
  crc32c : UInt32
  lastModified : DateTime
  reason : String
  tombstoneTxn : UInt64

def Store.listTombstones (s : Store) : List TombstoneEntry :=
  (s.tombstones.entries.map fun e =>
    { path := e.1, size := e.2.size, crc32c := e.2.crc32c, lastModified := e.2.lastModified, reason := e.2.reason,
      tombstoneTxn := e.2.tombstoneTxn }).insertionSort fun a b => a.path ≤ b.path

omit [Crates] in
theorem Store.mem_listTombstones (s : Store) (k : Key) :
    (∃ e ∈ s.listTombstones, e.path = k) ↔ (s.tombstones.lookup k).isSome := by
  unfold Store.listTombstones
  constructor
  · intro h
    obtain ⟨e, he, rfl⟩ := h
    rw [List.mem_insertionSort, List.mem_map] at he
    obtain ⟨x, hx, rfl⟩ := he
    have hlook : s.tombstones.lookup x.1 = some x.2 := AList.mem_lookup_iff.mpr hx
    show (s.tombstones.lookup x.1).isSome
    rw [hlook]
    rfl
  · intro h
    obtain ⟨info, hk⟩ := Option.isSome_iff_exists.mp h
    refine ⟨_, (List.mem_insertionSort _).mpr (List.mem_map_of_mem (AList.mem_lookup_iff.mp hk)), rfl⟩

/-! ## Apart -/

/-- No live file has a tombstone. -/
def Store.Apart (s : Store) : Prop := ∀ k info, s.files.lookup k = some info → s.tombstones.lookup k = none

omit [Crates] in
theorem Store.Apart.of_eq (h : s.Apart) (hf : s'.files = s.files) (ht : s'.tombstones = s.tombstones) : s'.Apart := by
  intro k info hk
  rw [hf] at hk
  rw [ht]
  exact h k info hk

omit [Crates] in
theorem Prep.apart {held : List Span} (hp : Prep care s held s') (h : s.Apart) : s'.Apart :=
  h.of_eq hp.files_eq (by rw [hp.eq])

omit [Crates] in
theorem apart_removeFile (h : s.Apart) (k : Key) : (s.removeFile k).Apart := by
  intro k' info hk
  rw [tombstones_removeFile]
  exact h k' info (lookup_removeFile_some hk)

theorem tombstones_dropParts (s : Store) (ks : List Key) : (s.dropParts ks).tombstones = s.tombstones := by
  unfold Store.dropParts
  induction ks generalizing s with
  | nil => rfl
  | cons k ks ih =>
    rw [List.foldl_cons, ih]
    unfold Store.dropFile
    split
    · exact tombstones_removeFile s k
    · rfl

theorem apart_dropParts (h : s.Apart) (ks : List Key) : (s.dropParts ks).Apart := by
  intro k info hk
  rw [lookup_dropParts] at hk
  split at hk
  · cases hk
  · rw [tombstones_dropParts]
    exact h k info hk

/-- A write clears the tombstone of its key. -/
theorem apart_replaceFile (h : s.Apart) (k : Key) (info : ExtentInfo) : (s.replaceFile k info).Apart := by
  intro k' info' hk
  rw [lookup_replaceFile] at hk
  show ((s.removeFile k).tombstones.erase k).lookup k' = none
  rw [tombstones_removeFile]
  by_cases heq : k' = k
  · rw [heq, AList.lookup_erase]
  · rw [if_neg heq] at hk
    rw [AList.lookup_erase_ne heq]
    exact h k' info' hk

/-- An entry that is put in the index without a look at the tombstones. -/
theorem apart_insertFile_iff (h : s.Apart) (k : Key) (info : ExtentInfo) :
    (s.insertFile k info).Apart ↔ s.tombstones.lookup k = none := by
  constructor
  · intro h'
    exact h' k info (AList.lookup_insert _)
  · intro hk k' info' hk'
    obtain ⟨rfl, -⟩ | ⟨-, hk'⟩ := lookup_insertFile_some hk'
    · exact hk
    · exact h k' info' hk'

theorem PutDone.apart {key : Key} {payload : Bytes} {metaLen : UInt16} {parts : List Key}
    (hd : PutDone care s key payload metaLen parts s') (h : s.Apart) : s'.Apart := by
  obtain ⟨s1, info, hp, rfl, _⟩ := hd.done
  exact apart_dropParts (apart_replaceFile (hp.apart h) key info) parts

theorem Indexed.apart {key : Key} (hd : Indexed care s key s') (h : s.Apart) : s'.Apart := by
  obtain ⟨s1, info, hp, rfl, _⟩ := hd.done
  exact apart_replaceFile (hp.apart h) key info

/-- A copy keeps them apart if its target has no tombstone. -/
theorem CopyDone.apart_iff {fromKey toKey : Key} (hd : CopyDone care s fromKey toKey s') (h : s.Apart) :
    s'.Apart ↔ s.tombstones.lookup toKey = none := by
  obtain ⟨s1, info, off, now, -, hp, rfl, -⟩ := hd.done
  rw [apart_insertFile_iff (apart_removeFile (hp.apart h) toKey), tombstones_removeFile, hp.eq]

/-- So does a rename. -/
theorem apart_moved_iff (h : s.Apart) (fromKey toKey : Key) (info : ExtentInfo) :
    (s.moved fromKey toKey info).Apart ↔ s.tombstones.lookup toKey = none := by
  have herased : Store.Apart { s with files := s.files.erase fromKey } := by
    intro k info' hk
    change (s.files.erase fromKey).lookup k = some info' at hk
    by_cases hne : k = fromKey
    · rw [hne, AList.lookup_erase] at hk
      cases hk
    · rw [AList.lookup_erase_ne hne] at hk
      exact h k info' hk
  have hremoved : Store.Apart ((Store.removeFile { s with files := s.files.erase fromKey } toKey).markShardDirty fromKey) :=
    (apart_removeFile herased toKey).of_eq rfl rfl
  unfold Store.moved
  rw [apart_insertFile_iff hremoved]
  show (Store.removeFile { s with files := s.files.erase fromKey } toKey).tombstones.lookup toKey = none ↔ _
  rw [tombstones_removeFile]

/-! ## Calls -/

def Store.CanMove (s : Store) (fromKey toKey : Key) : Prop :=
  s.readOnly = false ∧ keyLen toKey ≤ s.maxKeyLength ∧ (s.files.lookup fromKey).isSome

/-- There is space for the blocks of an object, and the device copies them there. -/
def Store.HasRoomFor (s : Store) (fromKey : Key) : Prop :=
  ∃ info off s1 io, s.files.lookup fromKey = some info ∧ (allocExtent info.paddedSize).exec s = (.ok off, s1) ∧
    (copyBlocks info.offset off info.paddedSize).exec s1.io = (.ok (), io)

/-- The call does not copy or move an entry onto a tombstone. -/
def Op.Clears (s : Store) : Op → Prop
  | .copy fromKey toKey | .copyIfNotExists fromKey toKey =>
    s.CanMove fromKey toKey → s.HasRoomFor fromKey → s.tombstones.lookup toKey = none
  | .rename fromKey toKey | .renameIfNotExists fromKey toKey =>
    s.CanMove fromKey toKey → s.tombstones.lookup toKey = none
  | _ => True

/-- When a copy goes through. -/
theorem wp_doCopy_passes (now : DateTime) (fromKey toKey : Key) :
    Prog.wp (doCopy now fromKey toKey) (fun _ _ => s.CanMove fromKey toKey ∧ s.HasRoomFor fromKey)
      (fun _ _ => ¬ (s.CanMove fromKey toKey ∧ s.HasRoomFor fromKey)) s := by
  unfold doCopy
  rw [Prog.wp_bind, Prog.wp_get, Prog.wp_bind, Prog.wp_failIf]
  refine ⟨fun hro hcan => ?_, fun hro => ?_⟩
  · rw [hcan.1.1] at hro
    cases hro
  rw [Prog.wp_bind, Prog.wp_failIf]
  refine ⟨fun hlong hcan => absurd hcan.1.2.1 (Nat.not_le.mpr hlong), fun hlen => ?_⟩
  rw [Prog.wp_bind]
  refine wp_getFile ?_ ?_
  · intro info hk
    have hmove : s.CanMove fromKey toKey := ⟨by simpa using hro, by omega, by rw [hk]; rfl⟩
    rw [Prog.wp_bind]
    cases hal : (allocExtent info.paddedSize).exec s with
    | mk r s1 =>
      cases r with
      | error e =>
        refine (Prog.wp_of_error hal).mpr fun hcan => ?_
        obtain ⟨info', off, s2, io, hk', hal', -⟩ := hcan.2
        rw [hk] at hk'
        cases hk'
        rw [hal] at hal'
        cases hal'
      | ok off =>
        rw [Prog.wp_of_ok hal, Prog.wp_bind, Prog.wp_onError, wp_onDevice]
        cases hcp : (copyBlocks info.offset off info.paddedSize).exec s1.io with
        | mk r io =>
          cases r with
          | error e =>
            refine (Prog.wp_of_error hcp).mpr fun hcan => ?_
            obtain ⟨info', off', s2, io', hk', hal', hcp'⟩ := hcan.2
            rw [hk] at hk'
            cases hk'
            rw [hal] at hal'
            cases hal'
            rw [hcp] at hcp'
            cases hcp'
          | ok u =>
            refine (Prog.wp_of_ok hcp).mpr ?_
            rw [Prog.wp_modify]
            exact ⟨hmove, info, off, s1, io, hk, hal, hcp⟩
  · intro hk hcan
    have hsome := hcan.1.2.2
    rw [hk] at hsome
    cases hsome

/-- When a rename goes through. -/
theorem wp_rename_passes (fromKey toKey : Key) :
    Prog.wp (rename fromKey toKey) (fun _ _ => s.CanMove fromKey toKey) (fun _ _ => ¬ s.CanMove fromKey toKey) s := by
  unfold rename takeFile
  simp only [Prog.wp_bind, Prog.wp_get, Prog.wp_failIf]
  refine ⟨fun hro hcan => ?_, fun hro => ⟨fun hlong hcan => absurd hcan.2.1 (Nat.not_le.mpr hlong), fun hlen => ?_⟩⟩
  · rw [hcan.1] at hro
    cases hro
  refine wp_getFile (fun info hk => ⟨by simpa using hro, by omega, by rw [hk]; rfl⟩) fun hk hcan => ?_
  have hsome := hcan.2.2
  rw [hk] at hsome
  cases hsome

/-- A target that is live needs no look at the tombstones. -/
theorem wp_renameIfNotExists_passes (h : s.Apart) (fromKey toKey : Key) :
    Prog.wp (renameIfNotExists fromKey toKey) (fun _ _ => s.CanMove fromKey toKey)
      (fun _ _ => s.CanMove fromKey toKey → s.tombstones.lookup toKey = none) s := by
  unfold renameIfNotExists takeFile
  simp only [Prog.wp_bind, Prog.wp_get, Prog.wp_failIf]
  refine ⟨fun hro hcan => ?_, fun hro => ⟨fun hlong hcan => absurd hcan.2.1 (Nat.not_le.mpr hlong), fun hlen =>
    ⟨fun hlive _ => ?_, fun _ => ?_⟩⟩⟩
  · rw [hcan.1] at hro
    cases hro
  · obtain ⟨info, hk⟩ := Option.isSome_iff_exists.mp hlive
    exact h toKey info hk
  · refine wp_getFile (fun info hk => ⟨by simpa using hro, by omega, by rw [hk]; rfl⟩) fun hk hcan => ?_
    have hsome := hcan.2.2
    rw [hk] at hsome
    cases hsome

/-- What a copy, made with or without a look at the target, does to them. -/
theorem wp_doCopy_apart (hs : SpaceInv s []) (h : s.Apart) (now : DateTime) (fromKey toKey : Key) :
    Prog.wp (doCopy now fromKey toKey) (fun _ t => t.Apart ↔ (Op.copy fromKey toKey).Clears s)
      (fun _ t => t.Apart ↔ (Op.copy fromKey toKey).Clears s) s := by
  have hcopy : Prog.wp (doCopy now fromKey toKey) (fun _ t => CopyDone .index s fromKey toKey t) (fun _ t => Prep .index s [] t) s :=
    wp_doCopy hs now fromKey toKey
  refine Prog.wp_mono (Prog.wp_and (wp_doCopy_passes now fromKey toKey) hcopy) ?_ ?_
  · intro _ t ht
    rw [ht.2.apart_iff h]
    exact ⟨fun hk _ _ => hk, fun hk => hk ht.1.1 ht.1.2⟩
  · intro _ t ht
    exact iff_of_true (ht.2.apart h) fun hmove hroom => absurd ⟨hmove, hroom⟩ ht.1

theorem wp_copyIfNotExists_apart (hs : SpaceInv s []) (h : s.Apart) (now : DateTime) (fromKey toKey : Key) :
    Prog.wp (copyIfNotExists now fromKey toKey) (fun _ t => t.Apart ↔ (Op.copyIfNotExists fromKey toKey).Clears s)
      (fun _ t => t.Apart ↔ (Op.copyIfNotExists fromKey toKey).Clears s) s := by
  unfold copyIfNotExists
  rw [Prog.wp_bind, Prog.wp_get, Prog.wp_bind, Prog.wp_failIf]
  refine ⟨fun hlive => iff_of_true h fun _ _ => ?_, fun _ => wp_doCopy_apart hs h now fromKey toKey⟩
  obtain ⟨info, hk⟩ := Option.isSome_iff_exists.mp hlive
  exact h toKey info hk

theorem wp_deleteTombstone_apart (h : s.Apart) (path : Key) :
    Prog.wp (deleteTombstone path) (fun _ t => t.Apart) (fun _ t => t.Apart) s := by
  unfold deleteTombstone
  rw [Prog.wp_bind, Prog.wp_get, Prog.wp_bind, Prog.wp_failIf]
  refine ⟨fun _ => h, fun _ => ?_⟩
  split
  · exact h
  · intro k info hk
    show (s.tombstones.erase path).lookup k = none
    by_cases heq : k = path
    · rw [heq, AList.lookup_erase]
    · rw [AList.lookup_erase_ne heq]
      exact h k info hk

theorem wp_clearTombstones_apart (h : s.Apart) : Prog.wp clearTombstones (fun _ t => t.Apart) (fun _ t => t.Apart) s := by
  unfold clearTombstones
  rw [Prog.wp_bind, Prog.wp_get, Prog.wp_bind, Prog.wp_failIf]
  refine ⟨fun _ => h, fun _ => ?_⟩
  split
  · exact h
  · exact fun k _ _ => AList.lookup_empty k

/-- A call keeps live files and tombstones apart exactly if it copies and moves nothing onto a tombstone. -/
theorem Op.apart_iff (op : Op) (now : DateTime) (hs : SpaceInv s []) (hc : ContentInv .index s) (h : s.Apart) :
    ((op.run now).exec s).2.Apart ↔ op.Clears s := by
  have hdone : ∀ {α : Type} {p : StoreM α} {Q : α → Store → Prop} {E : RawStoreError → Store → Prop},
      Prog.wp p Q E s → (∀ a t, Q a t → t.Apart) → (∀ e t, E e t → t.Apart) → (p.exec s).2.Apart := fun hp hQ hE =>
    Prog.wp_state (Prog.wp_mono hp hQ hE)
  have hprep : ∀ (e : RawStoreError) (t : Store), Prep .index s [] t → t.Apart := fun _ _ hp => hp.apart h
  cases op with
  | putOpts key payload mode =>
    exact iff_of_true (hdone (wp_putOpts hs now key payload mode) (fun _ _ hd => hd.apart h) hprep) trivial
  | putWithMeta key body metadata =>
    exact iff_of_true (hdone (wp_putWithMeta hs now key body metadata) (fun _ _ hd => hd.2.apart h) hprep) trivial
  | putWithMetaFromFile key file metaLen =>
    exact iff_of_true (hdone (wp_putWithMetaFromFile hs now key file metaLen (fun hcare => by cases hcare))
      (fun _ _ hd => hd.apart h) hprep) trivial
  | copy fromKey toKey => exact Prog.wp_state (wp_doCopy_apart hs h now fromKey toKey)
  | copyIfNotExists fromKey toKey => exact Prog.wp_state (wp_copyIfNotExists_apart hs h now fromKey toKey)
  | rename fromKey toKey =>
    refine Prog.wp_state (P := fun t => t.Apart ↔ _) (Prog.wp_mono (Prog.wp_and (wp_rename_passes fromKey toKey)
      (wp_rename fromKey toKey)) ?_ ?_)
    · intro _ t ht
      obtain ⟨hmove, info, -, rfl⟩ := ht
      rw [apart_moved_iff h]
      exact ⟨fun hk _ => hk, fun hk => hk hmove⟩
    · intro _ t ht
      rw [ht.2]
      exact iff_of_true h fun hmove => absurd hmove ht.1
  | renameIfNotExists fromKey toKey =>
    refine Prog.wp_state (P := fun t => t.Apart ↔ _) (Prog.wp_mono (Prog.wp_and (wp_renameIfNotExists_passes h fromKey toKey)
      (wp_renameIfNotExists fromKey toKey)) ?_ ?_)
    · intro _ t ht
      obtain ⟨hmove, info, -, rfl⟩ := ht
      rw [apart_moved_iff h]
      exact ⟨fun hk _ => hk, fun hk => hk hmove⟩
    · intro _ t ht
      rw [ht.2]
      exact iff_of_true h ht.1
  | delete key =>
    refine iff_of_true (hdone (wp_delete key) ?_ fun _ t ht => by rw [ht]; exact h) trivial
    intro _ t ht
    rw [ht]
    split
    · exact (apart_dropParts h [key]).of_eq rfl rfl
    · exact h
  | updateMetadata key metadata =>
    refine iff_of_true (hdone (wp_updateMetadata hs hc now key metadata) ?_ hprep) trivial
    intro _ t ht
    obtain ⟨-, info, body, -, hd, -⟩ := ht
    exact hd.apart h
  | setMetaLen key metaLen =>
    refine iff_of_true (hdone (wp_setMetaLen key metaLen) ?_ fun _ t ht => by rw [ht]; exact h) trivial
    intro _ t ht
    obtain ⟨info, hk, rfl⟩ := ht
    exact (apart_insertFile_iff h key _).mpr (h key info hk)
  | putMultipart location => exact iff_of_true (h.of_eq rfl rfl) trivial
  | putPart partKey payload =>
    exact iff_of_true (hdone (wp_doPutWithMeta .index hs now partKey payload 0) (fun _ _ hd => hd.apart h) hprep) trivial
  | complete tmp location partKeys =>
    refine iff_of_true (hdone (wp_complete hs hc now tmp location partKeys (fun hcare => absurd rfl hcare))
      ?_ hprep) trivial
    intro _ t ht
    obtain ⟨parts, payload, -, hd, -⟩ := ht.done
    exact hd.apart h
  | abort partKeys => exact iff_of_true ((apart_dropParts h partKeys).of_eq rfl rfl) trivial
  | deleteTombstone path =>
    show ((Prog.exec (do let _ ← Raw.deleteTombstone path) s).2).Apart ↔ _
    rw [exec_discard]
    exact iff_of_true (Prog.wp_state (wp_deleteTombstone_apart h path)) trivial
  | clearTombstones =>
    show ((Prog.exec (do let _ ← Raw.clearTombstones) s).2).Apart ↔ _
    rw [exec_discard]
    exact iff_of_true (Prog.wp_state (wp_clearTombstones_apart h)) trivial
  | scrubFreeSpace =>
    exact iff_of_true (hdone (wp_scrubFreeSpace hs fun hcare => absurd rfl hcare) (fun _ _ hp => hp.apart h) hprep)
      trivial

/-! ## Runs -/

/-- No reload, and nothing copied or moved onto a tombstone. -/
def Clears (s : Store) : Call → Prop
  | .op o => o.Clears s
  | .reloadIndex => False
  | _ => True

/-- An open removes the entry of every tombstone it records. -/
theorem Store.Apart.opened {d : Disk} {mode : OpenMode} {readOnly : Bool} {script : List Outcome} {io : DeviceIo} (h : s.Apart)
    (hd : CommittedWhole s d) (hopen : (openImpl mode readOnly).exec (.onDisk d readOnly script) = (.ok s', io)) : s'.Apart := by
  obtain ⟨sb, l, loaded, stale, hop⟩ := Prog.wp_ok (wp_openImpl mode readOnly) hopen
  obtain ⟨sb', index, hcommitted, -, hfiles⟩ := hd.holds
  have htombs := hd.tombstones sb l loaded hop.committed
  have hsame := Except.ok.inj (hop.committed.symm.trans hcommitted)
  obtain ⟨c, io', -, -, rfl⟩ := hop.store
  intro k info hk
  obtain ⟨hfile, htomb⟩ := lookup_recover loaded l.regionA stale readOnly (sb.txnId + 1) k
  change (loaded.recover l.regionA stale readOnly (sb.txnId + 1)).1.files.lookup k = some info at hk
  rw [hfile] at hk
  split at hk
  · cases hk
  · next hmem =>
    have hfresh : k ∉ stale.map (·.1) := by
      intro hm
      refine hmem ?_
      unfold DeviceIndex.recover
      dsimp only
      simp only [List.mem_append]
      exact .inl (.inr hm)
    have hload : loaded = index := by
      have := congrArg (fun r => r.2.2) hsame
      exact this
    show (loaded.recover l.regionA stale readOnly (sb.txnId + 1)).1.tombstones.lookup k = none
    rw [htomb hfresh, htombs]
    rw [hload, hfiles] at hk
    exact h k info hk

omit [Crates] in
theorem FlushFrame.apart (hf : FlushFrame s s') (h : s.Apart) : s'.Apart :=
  h.of_eq (by rw [hf]) (by rw [hf])

omit [Crates] in
theorem clears_noReload {c : Call} (h : Clears s c) : NoReload s c := by
  intro hc
  rw [hc] at h
  exact h

theorem reach_apart (h : Reach Clears CommittedWhole s) : s.Apart := by
  induction h with
  | format hformat =>
    obtain ⟨io, rfl, -⟩ := (formatted hformat).store
    exact fun k _ _ => AList.lookup_empty k
  | @call s hs script now c hc ih =>
    obtain ⟨hspace, hcontent⟩ := reach_inv (hs.mono (fun _ _ => clears_noReload) fun _ _ hd => hd.toCommitted)
    have hspace' : SpaceInv (s.withScript script) [] := hspace.congr rfl rfl rfl
    have hapart : (s.withScript script).Apart := ih
    cases c with
    | op o => exact (o.apart_iff now hspace' hcontent hapart).mpr hc
    | flushIndex => exact (flush_frame _).apart hapart
    | repair =>
      rw [exec_repair hspace']
      exact (flush_frame _).apart hapart
    | reloadIndex => exact hc.elim
  | reopen _ hd hopen ih => exact ih.opened hd hopen

/-- A run leaves its store writable. -/
theorem reach_writable {allowed : Store → Call → Prop} (ha : ∀ s c, allowed s c → NoReload s c) (h : Reach allowed Committed s) :
    s.readOnly = false := by
  induction h with
  | format hformat =>
    obtain ⟨io, rfl, -⟩ := (formatted hformat).store
    rfl
  | @call s hs script now c hc ih =>
    obtain ⟨hspace, hcontent⟩ := reach_inv (hs.mono ha fun _ _ hd => hd)
    have hspace' : SpaceInv (s.withScript script) [] := hspace.congr rfl rfl rfl
    have hflush : (flushIndex.exec (s.withScript script)).2.readOnly = false := by
      rw [flush_frame]
      exact ih
    cases c with
    | op o =>
      have hstep : Step .index (s.withScript script) ((o.run now).exec (s.withScript script)).2 :=
        o.step now hspace' hcontent (o.sound_of_ne (by decide)) fun h => absurd rfl h
      show ((o.run now).exec (s.withScript script)).2.readOnly = false
      rw [hstep.frame]
      exact ih
    | flushIndex => exact hflush
    | repair =>
      rw [exec_repair hspace']
      exact hflush
    | reloadIndex => exact absurd rfl (ha _ _ hc)
  | reopen _ hd hopen _ => exact (hd.opened hopen).2.2.2.2.2.2.1

/-- A tombstone of a file that is not live is deleted. -/
theorem exec_deleteTombstone {path : Key} (hro : s.readOnly = false) (hlive : s.files.lookup path = none)
    (htomb : (s.tombstones.lookup path).isSome) :
    (deleteTombstone path).exec s =
      (.ok true, { s.markShardDirty path with tombstones := s.tombstones.erase path, dirty := true }) := by
  have hsome : ¬ ((s.files.lookup path).isSome ∨ (s.tombstones.lookup path).isNone) := by
    rw [hlive]
    simp only [Option.isSome_none, Bool.false_eq_true, false_or]
    rw [Option.isNone_iff_eq_none, ← Option.not_isSome_iff_eq_none]
    exact not_not.mpr htomb
  unfold deleteTombstone
  rw [Prog.exec_bind, Prog.exec_get]
  dsimp only
  rw [Prog.exec_bind, Prog.exec_failIf, if_neg (by rw [hro]; exact Bool.false_ne_true)]
  dsimp only
  rw [if_neg hsome]
  rfl

/-- In a run that copies and moves nothing onto a tombstone, and after every open of a device that it leaves, live files and
    tombstones are apart; so no listed tombstone is of a live file, and each can be deleted. -/
theorem tombstones_stay_apart (h : Reach Clears CommittedWhole s) :
    s.Apart ∧
      (∀ e ∈ s.listTombstones, s.files.lookup e.path = none ∧
        ∃ t, (deleteTombstone e.path).exec s = (.ok true, t) ∧ t.tombstones.lookup e.path = none) ∧
      ∀ d mode readOnly script s' io, CommittedWhole s d →
        (openImpl mode readOnly).exec (.onDisk d readOnly script) = (.ok s', io) → s'.Apart := by
  have hapart := reach_apart h
  refine ⟨hapart, fun e he => ?_, fun d mode readOnly script s' io hd hopen => hapart.opened hd hopen⟩
  have htomb := (s.mem_listTombstones e.path).mp ⟨e, he, rfl⟩
  have hlive : s.files.lookup e.path = none := by
    by_contra hne
    obtain ⟨info, hk⟩ := Option.ne_none_iff_exists'.mp hne
    rw [hapart e.path info hk] at htomb
    cases htomb
  have hro := reach_writable (fun _ _ => clears_noReload) (h.mono (fun _ _ hc => hc) fun _ _ hd => hd.toCommitted)
  exact ⟨hlive, _, exec_deleteTombstone hro hlive htomb, AList.lookup_erase _ _⟩

end Tombstones

/-! ## A damaged object -/

open Sample

def Sample.otherByte (a : Nat) : UInt8 := (encodeBlocks [2]).getD (a - dataStart) 0

theorem Sample.oneObject_damaged (io io' : DeviceIo) :
    ¬ Intact ((oneObject io io').image otherByte) ((options.newStore io).byteInfo dataStart 0) := by
  have hlen : (encodeBlocks [2]).length = numBlocks 1 * blockAlignment := length_encodeBlocks [2]
  have hread : ((oneObject io io').image otherByte).read dataStart (numBlocks 1 * blockAlignment) = encodeBlocks [2] := by
    rw [← hlen]
    refine read_eq_of_bytes fun j hj => ?_
    have hblock : j < 4096 := by
      rw [hlen] at hj
      exact hj
    show (if dataStart + j < dataStart then _ else if dataStart + j < 33554432 then otherByte (dataStart + j) else _) = _
    have e : dataStart = 8192 := rfl
    rw [if_neg (by omega), if_pos (by omega), otherByte, Nat.add_sub_cancel_left]
  have hholds : Holds ((oneObject io io').image otherByte) dataStart [2] := hread
  intro hintact
  obtain ⟨p, hp, hcrc⟩ := hintact
  have hdecode := hholds.decode
  change decodeBlocks (Disk.read _ dataStart (numBlocks 1 * blockAlignment)) 1 = .ok p at hp
  rw [show numBlocks [(2 : UInt8)].length = numBlocks 1 from rfl, show [(2 : UInt8)].length = 1 from rfl, hp] at hdecode
  cases hdecode
  exact absurd (show crc32c [2] = crc32c [1] from hcrc) (by decide)

/-- The calls that keep parts and tombstones in order. -/
def Sample.Orderly (s : Store) (c : Call) : Prop := Proper s c ∧ Clears s c

theorem Sample.orderly_sane {s : Store} (h : Reach Orderly CommittedWhole s) : Sane s :=
  reach_sane (h.mono (fun _ _ hc => hc.1) fun _ _ hd => hd.toCommitted)

theorem Sample.oneObject_reached : ∃ io io', Reach Orderly CommittedWhole (oneObject io io') ∧ Easy 67108864 io' := by
  obtain ⟨s, io, io0, io', hformat, rfl, hput, heasy, -⟩ := oneObject_put
  have hrun := (Reach.format hformat : Reach Orderly CommittedWhole _).call [] 0 (.op (.putOpts "k" [1] .overwrite)) ⟨trivial, trivial⟩
  change Reach Orderly CommittedWhole ((doPut 0 "k" [1]).exec ((options.newStore io0).withScript [])).2 at hrun
  rw [hput] at hrun
  exact ⟨io0, io', hrun, heasy⟩

/-- A store of which only a tombstone is left. -/
structure Sample.Buried (s : Store) : Prop where
  tombstone : (s.tombstones.lookup "k").isSome
  files : s.files = ∅
  writable : s.readOnly = false ∧ s.io.readOnly = false
  maxKeyLength : s.maxKeyLength = 1024
  compression : s.compression = .none
  direct : s.io.direct = false
  size : s.io.dev.size = 67108864
  allocator : s.allocator = some (.fromFreeList (rebuildFreeList ∅ 33554432).2 dataStart 33554432)

/-- The object is damaged, and the device is opened with a full scan. -/
theorem Sample.found_damaged : ∃ s, Reach Orderly CommittedWhole s ∧ Buried s := by
  obtain ⟨io, io', hs, heasy⟩ := oneObject_reached
  have hsane := orderly_sane hs
  have hd := image_committed hsane.laid (oneObject_fits io io') otherByte
  obtain ⟨t, io2, hopen, htomb, hmax⟩ := image_opened hsane.laid hsane.space hsane.padded (oneObject_fits io io') otherByte
    (AList.lookup_insert _) (oneObject_damaged io io')
  obtain ⟨hsub, hlayout, hdev, hcomp, -, hiro, hro, hdirect, halloc⟩ := hd.opened hopen
  have hapart : t.Apart := Store.Apart.opened (s := oneObject io io') (fun k _ _ => AList.lookup_empty k) hd hopen
  have hfiles : t.files = ∅ := by
    apply AList.ext
    show t.files.entries = []
    rw [List.eq_nil_iff_forall_not_mem]
    intro e he
    have hlook : t.files.lookup e.1 = some e.2 := AList.mem_lookup_iff.mpr he
    have hold := AList.mem_lookup_iff.mp (hsub e.1 e.2 hlook).1
    rw [oneObject_entries, List.mem_singleton] at hold
    have hkey : e.1 = "k" := congrArg Sigma.fst hold
    have hnone := hapart e.1 e.2 hlook
    rw [hkey] at hnone
    rw [hnone] at htomb
    cases htomb
  have hend : t.dataEnd = 33554432 := congrArg Layout.regionA hlayout
  rw [hfiles, hend] at halloc
  have h1 : t.maxKeyLength = 1024 := hmax
  have h2 : t.compression = .none := hcomp
  have h3 : t.io.dev.size = 67108864 := by
    rw [hdev]
    refine hsane.laid.geometry.size.trans ?_
    show 67108864 - 16777216 + 256 * (16777216 / 256) = 67108864
    decide
  refine ⟨t, .reopen hs hd hopen, htomb, hfiles, ⟨hro, hiro⟩, h1, h2, ?_, h3, halloc⟩
  · rw [hdirect]
    exact heasy.2.1

/-- The tombstone is listed, and deleted. -/
theorem a_tombstone_is_deleted : ∃ s t, Reach Clears CommittedWhole s ∧ (∃ e ∈ s.listTombstones, e.path = "k") ∧
    (deleteTombstone "k").exec s = (.ok true, t) := by
  obtain ⟨s, hs, hb⟩ := found_damaged
  have hrun : Reach Clears CommittedWhole s := hs.mono (fun _ _ hc => hc.2) fun _ _ hd => hd
  obtain ⟨e, he, hpath⟩ := (s.mem_listTombstones "k").mpr hb.tombstone
  obtain ⟨-, t, hdelete, -⟩ := (tombstones_stay_apart hrun).2.1 e he
  rw [hpath] at hdelete
  exact ⟨s, t, hrun, ⟨e, he, hpath⟩, hdelete⟩

/-- The tombstone of an entry that an open found damaged stays when another object is renamed to its key. -/
theorem a_rename_leaves_the_tombstone : ¬ ∀ s, Reach NoReload CommittedWhole s → s.Apart := by
  intro h
  have hany : ∀ {s : Store}, Reach Proper CommittedWhole s → s.Apart := fun hs => h _ (hs.mono (fun _ c hc => by
    intro he
    rw [he] at hc
    exact hc) fun _ _ hd => hd)
  obtain ⟨t, hreached, hb⟩ := found_damaged
  have ht : Reach Proper CommittedWhole t := hreached.mono (fun _ _ hc => hc.1) fun _ _ hd => hd
  -- another object is put
  obtain ⟨a, hfree⟩ : ∃ a, (ExtentAllocator.fromFreeList (rebuildFreeList ∅ 33554432).2 dataStart 33554432).alloc blockAlignment =
      .ok (dataStart, a) := ⟨_, rfl⟩
  have hkey : keyLen "a" ≤ (t.withScript []).maxKeyLength := by
    rw [show (t.withScript []).maxKeyLength = 1024 from hb.maxKeyLength]
    decide
  have hput : Prog.wp (doPut 0 "a" [1]) (fun _ u => u.CanMove "a" "k" ∧ (u.tombstones.lookup "k").isSome) (fun _ _ => False)
      (t.withScript []) := by
    refine Prog.wp_mono (wp_putByte (s := t.withScript []) hb.writable.1 hkey hb.compression hb.allocator hfree
      ⟨rfl, hb.direct, hb.writable.2, hb.size⟩ (by decide) 0) ?_ (fun _ _ h => h)
    intro _ u hu
    obtain ⟨io, rfl⟩ := hu
    have hframed := framed_replaceFile (Store.withIo io { t.withScript [] with allocator := some a }) "a"
      ((t.withScript []).byteInfo dataStart 0)
    refine ⟨⟨?_, ?_, ?_⟩, ?_⟩
    · rw [hframed]
      exact hb.writable.1
    · rw [hframed]
      rw [show keyLen "k" = keyLen "a" from rfl]
      exact hkey
    · rw [lookup_replaceFile, if_pos rfl]
      rfl
    · show (((Store.removeFile _ "a").tombstones.erase "a").lookup "k").isSome
      rw [AList.lookup_erase_ne (by decide), tombstones_removeFile]
      exact hb.tombstone
  have hrun := ht.call [] 0 (.op (.putOpts "a" [1] .overwrite)) trivial
  change Reach Proper CommittedWhole ((doPut 0 "a" [1]).exec (t.withScript [])).2 at hrun
  cases hexec : (doPut 0 "a" [1]).exec (t.withScript []) with
  | mk r u =>
    rw [hexec] at hrun
    cases r with
    | error e => exact Prog.wp_error hput hexec
    | ok _ =>
      -- and renamed
      obtain ⟨hmove, htomb⟩ := Prog.wp_ok hput hexec
      have hsane : Sane u := reach_sane (Reach.mono (s := u) (fun _ _ hc => hc) (fun _ _ hd => hd.toCommitted) hrun)
      have hrenamed := hany (Reach.call (s := u) hrun [] 0 (.op (.rename "a" "k")) (by decide : ¬ Reserved "k"))
      have hclears := ((Op.rename "a" "k").apart_iff 0 (hsane.withScript []).space (hsane.withScript []).padded
        (hany (s := u) hrun)).mp hrenamed hmove
      rw [show u.tombstones.lookup "k" = none from hclears] at htomb
      cases htomb

end ObjStr.Raw
