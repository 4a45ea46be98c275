/-
  ObjStr.Raw.Sane — what a call leaves when it fails, and what runs keep.

  A call takes an extent, writes into it and changes the index last; wherever it fails, it has given the extent back.
  The free list it leaves is the very list it found, because both are the one that is rebuilt from the index.
  - `Op.wp_failed`: every call that fails has done no more than take, write and give back an extent (`Prep`).
  - `reach_sane`: every run keeps the extents and the free list, the layout, and what the parts of its uploads store,
    if its clients copy or move nothing into the reserved prefix (`Proper`).
-/

import ObjStr.Raw.Reachable

namespace ObjStr.Raw

open ObjStr.Lib DeviceIo

section Sane

variable [Crates] {s s' : Store} {care : Care}

/-! ## Failed calls -/

/-- A call that fails has given back what it took. -/
theorem Op.wp_failed (op : Op) (now : DateTime) (hs : SpaceInv s []) (hc : ContentInv .index s) (hcare : care ≠ .content)
    (hparts : ∀ tmp location partKeys, op = .complete tmp location partKeys → care ≠ .index → s.PartsFit partKeys)
    (hdir : op = .scrubFreeSpace → care ≠ .index → s.io.direct = true → s.dataEnd % blockAlignment = 0) :
    Prog.wp (op.run now) (fun _ _ => True) (fun _ s' => Prep care s [] s') s := by
  have hsame : Prep care s [] s := Prep.refl hs
  cases op with
  | putOpts key payload mode => exact Prog.wp_mono (wp_putOpts hs now key payload mode) (fun _ _ _ => trivial) (fun _ _ h => h)
  | putWithMeta key body metadata =>
    exact Prog.wp_mono (wp_putWithMeta hs now key body metadata) (fun _ _ _ => trivial) (fun _ _ h => h)
  | putWithMetaFromFile key file metaLen =>
    exact Prog.wp_mono (wp_putWithMetaFromFile hs now key file metaLen fun h => absurd h hcare) (fun _ _ _ => trivial) (fun _ _ h => h)
  | copy fromKey toKey => exact Prog.wp_mono (wp_doCopy hs now fromKey toKey) (fun _ _ _ => trivial) (fun _ _ h => h)
  | copyIfNotExists fromKey toKey =>
    exact Prog.wp_mono (wp_copyIfNotExists hs now fromKey toKey) (fun _ _ _ => trivial) (fun _ _ h => h)
  | rename fromKey toKey =>
    exact Prog.wp_mono (wp_rename fromKey toKey) (fun _ _ _ => trivial) (fun _ _ h => by rw [h]; exact hsame)
  | renameIfNotExists fromKey toKey =>
    exact Prog.wp_mono (wp_renameIfNotExists fromKey toKey) (fun _ _ _ => trivial) (fun _ _ h => by rw [h]; exact hsame)
  | delete key => exact Prog.wp_mono (wp_delete key) (fun _ _ _ => trivial) (fun _ _ h => by rw [h]; exact hsame)
  | updateMetadata key metadata =>
    exact Prog.wp_mono (wp_updateMetadata hs hc now key metadata) (fun _ _ _ => trivial) (fun _ _ h => h)
  | setMetaLen key metaLen =>
    exact Prog.wp_mono (wp_setMetaLen key metaLen) (fun _ _ _ => trivial) (fun _ _ h => by rw [h]; exact hsame)
  | putMultipart location => exact trivial
  | putPart partKey payload =>
    exact Prog.wp_mono (wp_doPutWithMeta care hs now partKey payload 0) (fun _ _ _ => trivial) (fun _ _ h => h)
  | complete tmp location partKeys =>
    exact wp_complete_failed hs hc now tmp location partKeys (hparts tmp location partKeys rfl)
  | abort partKeys => exact trivial
  | deleteTombstone path =>
    unfold Op.run Raw.deleteTombstone
    simp only [Prog.wp_bind, Prog.wp_get, Prog.wp_failIf]
    refine ⟨fun _ => hsame, fun _ => ?_⟩
    split <;> trivial
  | clearTombstones =>
    unfold Op.run Raw.clearTombstones
    simp only [Prog.wp_bind, Prog.wp_get, Prog.wp_failIf]
    refine ⟨fun _ => hsame, fun _ => ?_⟩
    split <;> trivial
  | scrubFreeSpace => exact Prog.wp_mono (wp_scrubFreeSpace hs (hdir rfl)) (fun _ _ _ => trivial) (fun _ _ h => h)

/-! ## The layout -/

omit [Crates] in
theorem Laid.of_frame (h : Laid s) {sb : Superblock} (hsb : Describes sb s) (hd : s'.io.direct = s.io.direct)
    (hro : s'.io.readOnly = s.io.readOnly) (hsize : s'.io.dev.size = s.io.dev.size) (hsuper : s'.superblock = sb)
    (hl : s'.layout = s.layout) (hc : s'.compression = s.compression) (hr : s'.readOnly = s.readOnly) : Laid s' := by
  have hcap : s'.indexSlotCapacity = s.indexSlotCapacity := congrArg Layout.slotCapacity hl
  have hslot : s'.shardSlotSize = s.shardSlotSize := congrArg Layout.slotSize hl
  subst hsuper
  refine ⟨⟨?_, hsb.magic, hsb.version, hsb.blockAlignment, hsb.maxKeyLength, ?_, ?_⟩, ?_, ?_, ?_, ?_, ?_, ?_, ?_⟩
  · rw [hsize, hl]
    exact hsb.layout
  · rw [hc]
    exact hsb.compression
  · rw [hd]
    exact hsb.flags
  · rw [hcap]
    exact h.capacity
  · rw [hcap]
    exact h.room
  · rw [hslot]
    exact h.slotFits
  · rw [hsize]
    exact h.sizeFits
  · rw [hd, hsize]
    exact h.wholeBlocks
  · rw [hro]
    exact h.writable
  · rw [hr]
    exact h.readOnly

theorem Step.laid (h : Step care s s') (hcare : care ≠ .index) (hl : Laid s) : Laid s' := by
  have hw := h.wrote hcare
  have hf := h.frame
  refine hl.of_frame hl.superblock hw.direct_eq hw.readOnly_eq hw.size_eq ?_ ?_ ?_ ?_
  · rw [hf]
  · rw [hf]
    rfl
  · rw [hf]
  · rw [hf]

omit [Crates] in
/-- With `O_DIRECT` the data area ends at a block boundary. -/
theorem Laid.dataEnd_aligned (h : Laid s) (hd : s.io.direct = true) : s.dataEnd % blockAlignment = 0 := by
  have hwhole := h.wholeBlocks hd
  have g := h.geometry
  have hsize := g.size
  have hB := g.regionB
  have hal := g.aligned
  have hmul : ∀ n, n * s.shardSlotSize % blockAlignment = 0 := fun n => by
    rw [Nat.mul_mod, hal, Nat.mul_zero, Nat.zero_mod]
  have h1 := hmul numShards
  unfold Store.dataEnd blockAlignment at *
  omega

/-! ## Flushes -/

omit [Crates] in
/-- A superblock write does not reach the data area. -/
theorem SuperblockTrace.misses {img : Bytes} {tr : List Disk.Event} (h : SuperblockTrace img tr) (hlen : img.length = superblockSize) :
    ∀ e ∈ tr, ∀ hi, Misses dataStart hi e := by
  have hprimary : ∀ {e : Disk.Event} {b : Bool}, SuperblockWrite 0 img b e → ∀ hi, Misses dataStart hi e := fun he hi =>
    he.misses hlen (.inl (by decide))
  have hbackup : ∀ {e : Disk.Event} {b : Bool}, SuperblockWrite superblockSize img b e → ∀ hi, Misses dataStart hi e := fun he hi =>
    he.misses hlen (.inl (by decide))
  have hsync : ∀ hi, Misses dataStart hi .sync := fun hi a _ _ hr => hr
  intro e he hi
  cases h with
  | start => cases he
  | synced =>
    rw [List.mem_singleton.mp he]
    exact hsync hi
  | primary h | primarySynced h =>
    simp only [List.mem_cons, List.not_mem_nil, or_false] at he
    rcases he with rfl | rfl | rfl <;> first | exact hsync hi | exact hprimary h hi
  | backup h h' | done h h' =>
    simp only [List.mem_cons, List.not_mem_nil, or_false] at he
    rcases he with rfl | rfl | rfl | rfl | rfl <;> first | exact hsync hi | exact hprimary h hi | exact hbackup h' hi

/-- What a flush leaves, whether it succeeds or not: the index, another superblock of the store, and the data area. -/
theorem flush_leaves (hl : Laid s) : FlushFrame s (flushIndex.exec s).2 ∧ Laid (flushIndex.exec s).2 ∧
    ∀ off len, dataStart ≤ off → off + len ≤ s.dataEnd →
      (flushIndex.exec s).2.io.dev.read off len = s.io.dev.read off len := by
  have g := hl.geometry
  have hran : (fun s' => ∃ ws tr io' sb, FlushRan s ws tr io' ∧ Describes sb s ∧ s'.io = io' ∧ s'.superblock = sb)
      (flushIndex.exec s).2 := by
    have hdesc : ∀ slots txn, Describes (s.superblock.withSlots slots) s ∧ Describes ((s.superblock.withSlots slots).next txn) s :=
      fun _ _ => ⟨⟨hl.superblock.layout, hl.superblock.magic, hl.superblock.version, hl.superblock.blockAlignment,
        hl.superblock.maxKeyLength, hl.superblock.compression, hl.superblock.flags⟩, ⟨hl.superblock.layout,
        hl.superblock.magic, hl.superblock.version, hl.superblock.blockAlignment, hl.superblock.maxKeyLength,
        hl.superblock.compression, hl.superblock.flags⟩⟩
    refine Prog.wp_state (Prog.wp_mono (wp_flushIndex g) ?_ ?_)
    · rintro _ s' ⟨ws, tr, io', n, hran, -, rfl⟩
      exact ⟨ws, tr, io', _, hran, (hdesc _ _).2, rfl, rfl⟩
    · rintro _ s' ⟨ws, tr, io', sb, hran, rfl, ⟨-, done, rfl⟩ | ⟨-, rfl⟩⟩
      · exact ⟨ws, tr, io', _, hran, (hdesc _ 0).1, rfl, rfl⟩
      · exact ⟨ws, tr, io', _, hran, (hdesc _ _).2, rfl, rfl⟩
  obtain ⟨ws, tr, io', sb, hran, hsb, hio, hsuper⟩ := hran
  have hframe := flush_frame s
  have hdev : io'.dev = s.io.dev.replay (ws ++ tr) := hran.logged.dev_eq
  refine ⟨hframe, hl.of_frame hsb ?_ ?_ ?_ hsuper ?_ ?_ ?_, fun off len h1 h2 => ?_⟩
  · rw [hio]
    exact hran.logged.direct_eq
  · rw [hio]
    exact hran.logged.readOnly_eq
  · rw [hio, hdev, Disk.replay_size]
  · rw [hframe]
    rfl
  · rw [hframe]
  · rw [hframe]
  · rw [hio, hdev]
    have hmiss : ∀ e ∈ ws ++ tr, Misses dataStart s.dataEnd e := by
      intro e he
      rcases List.mem_append.mp he with he | he
      · exact fun a _ h2 => (hran.shards e he).misses_data g a (Nat.zero_le _) h2
      · exact hran.trace.misses (Superblock.length_bytes _) e he _
    exact read_frame hmiss h1 h2

/-! ## Runs -/

/-- The keys of the parts of uploads. -/
abbrev Reserved (k : Key) : Prop := isMultipartTmp k = true

/-- Clients copy and move nothing into the reserved prefix, and an upload joins its own parts. -/
def Proper (_ : Store) : Call → Prop
  | .reloadIndex => False
  | .op (.copy _ toKey) | .op (.copyIfNotExists _ toKey) | .op (.rename _ toKey) | .op (.renameIfNotExists _ toKey) => ¬ Reserved toKey
  | .op (.complete _ _ partKeys) => ∀ k ∈ partKeys, Reserved k
  | _ => True

structure Sane (s : Store) : Prop where
  laid : Laid s
  space : SpaceInv s []
  padded : ContentInv .index s
  parts : ContentOn Reserved .slots s

/-- The parts of an upload decode to the sizes the index has for them. -/
theorem Sane.partsSound (h : Sane s) {partKeys : List Key} (hkeys : ∀ k ∈ partKeys, Reserved k) : PartsSound s partKeys :=
  partsSound_of_kept (by decide) fun k hk info hl => h.parts k info (hkeys k hk) hl

theorem Kept.index {c : Compression} {d : Disk} {info : ExtentInfo} (h : Kept care c d info) : Kept .index c d info :=
  ⟨h.padded, fun ht => absurd rfl ht.ne_index⟩

theorem Update.index {held : List Span} (h : Update care s held s') : Update .index s held s' := by
  cases h with
  | keep => exact .keep
  | put k info parts hsize hkept => exact .put k info parts hsize hkept.index
  | copy k info hsize hkept => exact .copy k info hsize hkept.index
  | move fromKey toKey info hfrom hkept => exact .move fromKey toKey info hfrom hkept.index
  | drop keys => exact .drop keys
  | amend k info metaLen hk => exact .amend k info metaLen hk
  | forget path => exact .forget path
  | forgetAll => exact .forgetAll
  | upload => exact .upload

theorem Step.index (h : Step care s s') : Step .index s s' := by
  obtain ⟨s1, held, hp, hu⟩ := h
  exact ⟨s1, held, ⟨hp.eq, hp.space, fun hne => absurd rfl hne⟩, hu.index⟩

theorem Sane.of_step (h : Sane s) (hstep : Step .slots s s') : Sane s' :=
  ⟨hstep.laid (by decide) h.laid, hstep.space, hstep.index.content h.space h.padded, hstep.contentOn h.space h.parts⟩

/-- A call that puts no entry under a reserved key. -/
theorem Sane.of_outside {s1 : Store} {held : List Span} (h : Sane s) (hp : Prep .slots s held s1) (hu : Update .index s1 held s')
    (hout : ∀ k info, Reserved k → s'.files.lookup k = some info → s1.files.lookup k = some info) : Sane s' := by
  have hstep : Step .index s s' := ⟨s1, held, ⟨hp.eq, hp.space, fun hne => absurd rfl hne⟩, hu⟩
  have hw := hp.wrote (by decide)
  have hio := hu.io_eq
  have hframe := hstep.frame
  refine ⟨h.laid.of_frame h.laid.superblock ?_ ?_ ?_ ?_ ?_ ?_ ?_, hstep.space, hstep.content h.space h.padded, ?_⟩
  · rw [hio]
    exact hw.direct_eq
  · rw [hio]
    exact hw.readOnly_eq
  · rw [hio]
    exact hw.size_eq
  · rw [hframe]
  · rw [hframe]
    rfl
  · rw [hframe]
  · rw [hframe]
  · intro k info hk hlook
    have hkept := hp.contentOn h.space h.parts k info hk (hout k info hk hlook)
    have hcomp : s'.compression = s1.compression := by rw [hu.framed]
    rw [hcomp, hio]
    exact hkept

theorem CopyDone.sane {fromKey toKey : Key} (h : CopyDone .slots s fromKey toKey s') (hs : Sane s) (hto : ¬ Reserved toKey) :
    Sane s' := by
  obtain ⟨s1, info, off, now, hk, hp, rfl, -⟩ := h.done
  have hupdate : Update .index s1 [(off, info.paddedSize)] ((s1.removeFile toKey).insertFile toKey
      { info with offset := off, createdTxn := s1.superblock.txnId, lastModified := now }) :=
    .copy toKey { info with offset := off, createdTxn := s1.superblock.txnId, lastModified := now }
      (hs.space.sized info (mem_values hk)) ⟨(hs.padded fromKey info hk).padded, fun ht => absurd rfl ht.ne_index⟩
  refine hs.of_outside hp hupdate fun k info' hres hlook => ?_
  rcases lookup_insertFile_some hlook with ⟨rfl, -⟩ | ⟨-, hlook⟩
  · exact absurd hres hto
  · exact lookup_removeFile_some hlook

theorem Sane.moved {fromKey toKey : Key} {info : ExtentInfo} (hs : Sane s) (hk : s.files.lookup fromKey = some info)
    (hto : ¬ Reserved toKey) : Sane (s.moved fromKey toKey info) := by
  refine hs.of_outside (Prep.refl hs.space) (.move fromKey toKey info hk (hs.padded fromKey info hk)) fun k info' hres hlook => ?_
  rcases lookup_insertFile_some hlook with ⟨rfl, -⟩ | ⟨-, hlook⟩
  · exact absurd hres hto
  · have herase : (s.files.erase fromKey).lookup k = some info' := lookup_removeFile_some hlook
    by_cases hf : k = fromKey
    · subst hf
      rw [AList.lookup_erase] at herase
      cases herase
    · rwa [AList.lookup_erase_ne hf] at herase

/-- Every call that a run may make. -/
theorem Sane.op (h : Sane s) (op : Op) (now : DateTime) (hop : Proper s (.op op)) : Sane ((op.run now).exec s).2 := by
  have hdir : Care.slots ≠ .index → s.io.direct = true → s.dataEnd % blockAlignment = 0 := fun _ hd => h.laid.dataEnd_aligned hd
  have hsound : op.Sound .slots := op.sound_of_ne (by decide)
  have hfailed : ∀ s', Prep .slots s [] s' → Sane s' := fun s' hp => h.of_step hp.step
  cases op with
  | copy fromKey toKey =>
    exact Prog.wp_state (P := Sane) (Prog.wp_mono (wp_doCopy h.space now fromKey toKey) (fun _ _ hd => hd.sane h hop) (fun _ s' hp => hfailed s' hp))
  | copyIfNotExists fromKey toKey =>
    exact Prog.wp_state (P := Sane) (Prog.wp_mono (wp_copyIfNotExists h.space now fromKey toKey) (fun _ _ hd => hd.sane h hop)
      (fun _ s' hp => hfailed s' hp))
  | rename fromKey toKey =>
    refine Prog.wp_state (P := Sane) (Prog.wp_mono (wp_rename fromKey toKey) ?_ (fun _ _ he => by rw [he]; exact h))
    rintro _ s' ⟨info, hk, rfl⟩
    exact h.moved hk hop
  | renameIfNotExists fromKey toKey =>
    refine Prog.wp_state (P := Sane) (Prog.wp_mono (wp_renameIfNotExists fromKey toKey) ?_ (fun _ _ he => by rw [he]; exact h))
    rintro _ s' ⟨info, hk, rfl⟩
    exact h.moved hk hop
  | complete tmp location partKeys =>
    exact h.of_step (Op.step_of (.complete tmp location partKeys) now h.space h.padded (fun _ => h.partsSound hop) hsound hdir)
  | _ => exact h.of_step (Op.step_of _ now h.space h.padded trivial hsound hdir)

theorem Sane.flush (h : Sane s) : Sane (flushIndex.exec s).2 := by
  obtain ⟨hframe, hlaid, hread⟩ := flush_leaves h.laid
  refine ⟨hlaid, hframe.space h.space, hframe.index h.padded, fun k info hk hlook => ?_⟩
  have hlook' : s.files.lookup k = some info := by
    rw [hframe] at hlook
    exact hlook
  obtain ⟨hpad, hstored⟩ := h.parts k info hk hlook'
  have hcomp : (flushIndex.exec s).2.compression = s.compression := by rw [hframe]
  have hin := h.space.extents.inside info.span (List.mem_map_of_mem (mem_values hlook'))
  refine ⟨hpad, fun ht => ?_⟩
  obtain ⟨payload, hst⟩ := hstored ht
  rw [hcomp]
  refine ⟨payload, hst.congr (hread _ _ hin.1 ?_)⟩
  rw [← hpad]
  exact hin.2.1

theorem Sane.withScript (h : Sane s) (script : List Outcome) : Sane (s.withScript script) :=
  ⟨h.laid.of_frame h.laid.superblock rfl rfl rfl rfl rfl rfl rfl, h.space.congr rfl rfl rfl, h.padded, h.parts⟩

theorem Formatted.sane {opts : FormatOptions} (h : Formatted opts s) : Sane s :=
  ⟨h.laid, h.space, h.content .index, (h.content .slots).on _⟩

/-- What is opened after a state that is sane is sane, and has no parts. -/
theorem Sane.reopened {d : Disk} {mode : OpenMode} {script : List Outcome} {io : DeviceIo} (h : Sane s) (hd : Committed s d)
    (hopen : (openImpl mode false).exec (.onDisk d false script) = (.ok s', io)) :
    Sane s' ∧ ∀ k, Reserved k → s'.files.lookup k = none := by
  obtain ⟨hsub, hlayout, hdev, hcomp, hdesc, hwritable, hro, hdirect, -⟩ := hd.opened hopen
  have hsize : s'.io.dev.size = s.io.dev.size := by rw [hdev, hd.size_eq]
  have hdesc' : Describes s'.superblock s := by
    refine ⟨?_, hdesc.magic, hdesc.version, hdesc.blockAlignment, hdesc.maxKeyLength, ?_, ?_⟩
    · rw [← hsize, ← hlayout]
      exact hdesc.layout
    · rw [← hcomp]
      exact hdesc.compression
    · rw [← hdirect]
      exact hdesc.flags
  have hnone : ∀ k, Reserved k → s'.files.lookup k = none := by
    intro k hres
    cases hk : s'.files.lookup k with
    | none => rfl
    | some info => exact absurd hres (by simp [(hsub k info hk).2])
  refine ⟨⟨h.laid.of_frame hdesc' hdirect (by rw [hwritable, h.laid.writable]) hsize rfl hlayout hcomp
    (by rw [hro, h.laid.readOnly]), h.space.reopened hd hopen, fun k info hk => ?_, fun k info hres hk => ?_⟩, hnone⟩
  · exact ⟨(h.padded k info (hsub k info hk).1).padded, fun ht => absurd rfl ht.ne_index⟩
  · rw [hnone k hres] at hk
    cases hk

/-- Every run keeps what it found, and what a flush left on a device. -/
theorem reach_sane (h : Reach Proper Committed s) : Sane s := by
  induction h with
  | format h => exact (formatted h).sane
  | @call s _ script now c hc ih =>
    have hs := ih.withScript script
    cases c with
    | op o => exact hs.op o now hc
    | flushIndex => exact hs.flush
    | repair =>
      rw [exec_repair hs.space]
      exact hs.flush
    | reloadIndex => exact hc.elim
  | reopen _ hd hopen ih => exact (ih.reopened hd hopen).1

omit [Crates] in
/-- The keys that `put_part` names are of the reserved prefix. -/
theorem reserved_partKey (uploadId part : Nat) : Reserved (partKey uploadId part) := by
  show isMultipartTmp (partKey uploadId part) = true
  unfold isMultipartTmp partKey
  rw [List.isPrefixOf_iff_prefix, keyBytes_append, keyBytes_append, keyBytes_append, List.append_assoc, List.append_assoc]
  exact List.prefix_append _ _

end Sane

end ObjStr.Raw
