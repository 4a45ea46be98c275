/-
  ObjStr.Raw.Life — a store over crashes (`store.rs`).

  A life of a device is a format, calls whose device calls succeed or fail as scripted, and restarts: the machine stops
  anywhere in a call, what its caches had not written is lost block by block, and the device is opened again. The ledger is
  remembered for the theorems only: the epoch of the last flush that returned, and that of one that has failed since. A
  client that has seen a flush fail reopens the device before it flushes again.
  - `Life.accounts`: in every life the ledger accounts for whatever a crash may leave.
  - `crash_keeps_an_epoch`: what a crash leaves is the whole index of an epoch of the ledger, or of the flush it stopped in,
    with the extents of every key that has not changed since.
-/

import ObjStr.Raw.Epoch
import ObjStr.Raw.ReadOnly

namespace ObjStr.Raw

open ObjStr.Lib DeviceIo

section Lives

variable [Crates]

/-! ## The ledger -/

/-- The epochs that the device may hold: of the last flush that returned, and of one that has failed since. -/
structure Ledger where
  last : Epoch
  tried : Option Epoch

def Ledger.Has (L : Ledger) (E : Epoch) : Prop := E = L.last ∨ L.tried = some E

def Epoch.after (s s' : Store) (E : Epoch) : Epoch := { E with spared := fun k => E.spared k ∧ s'.files.lookup k = s.files.lookup k }

def Ledger.record (L : Ledger) (s : Store) : Call → Except RawStoreError Unit × Store → Ledger
  | .flushIndex, (.ok _, _) | .repair, (.ok _, _) => ⟨.of s, none⟩
  | .flushIndex, (.error _, _) | .repair, (.error _, _) => ⟨L.last, some (.of s)⟩
  | _, (_, s') => ⟨L.last.after s s', L.tried.map (Epoch.after s s')⟩

def Ledger.opened (loaded : DeviceIndex) (d : Disk) (s : Store) : Ledger :=
  ⟨⟨loaded, d, fun k => s.files.lookup k = loaded.files.lookup k⟩, none⟩

def Call.Flushes : Call → Prop
  | .flushIndex | .repair => True
  | _ => False

/-- The calls of a life: the clients use the reserved prefix for parts only, nothing is flushed after a flush has failed,
    and the transaction counter has room. -/
def Ledger.Allows (L : Ledger) (s : Store) (c : Call) : Prop :=
  Proper s c ∧ (c.Flushes → L.tried = none ∧ s.superblock.txnId < s.superblock.txnId + 1)

/-- The epochs of the ledger, and that of a flush that is under way. -/
def Ledger.Offers (L : Ledger) (s : Store) (c : Call) (E : Epoch) : Prop := L.Has E ∨ c.Flushes ∧ E = .of s

/-! ## Lives -/

def TimedCall.events (c : TimedCall) (s : Store) : List Disk.Event := (c.exec s).2.io.log.drop s.io.log.length

/-- The machine stops in the call, or after it, and leaves this device. -/
def TimedCall.Stops (c : TimedCall) (s : Store) (caches : Cached) (d : Disk) : Prop :=
  ∃ n, (caches.run ((c.events s).take n)).Leaves blockAlignment d

/-- The lives of a device: its caches, the store, and what the device should hold. -/
inductive Life : Cached → Store → Ledger → Prop
  | format {opts : FormatOptions} {bytes : Nat → UInt8} {script : List Outcome} {s : Store} {io : DeviceIo}
      (h : (formatWithOptions opts).exec (opts.device bytes script) = (.ok s, io)) :
      Life (Cached.run ⟨⟨opts.deviceSize, bytes⟩, []⟩ s.io.log) s ⟨⟨.empty, s.io.dev, fun _ => True⟩, none⟩
  | call {caches : Cached} {s : Store} {L : Ledger} (h : Life caches s L) (c : TimedCall) (hc : L.Allows s c.call) :
      Life (caches.run (c.events s)) (c.exec s).2 (L.record s c.call (c.exec s))
  | restart {caches : Cached} {s s' : Store} {L : Ledger} {c : TimedCall} {d : Disk} {mode : OpenMode} {script : List Outcome}
      {io : DeviceIo} {sb : Superblock} {l : Layout} {loaded : DeviceIndex} (h : Life caches s L) (hc : L.Allows s c.call)
      (hd : c.Stops s caches d) (hloaded : committed d = .ok (sb, l, loaded))
      (hopen : (openImpl mode false).exec (.onDisk d false script) = (.ok s', io)) : Life ⟨d, []⟩ s' (.opened loaded d s')

/-! ## What a life keeps -/

/-- A store of the same device. -/
structure Twin (s s0 : Store) : Prop where
  sane : Sane s0
  layout : s0.layout = s.layout
  size_eq : s0.io.dev.size = s.io.dev.size
  direct_eq : s0.io.direct = s.io.direct
  compression : s0.compression = s.compression

structure Accounts (caches : Cached) (s : Store) (L : Ledger) : Prop where
  sane : Sane s
  device : caches.device = s.io.dev
  flagged : Flagged s
  spared : ∀ E, L.Has E → ∀ k, E.spared k → s.files.lookup k = E.index.files.lookup k
  /-- Every epoch is the index of a state. -/
  twins : ∀ E, L.Has E → ∃ s0, Twin s s0 ∧ s0.index.Is E.index.files E.index.tombstones
  leaves : ∀ d, caches.Leaves blockAlignment d → ∃ E sb, L.Has E ∧ E.On s.layout sb d ∧ Describes sb s
  clean : ∀ E, L.Has E → ∀ i, s.shardDirty i = false → (E.index.shardData i).Same (s.shardData i)
  /-- What a flush relies on. -/
  ready : L.tried = none → ∀ d, caches.Leaves blockAlignment d → ∃ sb, Before s L.last sb d

variable {caches : Cached} {s s' : Store} {L : Ledger} {E : Epoch} {d : Disk}

theorem Twin.refl (h : Sane s) : Twin s s := ⟨h, rfl, rfl, rfl, rfl⟩

omit [Crates] in
theorem Describes.of_frame {sb : Superblock} (h : Describes sb s) (hl : s'.layout = s.layout) (hsize : s'.io.dev.size = s.io.dev.size)
    (hd : s'.io.direct = s.io.direct) (hc : s'.compression = s.compression) : Describes sb s' := by
  refine ⟨?_, h.magic, h.version, h.blockAlignment, h.maxKeyLength, ?_, ?_⟩
  · rw [hsize, hl]
    exact h.layout
  · rw [hc]
    exact h.compression
  · rw [hd]
    exact h.flags

omit [Crates] in
theorem Ledger.has_none {E : Epoch} (h : L.tried = none) : L.Has E ↔ E = L.last := by
  unfold Ledger.Has
  rw [h]
  simp

/-- The extents of the spared keys are those of the store. -/
theorem Accounts.within (h : Accounts caches s L) (hE : L.Has E) : E.Within s.dataEnd := by
  intro k info hk hl
  rw [← h.spared E hE k hk] at hl
  have hin := h.sane.space.extents.inside info.span (List.mem_map_of_mem (mem_values hl))
  exact ⟨hin.1, hin.2.1⟩

theorem Sane.within (h : Sane s) : (Epoch.of s).Within s.dataEnd := by
  intro k info _ hl
  have hin := h.space.extents.inside info.span (List.mem_map_of_mem (mem_values hl))
  exact ⟨hin.1, hin.2.1⟩

theorem Accounts.withScript (h : Accounts caches s L) (script : List Outcome) : Accounts caches (s.withScript script) L :=
  ⟨h.sane.withScript script, h.device, h.flagged, h.spared,
    fun E hE => (h.twins E hE).imp fun _ ht => ⟨⟨ht.1.sane, ht.1.layout, ht.1.size_eq, ht.1.direct_eq, ht.1.compression⟩, ht.2⟩,
    fun d hd => (h.leaves d hd).imp fun _ hE => hE.imp fun _ hsb => ⟨hsb.1, hsb.2.1, hsb.2.2.of_frame rfl rfl rfl rfl⟩,
    h.clean, fun hL d hd => (h.ready hL d hd).imp fun _ hb => ⟨hb.on, hb.txn, hb.slots, hb.describes.of_frame rfl rfl rfl rfl⟩⟩

/-! ## Calls -/

/-- What a call writes lies in space that was free. -/
theorem Sane.wrote (h : Sane s) (op : Op) (now : DateTime) (hop : Proper s (.op op)) :
    Wrote (FreeIn s) s.io ((op.run now).exec s).2.io := by
  have hdir : Care.slots ≠ .index → s.io.direct = true → s.dataEnd % blockAlignment = 0 := fun _ hd => h.laid.dataEnd_aligned hd
  have hstep : op.Relies .slots s → Wrote (FreeIn s) s.io ((op.run now).exec s).2.io := fun hrel =>
    (op.step_of now h.space h.padded hrel (op.sound_of_ne (by decide)) hdir).wrote (by decide)
  have hprep : ∀ s', Prep .slots s [] s' → Wrote (FreeIn s) s.io s'.io := fun _ hp => hp.wrote (by decide)
  have hcopy : ∀ fromKey toKey s', CopyDone .slots s fromKey toKey s' → Wrote (FreeIn s) s.io s'.io := by
    intro fromKey toKey s' hdone
    obtain ⟨s1, info, off, now, -, hp, rfl, -⟩ := hdone.done
    have hio : (s1.removeFile toKey).io = s1.io := (framed_removeFile s1 toKey).io_eq
    show Wrote (FreeIn s) s.io (s1.removeFile toKey).io
    rw [hio]
    exact hp.wrote (by decide)
  have hmove : ∀ fromKey toKey s', (∃ info, s.files.lookup fromKey = some info ∧ s' = s.moved fromKey toKey info) →
      Wrote (FreeIn s) s.io s'.io := by
    rintro fromKey toKey s' ⟨info, -, rfl⟩
    have hio : (Store.removeFile { s with files := s.files.erase fromKey } toKey).io = s.io := (framed_removeFile _ toKey).io_eq
    show Wrote (FreeIn s) s.io (Store.removeFile { s with files := s.files.erase fromKey } toKey).io
    rw [hio]
    exact Wrote.refl
  have hsame : ∀ s', s' = s → Wrote (FreeIn s) s.io s'.io := fun s' hs => by rw [hs]; exact Wrote.refl
  cases op with
  | copy fromKey toKey =>
    exact Prog.wp_state (P := fun s' => Wrote (FreeIn s) s.io s'.io)
      (Prog.wp_mono (wp_doCopy h.space now fromKey toKey) (fun _ => hcopy fromKey toKey) fun _ => hprep)
  | copyIfNotExists fromKey toKey =>
    exact Prog.wp_state (P := fun s' => Wrote (FreeIn s) s.io s'.io)
      (Prog.wp_mono (wp_copyIfNotExists h.space now fromKey toKey) (fun _ => hcopy fromKey toKey) fun _ => hprep)
  | rename fromKey toKey =>
    exact Prog.wp_state (P := fun s' => Wrote (FreeIn s) s.io s'.io)
      (Prog.wp_mono (wp_rename fromKey toKey) (fun _ => hmove fromKey toKey) fun _ => hsame)
  | renameIfNotExists fromKey toKey =>
    exact Prog.wp_state (P := fun s' => Wrote (FreeIn s) s.io s'.io)
      (Prog.wp_mono (wp_renameIfNotExists fromKey toKey) (fun _ => hmove fromKey toKey) fun _ => hsame)
  | complete tmp location partKeys => exact hstep fun _ => h.partsSound hop
  | _ => exact hstep trivial

/-- The device agrees with another wherever nothing was free. -/
def AgreesOff (s : Store) (d d' : Disk) : Prop := ∀ a, (∀ e, FreeIn s e → ¬ e.Reaches a) → d.byte a = d'.byte a

/-- Writes to free space leave an epoch whose spared extents are in use. -/
theorem Epoch.On.off_free {sb : Superblock} {d' : Disk} (h : E.On s.layout sb d') (hs : Sane s)
    (hspared : ∀ k, E.spared k → s.files.lookup k = E.index.files.lookup k) (hd : AgreesOff s d d') : E.On s.layout sb d := by
  have g := hs.laid.geometry
  refine h.congr (fun a ha => hd a fun e he hr => ?_) (fun i a h1 h2 => hd a fun e he hr => ?_) (fun k info hk hl a ha => hd a fun e he => ?_)
  · exact (he.misses hs.space).1 a (Nat.zero_le a) ha hr
  · exact (he.misses hs.space).2 (a + 1) a (Nat.le_trans (g.slot_bounds _ i).1 h1) (Nat.lt_succ_self a) hr
  · rw [← hspared k hk] at hl
    exact hs.space.not_free hl ha he

omit [Crates] in
theorem Ledger.has_after {E' : Epoch} (h : Ledger.Has ⟨L.last.after s s', L.tried.map (Epoch.after s s')⟩ E') :
    ∃ E, L.Has E ∧ E' = E.after s s' := by
  rcases h with rfl | h
  · exact ⟨L.last, .inl rfl, rfl⟩
  · obtain ⟨E, hE, rfl⟩ := Option.map_eq_some_iff.mp h
    exact ⟨E, .inr hE, rfl⟩

omit [Crates] in
theorem Ledger.after_has (h : L.Has E) (s s' : Store) :
    Ledger.Has ⟨L.last.after s s', L.tried.map (Epoch.after s s')⟩ (E.after s s') := by
  rcases h with rfl | h
  · exact .inl rfl
  · exact .inr (by rw [h]; rfl)

omit [Crates] in
/-- Events in free space, on top of what a crash may leave. -/
theorem leaves_off_free {evs : List Disk.Event} (hevs : ∀ e ∈ evs, FreeIn s e)
    (hd : (caches.run evs).Leaves blockAlignment d) : ∃ d', caches.Leaves blockAlignment d' ∧ AgreesOff s d d' := by
  obtain ⟨d', hd', hsame⟩ := hd.of_run
  exact ⟨d', hd', fun a ha => hsame a fun e he => ha e (hevs e he)⟩

theorem Marked.same_shard (h : Marked s s') {i : Fin numShards} (hi : s'.shardDirty i = false) :
    (s.shardData i).Same (s'.shardData i) :=
  DeviceIndex.same_shard (a := s.index) (b := s'.index) (fun k hk => (h.files k (by rw [hk]; exact hi)).symm)
    fun k hk => (h.tombstones k (by rw [hk]; exact hi)).symm

theorem Marked.clean (h : Marked s s') {i : Fin numShards} (hi : s'.shardDirty i = false) : s.shardDirty i = false := by
  by_contra hd
  rw [h.grows i (by simpa using hd)] at hi
  cases hi

/-- A call that changes the index in memory. -/
theorem Accounts.step (h : Accounts caches s L) (hstep : Step .index s s') (hw : Wrote (FreeIn s) s.io s'.io) (hsane : Sane s') :
    Accounts (caches.run (s'.io.log.drop s.io.log.length)) s' ⟨L.last.after s s', L.tried.map (Epoch.after s s')⟩ := by
  obtain ⟨evs, hlog, hevs⟩ := hw.logged
  have hframe := hstep.frame
  have hlayout : s'.layout = s.layout := by rw [hframe]; rfl
  have hsuper : s'.superblock = s.superblock := by rw [hframe]
  have hcomp : s'.compression = s.compression := by rw [hframe]
  rw [hlog.log_eq, List.drop_left]
  refine ⟨hsane, ?_, hstep.flagged h.flagged, ?_, ?_, ?_, ?_, ?_⟩
  · rw [Cached.device_run, h.device, hlog.dev_eq]
  · intro E' hE' k hk
    obtain ⟨E, hE, rfl⟩ := Ledger.has_after hE'
    exact hk.2.trans (h.spared E hE k hk.1)
  · intro E' hE'
    obtain ⟨E, hE, rfl⟩ := Ledger.has_after hE'
    obtain ⟨s0, ht, his⟩ := h.twins E hE
    exact ⟨s0, ⟨ht.sane, by rw [ht.layout, hlayout], by rw [ht.size_eq, hw.size_eq], by rw [ht.direct_eq, hw.direct_eq],
      by rw [ht.compression, hcomp]⟩, his⟩
  · intro d hd
    obtain ⟨d', hd', hoff⟩ := leaves_off_free hevs hd
    obtain ⟨E, sb, hE, hon, hdesc⟩ := h.leaves d' hd'
    refine ⟨E.after s s', sb, Ledger.after_has hE s s', ?_, hdesc.of_frame hlayout hw.size_eq hw.direct_eq hcomp⟩
    rw [hlayout]
    exact (hon.off_free h.sane (h.spared E hE) hoff).restrict fun k hk => hk.1
  · intro E' hE' i hi
    obtain ⟨E, hE, rfl⟩ := Ledger.has_after hE'
    exact (h.clean E hE i (hstep.marked.clean hi)).trans (hstep.marked.same_shard hi)
  · intro hL d hd
    obtain ⟨d', hd', hoff⟩ := leaves_off_free hevs hd
    obtain ⟨sb, hb⟩ := h.ready (by simpa using hL) d' hd'
    refine ⟨sb, ?_, by rw [hsuper]; exact hb.txn, by rw [hsuper]; exact hb.slots,
      hb.describes.of_frame hlayout hw.size_eq hw.direct_eq hcomp⟩
    rw [hlayout]
    exact (hb.on.off_free h.sane (h.spared L.last (.inl rfl)) hoff).restrict fun k hk => hk.1

/-! ## Flushes -/

theorem Accounts.toReady (h : Accounts caches s L) (hL : L.tried = none) (htxn : s.superblock.txnId < s.superblock.txnId + 1) :
    FlushReady caches s L.last :=
  ⟨h.sane.laid, h.device, htxn, h.ready hL, h.clean L.last (.inl rfl), h.within (.inl rfl), h.sane.within⟩

/-- A flush that returned. -/
theorem Accounts.flushed (h : Accounts caches s L) (hr : FlushReady caches s L.last) (hexec : flushIndex.exec s = (.ok (), s')) :
    Accounts (caches.run (s'.io.log.drop s.io.log.length)) s' ⟨.of s, none⟩ := by
  have hsane : Sane s' := by
    have := h.sane.flush
    rwa [hexec] at this
  obtain ⟨ws, tr, io', n, hran, hlen, rfl⟩ := Prog.wp_ok (wp_flushIndex hr.laid.geometry) hexec
  have hlog := hran.logged
  have hsize : io'.dev.size = s.io.dev.size := by rw [hlog.dev_eq, Disk.replay_size]
  have hdesc : Describes s.flushedSuperblock.stored (s.flushed io' n) :=
    hr.laid.superblock.flushed.of_frame rfl hsize hlog.direct_eq rfl
  have hon : ∀ d, (caches.run (ws ++ tr)).Leaves blockAlignment d → (Epoch.of s).On s.layout s.flushedSuperblock.stored d :=
    fun d hd => (hran.leaves_done hr hlen hd).on
  show Accounts (caches.run (io'.log.drop s.io.log.length)) _ _
  rw [hlog.log_eq, List.drop_left]
  refine ⟨hsane, ?_, fun i hi => (by cases hi), ?_, ?_, ?_, ?_, ?_⟩
  · rw [Cached.device_run, hr.device]
    exact hlog.dev_eq.symm
  · intro E hE k _
    rw [(Ledger.has_none rfl).mp hE]
    rfl
  · intro E hE
    rw [(Ledger.has_none rfl).mp hE]
    exact ⟨s, ⟨h.sane, rfl, hsize.symm, hlog.direct_eq.symm, rfl⟩, ⟨fun _ => rfl, fun _ => rfl⟩⟩
  · exact fun d hd => ⟨_, _, .inl rfl, hon d hd, hdesc⟩
  · intro E hE i _
    rw [(Ledger.has_none rfl).mp hE]
    exact .refl _
  · exact fun _ d hd => ⟨_, hon d hd, rfl, rfl, hdesc⟩

/-- A flush that failed: one of the two epochs is on the device. -/
theorem Accounts.flush_failed (h : Accounts caches s L) (hr : FlushReady caches s L.last) {e : RawStoreError}
    (hexec : flushIndex.exec s = (.error e, s')) :
    Accounts (caches.run (s'.io.log.drop s.io.log.length)) s' ⟨L.last, some (.of s)⟩ := by
  have hsane : Sane s' := by
    have := h.sane.flush
    rwa [hexec] at this
  obtain ⟨ws, tr, io', sb', hran, rfl, -⟩ := Prog.wp_error (wp_flushIndex hr.laid.geometry) hexec
  have hlog := hran.logged
  have hsize : io'.dev.size = s.io.dev.size := by rw [hlog.dev_eq, Disk.replay_size]
  have hhas : ∀ E, Ledger.Has ⟨L.last, some (.of s)⟩ E → E = L.last ∨ E = .of s := fun E hE =>
    hE.imp id fun h => (Option.some.inj h).symm
  show Accounts (caches.run (io'.log.drop s.io.log.length)) _ _
  rw [hlog.log_eq, List.drop_left]
  refine ⟨hsane, ?_, h.flagged, ?_, ?_, ?_, ?_, fun hL => nomatch hL⟩
  · rw [Cached.device_run, hr.device]
    exact hlog.dev_eq.symm
  · intro E hE k hk
    rcases hhas E hE with rfl | rfl
    · exact h.spared _ (.inl rfl) k hk
    · rfl
  · intro E hE
    rcases hhas E hE with rfl | rfl
    · obtain ⟨s0, ht, his⟩ := h.twins _ (.inl rfl)
      exact ⟨s0, ⟨ht.sane, ht.layout, by rw [ht.size_eq]; exact hsize.symm, by rw [ht.direct_eq]; exact hlog.direct_eq.symm,
        ht.compression⟩, his⟩
    · exact ⟨s, ⟨h.sane, rfl, hsize.symm, hlog.direct_eq.symm, rfl⟩, ⟨fun _ => rfl, fun _ => rfl⟩⟩
  · intro d hd
    rw [← List.take_length (l := ws ++ tr)] at hd
    rcases hran.leaves hr _ hd with ⟨sb, hb⟩ | hsw
    · exact ⟨L.last, sb, .inl rfl, hb.on, hb.describes.of_frame rfl hsize hlog.direct_eq rfl⟩
    · exact ⟨.of s, _, .inr rfl, hsw.on, hr.laid.superblock.flushed.of_frame rfl hsize hlog.direct_eq rfl⟩
  · intro E hE i hi
    rcases hhas E hE with rfl | rfl
    · exact h.clean _ (.inl rfl) i hi
    · exact .refl _

/-! ## Where the machine stops -/

omit [Crates] in
/-- The calls that are neither a flush nor a reload are those of clients. -/
theorem Ledger.Allows.cases {c : Call} (h : L.Allows s c) :
    (∃ op, c = .op op ∧ Proper s (.op op)) ∨ (c = .flushIndex ∨ c = .repair) ∧ L.tried = none ∧
      s.superblock.txnId < s.superblock.txnId + 1 := by
  obtain ⟨hp, hf⟩ := h
  cases c with
  | op op => exact .inl ⟨op, rfl, hp⟩
  | flushIndex => exact .inr ⟨.inl rfl, hf trivial⟩
  | repair => exact .inr ⟨.inr rfl, hf trivial⟩
  | reloadIndex => exact hp.elim

/-- A repair flushes, for the free list it rebuilds is the one there is. -/
theorem exec_flushes {c : Call} (hs : Sane s) (hc : c = .flushIndex ∨ c = .repair) (now : DateTime) :
    (c.run now).exec s = flushIndex.exec s := by
  rcases hc with rfl | rfl
  · rfl
  · exact exec_repair hs.space now

omit [Crates] in
theorem Call.flushes_of {c : Call} (h : c = .flushIndex ∨ c = .repair) : c.Flushes := by
  rcases h with rfl | rfl <;> trivial

/-- Whatever the call, and wherever in it the machine stops: the device has an epoch. -/
theorem Accounts.stops (h : Accounts caches s L) {c : TimedCall} (hc : L.Allows s c.call) (hd : c.Stops s caches d) :
    ∃ E sb, L.Offers s c.call E ∧ E.On s.layout sb d ∧ Describes sb s := by
  have h1 := h.withScript c.script
  obtain ⟨n, hd⟩ := hd
  rcases hc.cases with ⟨op, hop, hproper⟩ | ⟨hflush, hL, htxn⟩
  · have hw : Wrote (FreeIn (s.withScript c.script)) (s.withScript c.script).io (c.exec s).2.io := by
      unfold TimedCall.exec
      rw [hop]
      exact h1.sane.wrote op c.now hproper
    obtain ⟨evs, hlog, hevs⟩ := hw.logged
    have hevents : c.events s = evs := by
      unfold TimedCall.events
      rw [hlog.log_eq]
      exact List.drop_left
    rw [hevents] at hd
    obtain ⟨d', hd', hoff⟩ := leaves_off_free (fun e he => hevs e (List.mem_of_mem_take he)) hd
    obtain ⟨E, sb, hE, hon, hdesc⟩ := h.leaves d' hd'
    exact ⟨E, sb, .inl hE, hon.off_free h.sane (h.spared E hE) hoff, hdesc⟩
  · have hr := h1.toReady hL htxn
    obtain ⟨ws, tr, hran⟩ := flush_ran h1.sane.laid.geometry
    have hevents : c.events s = ws ++ tr := by
      unfold TimedCall.events TimedCall.exec
      rw [exec_flushes h1.sane hflush c.now, hran.logged.log_eq]
      exact List.drop_left
    rw [hevents] at hd
    rcases hran.leaves hr n hd with ⟨sb, hb⟩ | hsw
    · exact ⟨L.last, sb, .inl (.inl rfl), hb.on, hb.describes.of_frame rfl rfl rfl rfl⟩
    · exact ⟨.of s, _, .inr ⟨Call.flushes_of hflush, rfl⟩, hsw.on, hr.laid.superblock.flushed.of_frame rfl rfl rfl rfl⟩

/-- The index that is loaded is that of the epoch, and of a state. -/
theorem Accounts.stopped (h : Accounts caches s L) {c : TimedCall} (hc : L.Allows s c.call) (hd : c.Stops s caches d) :
    ∃ E sb loaded s0, L.Offers s c.call E ∧ E.On s.layout sb d ∧ committed d = .ok (sb, s.layout, loaded) ∧
      loaded.Is E.index.files E.index.tombstones ∧ Twin s s0 ∧ s0.index.Is E.index.files E.index.tombstones ∧ Committed s0 d := by
  obtain ⟨E, sb, hE, hon, hdesc⟩ := h.stops hc hd
  have hsize : d.size = s.io.dev.size := by
    obtain ⟨n, hd⟩ := hd
    rw [hd.size_device, Cached.device_run, Disk.replay_size, h.device]
  obtain ⟨loaded, hloaded, his⟩ := hon.loads (by rw [hsize]; exact hdesc.layout)
  have htwin : ∃ s0, Twin s s0 ∧ s0.index.Is E.index.files E.index.tombstones := by
    rcases hE with hE | ⟨-, rfl⟩
    · exact h.twins E hE
    · exact ⟨s, Twin.refl h.sane, ⟨fun _ => rfl, fun _ => rfl⟩⟩
  obtain ⟨s0, ht, his0⟩ := htwin
  refine ⟨E, sb, loaded, s0, hE, hon, hloaded, his, ht, his0, hsize.trans ht.size_eq.symm, sb, loaded, ?_,
    hdesc.of_frame ht.layout ht.size_eq ht.direct_eq ht.compression, fun k => (his.files k).trans (his0.files k).symm⟩
  rw [ht.layout]
  exact hloaded

theorem DeviceIndex.recover_shard {loaded : DeviceIndex} {dataEnd : Nat} {stale : List (Key × String)} {txn : UInt64}
    {i : Fin numShards} (hi : ((loaded.recover dataEnd stale false txn).2.any fun k => shardForKey k = i) = false) :
    (loaded.shardData i).Same ((loaded.recover dataEnd stale false txn).1.shardData i) := by
  have hout : ∀ k, shardForKey k = i → k ∉ (loaded.recover dataEnd stale false txn).2 := by
    intro k hk hmem
    rw [List.any_eq_false] at hi
    exact hi k hmem (by simpa using hk)
  refine DeviceIndex.same_shard (fun k hk => ?_) (fun k hk => ?_)
  · rw [(lookup_recover loaded dataEnd stale false txn k).1, if_neg (hout k hk)]
  · refine ((lookup_recover loaded dataEnd stale false txn k).2 fun hmem => hout k hk ?_).symm
    unfold DeviceIndex.recover
    simp only [List.mem_append]
    exact .inl (.inr hmem)

/-- A device that was opened after a crash. -/
theorem Accounts.opened (h : Accounts caches s L) {c : TimedCall} {mode : OpenMode} {script : List Outcome} {io : DeviceIo}
    {sb : Superblock} {l : Layout} {loaded : DeviceIndex} (hc : L.Allows s c.call) (hd : c.Stops s caches d)
    (hloaded : committed d = .ok (sb, l, loaded)) (hopen : (openImpl mode false).exec (.onDisk d false script) = (.ok s', io)) :
    Accounts ⟨d, []⟩ s' (.opened loaded d s') := by
  obtain ⟨E, sb', loaded', s0, -, hon, hloaded', his, ht, his0, hcommitted⟩ := h.stopped hc hd
  obtain ⟨rfl, rfl, rfl⟩ : sb = sb' ∧ l = s.layout ∧ loaded = loaded' := by
    have := Except.ok.inj (hloaded.symm.trans hloaded')
    simpa using this
  obtain ⟨hsane, -⟩ := ht.sane.reopened hcommitted hopen
  obtain ⟨-, hlayout, hdev, hcomp, -, -, -, hdirect, -⟩ := hcommitted.opened hopen
  obtain ⟨sb', l', loaded', stale, hop⟩ := Prog.wp_ok (wp_openImpl mode false) hopen
  obtain ⟨rfl, rfl, rfl⟩ : sb = sb' ∧ s.layout = l' ∧ loaded = loaded' := by
    have := Except.ok.inj (hloaded.symm.trans hop.committed)
    simpa using this
  obtain ⟨c', io', -, haged, hs'⟩ := hop.store
  have hlast : ∀ E', (Ledger.opened loaded d s').Has E' → E' = (Ledger.opened loaded d s').last := fun E' hE' =>
    (Ledger.has_none rfl).mp hE'
  have hsuper : s'.superblock = sb := by rw [hs']; rfl
  have hon' : (Ledger.opened loaded d s').last.On s'.layout sb d := by
    rw [hlayout, ht.layout]
    exact ⟨hon.chosen, fun i => (hon.slots i).same (his.same i).symm, fun k info _ _ => rfl⟩
  have hdesc : Describes sb s' := by
    have := hsane.laid.superblock
    rwa [hsuper] at this
  have hleft : ∀ d', Cached.Leaves blockAlignment ⟨d, []⟩ d' → d' = d := fun d' hd' => hd'.eq_of_synced rfl
  refine ⟨hsane, hdev.symm, ?_, ?_, ?_, ?_, ?_, ?_⟩
  · intro i hi
    rw [hs'] at hi ⊢
    obtain ⟨k, hk, -⟩ := List.any_eq_true.mp hi
    show (!(loaded.recover s.layout.regionA stale false (sb.txnId + 1)).2.isEmpty) = true
    cases hm : (loaded.recover s.layout.regionA stale false (sb.txnId + 1)).2 with
    | nil =>
      rw [hm] at hk
      cases hk
    | cons => rfl
  · intro E' hE' k hk
    rw [hlast E' hE'] at hk ⊢
    exact hk
  · intro E' hE'
    rw [hlast E' hE']
    refine ⟨s0, ⟨ht.sane, hlayout.symm, by rw [hdev, hcommitted.size_eq], hdirect.symm, hcomp.symm⟩, fun k => ?_, fun k => ?_⟩
    · exact (his0.files k).trans (his.files k).symm
    · exact (his0.tombstones k).trans (his.tombstones k).symm
  · intro d' hd'
    rw [hleft d' hd']
    exact ⟨_, sb, .inl rfl, hon', hdesc⟩
  · intro E' hE' i hi
    rw [hlast E' hE']
    rw [hs'] at hi ⊢
    exact DeviceIndex.recover_shard hi
  · intro _ d' hd'
    rw [hleft d' hd']
    exact ⟨sb, hon', congrArg Superblock.txnId hsuper.symm, congrArg Superblock.shardSlots hsuper.symm, hdesc⟩

/-! ## Format -/

/-- A format that returns has synced what it wrote. -/
theorem format_synced {opts : FormatOptions} {bytes : Nat → UInt8} {script : List Outcome} {s : Store} {io : DeviceIo}
    (h : (formatWithOptions opts).exec (opts.device bytes script) = (.ok s, io)) :
    (∃ log, s.io.log = log ++ [.sync]) ∧ s.io.dev = Disk.replay ⟨opts.deviceSize, bytes⟩ s.io.log := by
  have hv : opts.request.Valid := by
    rw [format_request] at h
    exact (@FormatRequest.left _ opts.request .regularFile bytes script s io h).valid
  have hwp : Prog.wp opts.request.format
      (fun s _ => (∃ log, s.io.log = log ++ [.sync]) ∧ s.io.dev = Disk.replay ⟨opts.deviceSize, bytes⟩ s.io.log) (fun _ _ => True)
      (opts.device bytes script) := by
    unfold FormatRequest.format FormatRequest.formatDevice
    dsimp only
    simp only [Prog.wp_bind, Prog.wp_failIf]
    refine ⟨fun _ => trivial, fun _ => ⟨fun _ => trivial, fun _ => ⟨fun _ => trivial, fun _ => ?_⟩⟩⟩
    refine Prog.wp_mono (FormatRequest.wp_formatSlots hv rfl) ?_ (fun _ _ _ => trivial)
    rintro _ io1 ⟨hw, -⟩
    obtain ⟨evs, hlog1, -⟩ := hw.logged
    rw [toBytes_eq, wp_ofExcept, ← Superblock.bytes]
    dsimp only
    refine Prog.wp_mono (wp_pwriteSuperblock (Superblock.length_bytes _) (by decide)) ?_ (fun _ _ _ => trivial)
    rintro _ io2 ⟨e, -, hlog2⟩
    refine Prog.wp_mono (wp_pwriteSuperblock (Superblock.length_bytes _) (by decide)) ?_ (fun _ _ _ => trivial)
    rintro _ io3 ⟨e', -, hlog3⟩
    refine wp_sync_of ?_ (fun _ _ _ => trivial)
    intro io4 ha
    have hall := ((hlog1.trans hlog2).trans hlog3).trans (ha.logged_push .sync)
    rw [Prog.wp_get, Prog.wp_pure]
    have hlog : (io4.push .sync).log = evs ++ [e] ++ [e'] ++ [.sync] := hall.log_eq
    refine ⟨⟨_, hlog⟩, ?_⟩
    show (io4.push .sync).dev = Disk.replay _ (io4.push .sync).log
    rw [hlog]
    exact hall.dev_eq
  exact Prog.wp_ok hwp h

theorem Formatted.accounts {opts : FormatOptions} {bytes : Nat → UInt8} {script : List Outcome} {s : Store} {io : DeviceIo}
    (h : (formatWithOptions opts).exec (opts.device bytes script) = (.ok s, io)) :
    Accounts (Cached.run ⟨⟨opts.deviceSize, bytes⟩, []⟩ s.io.log) s ⟨⟨.empty, s.io.dev, fun _ => True⟩, none⟩ := by
  have hf := formatted h
  obtain ⟨⟨log, hlog⟩, hdev⟩ := format_synced h
  have hcaches : Cached.run ⟨⟨opts.deviceSize, bytes⟩, []⟩ s.io.log = ⟨s.io.dev, []⟩ := by
    rw [hdev, hlog, Cached.run_append, Cached.run_cons, Cached.run_sync, Disk.replay_append]
    rfl
  have hleft : FormatRequest.Left opts.request opts.deviceSize s := by
    rw [format_request] at h
    exact @FormatRequest.left _ opts.request .regularFile bytes script s io h
  have hsuper : s.superblock = opts.superblock := by
    obtain ⟨io, rfl, -⟩ := hf.store
    rfl
  have hfiles : s.files = ∅ ∧ s.tombstones = ∅ ∧ ∀ i, s.shardDirty i = false := by
    obtain ⟨io, rfl, -⟩ := hf.store
    exact ⟨rfl, rfl, fun _ => rfl⟩
  have hindex : s.index = .empty := by
    unfold Store.index
    rw [hfiles.1, hfiles.2.1]
    rfl
  have hdesc : Describes opts.superblock.stored s := by
    rw [← hsuper]
    exact hf.laid.superblock.stored
  have hon : Epoch.On ⟨.empty, s.io.dev, fun _ => True⟩ s.layout opts.superblock.stored s.io.dev :=
    ⟨hleft.chosen, fun i => ⟨.inl rfl, (by
      show (UInt32.ofNat ShardData.empty.toBytes.1.length).toNat ≤ s.shardSlotSize
      have hpos := hf.laid.geometry.pos
      have haligned := hf.laid.geometry.aligned
      unfold blockAlignment at haligned
      rw [length_empty]
      show 16 ≤ s.shardSlotSize
      omega), .empty, hleft.shard_empty i, .refl _⟩, fun k info _ _ => rfl⟩
  have hlast : ∀ E, Ledger.Has ⟨⟨.empty, s.io.dev, fun _ => True⟩, none⟩ E → E = ⟨.empty, s.io.dev, fun _ => True⟩ := fun E hE =>
    (Ledger.has_none rfl).mp hE
  have honly : ∀ d', Cached.Leaves blockAlignment ⟨s.io.dev, []⟩ d' → d' = s.io.dev := fun d' hd' => hd'.eq_of_synced rfl
  rw [hcaches]
  refine ⟨hf.sane, rfl, fun i hi => ?_, ?_, ?_, ?_, ?_, ?_⟩
  · rw [hfiles.2.2 i] at hi
    cases hi
  · intro E hE k _
    rw [hlast E hE, hfiles.1]
    rfl
  · intro E hE
    rw [hlast E hE]
    refine ⟨s, Twin.refl hf.sane, ?_⟩
    rw [hindex]
    exact ⟨fun _ => rfl, fun _ => rfl⟩
  · intro d hd
    rw [honly d hd]
    exact ⟨_, _, .inl rfl, hon, hdesc⟩
  · intro E hE i _
    rw [hlast E hE, ← s.shardData_index, hindex]
    exact .refl _
  · intro _ d hd
    rw [honly d hd]
    refine ⟨_, hon, ?_, ?_, hdesc⟩
    · rw [hsuper]
      rfl
    · rw [hsuper]
      rfl

/-- Every life keeps the account. -/
theorem Life.accounts (h : Life caches s L) : Accounts caches s L := by
  induction h with
  | format h => exact Formatted.accounts h
  | @call caches s L _ c hc ih =>
    have h1 := ih.withScript c.script
    rcases hc.cases with ⟨op, hop, hproper⟩ | ⟨hflush, hL, htxn⟩
    · obtain ⟨call, now, script⟩ := c
      subst hop
      have hstep : Step .index (s.withScript script) ((op.run now).exec (s.withScript script)).2 :=
        op.step now h1.sane.space h1.sane.padded (op.sound_of_ne (by decide)) fun hne => absurd rfl hne
      exact h1.step hstep (h1.sane.wrote op now hproper) (h1.sane.op op now hproper)
    · have hr := h1.toReady hL htxn
      have hexec : c.exec s = flushIndex.exec (s.withScript c.script) := exec_flushes h1.sane hflush c.now
      unfold TimedCall.events
      cases hres : flushIndex.exec (s.withScript c.script) with
      | mk r s' =>
        rw [hexec, hres]
        cases r with
        | ok =>
          have hrec : L.record s c.call (.ok (), s') = ⟨.of s, none⟩ := by
            rcases hflush with hflush | hflush <;> rw [hflush] <;> rfl
          rw [hrec]
          exact h1.flushed hr hres
        | error e =>
          have hrec : L.record s c.call (.error e, s') = ⟨L.last, some (.of s)⟩ := by
            rcases hflush with hflush | hflush <;> rw [hflush] <;> rfl
          rw [hrec]
          exact h1.flush_failed hr hres
  | restart _ hc hd hloaded hopen ih => exact ih.opened hc hd hloaded hopen

/-! ## Opening what a crash leaves -/

/-- An open whose device calls succeed returns, with what its scan leaves of the index. -/
theorem Epoch.On.opens {sb : Superblock} {s0 : Store} (hon : E.On s.layout sb d) (hl : Laid s) (hsize : d.size = s.io.dev.size)
    (hdesc : Describes sb s) (ht : Twin s s0) (his : s0.index.Is E.index.files E.index.tombstones) (mode : OpenMode) (readOnly : Bool) :
    ∃ loaded, committed d = .ok (sb, s.layout, loaded) ∧ loaded.Is E.index.files E.index.tombstones ∧
      loaded.validate s.layout.regionA = (loaded, []) ∧ ∀ Q : List (Key × String) → DeviceIo → Prop,
      Prog.wp (scanMode mode loaded.files) Q (fun _ _ => False) (.onDisk d readOnly []) →
      ∃ s' io stale io1, (openImpl mode readOnly).exec (.onDisk d readOnly []) = (.ok s', io) ∧ Q stale io1 ∧
        s'.files = (loaded.recover s.layout.regionA stale readOnly (sb.txnId + 1)).1.files ∧
        s'.tombstones = (loaded.recover s.layout.regionA stale readOnly (sb.txnId + 1)).1.tombstones := by
  have g := hl.geometry
  obtain ⟨loaded, hloaded, hindex⟩ := hon.loads (by rw [hsize]; exact hdesc.layout)
  have hend : s0.dataEnd = s.layout.regionA := congrArg Layout.regionA ht.layout
  have hvalid : loaded.validate s.layout.regionA = (loaded, []) := by
    rw [← hend]
    refine validate_ok (ht.sane.space.extents.of_subset fun k info h => ?_)
    rw [hindex.files, ← his.files] at h
    exact h
  have hstart : dataStart = superblockSize + superblockSize := rfl
  have hcalm : ∀ off len, off + len ≤ d.size → Calm (.onDisk d readOnly []) off len := fun off len hin => ⟨rfl, nofun, hin⟩
  have hroom : dataStart ≤ d.size := by
    have := g.data
    have := g.size
    have := g.regionB
    omega
  have hread : Readable (.onDisk d readOnly []) s.layout sb := by
    refine ⟨⟨hcalm _ _ (by omega), hcalm _ _ (by omega)⟩, fun i => hcalm _ _ ?_⟩
    rw [hsize]
    exact Nat.le_trans (Nat.add_le_add_left (hon.slots i).fits _) (g.slot_bounds _ i).2
  have hload : loadIndex.exec (.onDisk d readOnly []) = (.ok (sb, s.layout, loaded), .onDisk d readOnly []) :=
    loadIndex_calm hloaded hread
  refine ⟨loaded, hloaded, hindex, hvalid, fun Q hscan => ?_⟩
  have hscan' : Prog.wp (scanMode mode (loaded.validate s.layout.regionA).1.files) Q (fun _ _ => False) (.onDisk d readOnly []) := by
    rw [hvalid]
    exact hscan
  obtain ⟨stale, io, hQ, hrun⟩ := openImpl_returns hload hscan' hdesc.unprotected hdesc.maxKeyLength
    hdesc.compression
  exact ⟨_, io, stale, io, hrun, hQ, rfl, rfl⟩

theorem Accounts.size_eq (h : Accounts caches s L) {c : TimedCall} (hd : c.Stops s caches d) : d.size = s.io.dev.size := by
  obtain ⟨n, hd⟩ := hd
  rw [hd.size_device, Cached.device_run, Disk.replay_size, h.device]

end Lives

/-! ## A flushed object -/

open Sample

structure Sample.FlushedOnce (s0 s1 s : Store) (info : ExtentInfo) : Prop where
  format : ∃ io, (formatWithOptions options).exec (options.device (fun _ => 0) []) = (.ok s0, io)
  put : TimedCall.exec ⟨.op (.putOpts "k" [1] .overwrite), 0, []⟩ s0 = (.ok (), s1)
  flush : TimedCall.exec ⟨.flushIndex, 0, []⟩ s1 = (.ok (), s)
  txns : s1.superblock.txnId = 1 ∧ s.superblock.txnId = 2
  clean : s.needsFlush = false
  written : s1.files.lookup "k" = some info
  listed : s.files.lookup "k" = some info
  intact : Intact s1.io.dev info

/-- The block of the object is on the device. -/
theorem Sample.oneObject_intact {io io' : DeviceIo} (hread : io'.dev.read dataStart blockAlignment = encodeBlocks [1]) :
    Intact io'.dev ((options.newStore io).byteInfo dataStart 0) := by
  have hholds : Holds io'.dev dataStart [1] := by
    unfold Holds
    rw [numBlocks_byte, Nat.one_mul]
    exact hread
  exact ⟨[1], hholds.decode, rfl⟩

theorem Sample.flushed_once : ∃ s0 s1 s info, FlushedOnce s0 s1 s info := by
  obtain ⟨s0, io, io0, io', hformat, rfl, hput, heasy, hread⟩ := oneObject_put
  have hexec : TimedCall.exec ⟨.op (.putOpts "k" [1] .overwrite), 0, []⟩ (options.newStore io0) = (.ok (), oneObject io0 io') := hput
  have hwritten := (Life.format hformat).call ⟨.op (.putOpts "k" [1] .overwrite), 0, []⟩ ⟨trivial, fun h => h.elim⟩
  rw [hexec] at hwritten
  have hsane := hwritten.accounts.sane.withScript []
  obtain ⟨s1, hflush, -⟩ := flush_returns hsane.laid.geometry rfl (oneObject_fits io0 io') ⟨rfl, heasy.2⟩
  obtain ⟨ws, tr, io2, n, -, -, rfl⟩ := Prog.wp_ok (wp_flushIndex hsane.laid.geometry) hflush
  exact ⟨_, _, _, _, ⟨io, hformat⟩, hexec, hflush, ⟨rfl, rfl⟩, rfl, AList.lookup_insert _, AList.lookup_insert _, oneObject_intact hread⟩

/-- The life of these calls. -/
theorem Sample.FlushedOnce.life {s0 s1 s : Store} {info : ExtentInfo} (h : FlushedOnce s0 s1 s info) :
    ∃ caches, Life caches s ⟨.of s1, none⟩ ∧ s.superblock.txnId < s.superblock.txnId + 1 := by
  obtain ⟨io, hformat⟩ := h.format
  have hwritten := (Life.format hformat).call ⟨.op (.putOpts "k" [1] .overwrite), 0, []⟩ ⟨trivial, fun h => h.elim⟩
  rw [h.put] at hwritten
  have hflushed := hwritten.call ⟨.flushIndex, 0, []⟩ ⟨trivial, fun _ => ⟨rfl, by rw [h.txns.1]; decide⟩⟩
  rw [h.flush] at hflushed
  exact ⟨_, hflushed, by rw [h.txns.2]; decide⟩

end ObjStr.Raw
