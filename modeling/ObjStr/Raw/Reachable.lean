/-
  ObjStr.Raw.Reachable — what every run keeps: the extents and the free list share the data area
  out, in every state a run reaches, whatever its calls and the outcomes of its device calls are.

  Opening a device continues a run when what is committed on it is the index of a state of the
  run (`Committed`): the entries it loads then share the data area out, and so do those that
  are left after it has removed some.
-/

import ObjStr.Raw.Format
import ObjStr.Raw.Sample

namespace ObjStr.Raw

open ObjStr.Lib DeviceIo

section Reachable

variable [Crates]

/-! ## Flush and repair -/

/-- A flush changes the device, the superblock and the flags. -/
def FlushFrame (s s' : Store) : Prop :=
  s' = { s with io := s'.io, superblock := s'.superblock, shardDirty := s'.shardDirty, dirty := s'.dirty,
                lastFlushBytes := s'.lastFlushBytes }

omit [Crates] in
theorem FlushFrame.trans {s s' s'' : Store} (h : FlushFrame s s') (h' : FlushFrame s' s'') : FlushFrame s s'' := by
  unfold FlushFrame at *
  cases s; cases s'; cases s''
  simp_all

omit [Crates] in
theorem FlushFrame.space {s s' : Store} (h : FlushFrame s s') (hs : SpaceInv s []) : SpaceInv s' [] := by
  rw [h]
  exact hs.congr rfl rfl rfl

omit [Crates] in
theorem frame_onDevice {α : Type} (p : IoM α) (s : Store) :
    Prog.wp (onDevice p) (fun _ s' => FlushFrame s s') (fun _ s' => FlushFrame s s') s :=
  wp_onDevice.mpr (Prog.wp_mono (wp_any p s.io) (fun _ _ _ => rfl) (fun _ _ _ => rfl))

theorem frame_flushShard (n : Nat) (i : Fin numShards) (s : Store) :
    Prog.wp (flushShard n i) (fun _ s' => FlushFrame s s') (fun _ s' => FlushFrame s s') s := by
  unfold flushShard
  rw [Prog.wp_bind, Prog.wp_get]
  split
  · rfl
  · rw [Prog.wp_bind, Prog.wp_failIf]
    refine ⟨fun _ => rfl, fun _ => ?_⟩
    rw [Prog.wp_bind]
    refine Prog.wp_mono (frame_onDevice _ s) ?_ (fun _ _ h => h)
    intro _ s1 h1
    exact h1.trans rfl

theorem frame_commitFlush (txn : UInt64) (bytes : Nat) (s : Store) :
    Prog.wp (commitFlush txn bytes) (fun _ s' => FlushFrame s s') (fun _ s' => FlushFrame s s') s := by
  unfold commitFlush
  rw [Prog.wp_bind]
  refine Prog.wp_mono (frame_onDevice _ s) ?_ (fun _ _ h => h)
  intro _ s1 h1
  rw [Prog.wp_bind, Prog.wp_modify, Prog.wp_bind, Prog.wp_get, Prog.wp_bind]
  have h2 : FlushFrame s (s1.nextTxn txn) := h1.trans rfl
  refine Prog.wp_mono (frame_onDevice (writeSuperblocks (s1.nextTxn txn).superblock) (s1.nextTxn txn)) ?_
    (fun _ _ h => h2.trans h)
  intro _ s3 h3
  exact (h2.trans h3).trans rfl

theorem frame_flushIndex (s : Store) :
    Prog.wp flushIndex (fun _ s' => FlushFrame s s') (fun _ s' => FlushFrame s s') s := by
  unfold flushIndex
  rw [Prog.wp_bind, Prog.wp_get, Prog.wp_bind, Prog.wp_failIf]
  refine ⟨fun _ => rfl, fun _ => ?_⟩
  rw [Prog.wp_bind]
  refine Prog.wp_mono (Prog.wp_foldlM (fun _ _ s' => FlushFrame s s') _ rfl ?_) ?_ (fun _ _ h => h)
  · intro _ i _ n s1 _ h1
    exact Prog.wp_mono (frame_flushShard n i s1) (fun _ _ h => h1.trans h) (fun _ _ h => h1.trans h)
  · intro n s1 h1
    exact Prog.wp_mono (frame_commitFlush _ _ s1) (fun _ _ h => h1.trans h) (fun _ _ h => h1.trans h)

/-- Between calls, a repair is a flush. -/
theorem repair_eq {s : Store} (hs : SpaceInv s []) : repair.exec s = flushIndex.exec s := by
  have hsame : { s with allocator := some (.fromFreeList (rebuildFreeList s.files s.dataEnd).2 dataStart s.dataEnd) } = s := by
    rw [← hs.rebuilt]
  unfold repair flushIndex
  by_cases hro : s.readOnly = true
  · simp only [Prog.exec_bind, Prog.exec_get, Prog.exec_failIf, hro, if_true]
  · simp only [Prog.exec_bind, Prog.exec_get, Prog.exec_failIf, Prog.exec_modify, if_neg hro]
    rw [hsame]

/-! ## Formatting -/

def Easy (size : Nat) (io : DeviceIo) : Prop := io.script = [] ∧ io.direct = false ∧ io.readOnly = false ∧ io.dev.size = size

omit [Crates] in
theorem Easy.wp_pwrite {size off : Nat} {data : Bytes} {io : DeviceIo} (h : Easy size io) (hin : off + data.length ≤ size) :
    Prog.wp (pwrite off data) (fun _ io' => Easy size io') (fun _ _ => False) io := by
  obtain ⟨hscript, hdirect, hro, hsize⟩ := h
  unfold pwrite writeAllAt nextOutcome
  simp only [Prog.wp_bind, Prog.wp_get, hro, hdirect, Bool.false_eq_true, if_false]
  rw [if_neg (by omega)]
  unfold Prog.wp
  dsimp only [Bind.bind, Prog.andThen, pure, Prog.ret]
  rw [hscript]
  exact ⟨hscript, hdirect, hro, hsize⟩

omit [Crates] in
theorem Easy.wp_sync {size : Nat} {io : DeviceIo} (h : Easy size io) :
    Prog.wp sync (fun _ io' => Easy size io') (fun _ _ => False) io := by
  obtain ⟨hscript, hdirect, hro, hsize⟩ := h
  unfold sync nextOutcome
  simp only [Prog.wp_bind, Prog.wp_get, hro, Bool.false_eq_true, if_false]
  unfold Prog.wp
  dsimp only [Bind.bind, Prog.andThen]
  rw [hscript]
  exact ⟨hscript, hdirect, hro, hsize⟩

/-- A format with valid options returns, if no device call fails. -/
theorem format_returns {opts : FormatOptions} (h : opts.Valid) (bytes : Nat → UInt8) :
    ∃ s io, (formatWithOptions opts).exec (opts.device bytes []) = (.ok s, io) := by
  have hslots : numShards * (opts.indexSlotSize / numShards) ≤ opts.indexSlotSize := Nat.mul_div_le _ _
  have hmin := h.size
  have hroom := h.room
  have e1 : superblockRegion = 2 * superblockSize := by decide
  have e2 : 16 ≤ indexRegionSize / numShards := by decide
  have e3 : indexRegionSize / numShards ≤ opts.indexSlotSize / numShards := Nat.div_le_div_right hroom
  unfold minDeviceSize at hmin
  have hwp : Prog.wp (formatWithOptions opts) (fun _ _ => True) (fun _ _ => False) (opts.device bytes []) := by
    unfold formatWithOptions
    rw [Prog.wp_bind, Prog.wp_failIf]
    refine ⟨fun hbad => ?_, fun _ => ?_⟩
    · rcases hbad with hbad | hbad
      · omega
      · exact hbad h.whole
    rw [Prog.wp_bind, Prog.wp_failIf]
    refine ⟨fun hbad => absurd h.maxKey (by omega), fun _ => ?_⟩
    rw [Prog.wp_bind, Prog.wp_failIf]
    refine ⟨fun hbad => absurd h.size (by omega), fun _ => ?_⟩
    rw [Prog.wp_bind]
    unfold formatDevice
    dsimp only
    rw [Prog.wp_bind]
    have hstart : Easy opts.deviceSize (opts.device bytes []) := ⟨rfl, rfl, rfl, rfl⟩
    refine Prog.wp_mono (Prog.wp_forM (E := fun _ _ => False) (fun _ io => Easy opts.deviceSize io) _ hstart ?_) ?_ (fun _ _ h => h)
    · intro i _ io hio
      refine hio.wp_pwrite ?_
      have hi := Nat.mul_le_mul_right (opts.indexSlotSize / numShards) (Nat.succ_le_of_lt i.isLt)
      rw [length_empty]
      rw [Nat.succ_mul] at hi
      omega
    · intro _ io hio
      rw [toBytes_eq, Prog.wp_bind, wp_ofExcept, ← Superblock.bytes]
      dsimp only
      rw [Prog.wp_bind]
      refine Prog.wp_mono (hio.wp_pwrite (by rw [Superblock.length_bytes]; omega)) ?_ (fun _ _ h => h)
      intro _ io1 hio1
      rw [Prog.wp_bind]
      refine Prog.wp_mono (hio1.wp_pwrite (by rw [Superblock.length_bytes]; omega)) ?_ (fun _ _ h => h)
      intro _ io2 hio2
      exact Prog.wp_mono hio2.wp_sync (fun _ _ _ => trivial) (fun _ _ h => h)
  obtain ⟨s, io, hrun, -⟩ := Prog.wp_returns hwp fun _ _ h => h
  exact ⟨s, io, hrun⟩

/-- A flush returns if every shard fits its slot, and no device call fails. -/
theorem flush_returns {s : Store} {size : Nat} (g : Geometry s) (hro : s.readOnly = false)
    (hfits : ∀ i, (s.blob i).length ≤ s.shardSlotSize) (hio : Easy size s.io) :
    ∃ s', flushIndex.exec s = (.ok (), s') ∧ Easy size s'.io := by
  have hshard : ∀ i n s1, FlushFrame s s1 ∧ Easy size s1.io →
      Prog.wp (flushShard n i) (fun _ s' => Easy size s'.io) (fun _ _ => False) s1 := by
    intro i n s1 h1
    obtain ⟨hframe, heasy⟩ := h1
    have hdata : s1.shardData i = s.shardData i := by rw [hframe]; rfl
    have hoff : ∀ slot, s1.slotOffset slot i = s.slotOffset slot i := fun slot => by rw [hframe]; rfl
    have hslot : s1.shardSlotSize = s.shardSlotSize := by rw [hframe]
    unfold flushShard
    rw [Prog.wp_bind, Prog.wp_get]
    split
    · exact heasy
    · rw [Prog.wp_bind, Prog.wp_failIf, hdata, hslot]
      refine ⟨fun hbig => absurd (hfits i) (Nat.not_le.mpr hbig), fun _ => ?_⟩
      rw [Prog.wp_bind, wp_onDevice, hoff]
      refine Prog.wp_mono (heasy.wp_pwrite ?_) (fun _ _ h => h) (fun _ _ h => h)
      have hbound := (g.slot_bounds (1 - (s1.superblock.shardSlots i).activeSlot) i).2
      rw [hio.2.2.2] at hbound
      exact Nat.le_trans (Nat.add_le_add_left (hfits i) _) hbound
  have hcommit : ∀ txn n (s1 : Store), Easy size s1.io →
      Prog.wp (commitFlush txn n) (fun _ s' => Easy size s'.io) (fun _ _ => False) s1 := by
    intro txn n s1 heasy
    have hroom : superblockSize + superblockSize ≤ size := by
      have h1 := g.data
      have h2 := g.regionB
      have h3 := g.size
      rw [hio.2.2.2] at h3
      have e : dataStart = superblockSize + superblockSize := rfl
      omega
    unfold commitFlush
    rw [Prog.wp_bind, wp_onDevice]
    refine Prog.wp_mono heasy.wp_sync ?_ (fun _ _ h => h)
    intro _ io1 hio1
    rw [Prog.wp_bind, Prog.wp_modify, Prog.wp_bind, Prog.wp_get, Prog.wp_bind, wp_onDevice]
    unfold writeSuperblocks
    rw [toBytes_eq, Prog.wp_bind, wp_ofExcept, ← Superblock.bytes]
    dsimp only
    rw [Prog.wp_bind]
    refine Prog.wp_mono (Easy.wp_pwrite hio1 (by rw [Superblock.length_bytes]; omega)) ?_ (fun _ _ h => h)
    intro _ io2 hio2
    rw [Prog.wp_bind]
    refine Prog.wp_mono hio2.wp_sync ?_ (fun _ _ h => h)
    intro _ io3 hio3
    rw [Prog.wp_bind]
    refine Prog.wp_mono (hio3.wp_pwrite (by rw [Superblock.length_bytes]; exact hroom)) ?_ (fun _ _ h => h)
    intro _ io4 hio4
    exact Prog.wp_mono hio4.wp_sync (fun _ _ h => h) (fun _ _ h => h)
  have hwp : Prog.wp flushIndex (fun _ s' => Easy size s'.io) (fun _ _ => False) s := by
    unfold flushIndex
    rw [Prog.wp_bind, Prog.wp_get, Prog.wp_bind, Prog.wp_failIf]
    refine ⟨fun h => absurd h (Bool.eq_false_iff.mp hro), fun _ => ?_⟩
    rw [Prog.wp_bind]
    refine Prog.wp_mono (Prog.wp_foldlM (E := fun _ _ => False) (fun _ _ s1 => FlushFrame s s1 ∧ Easy size s1.io) _
      ⟨rfl, hio⟩ ?_) ?_ (fun _ _ h => h)
    · intro _ i _ n s1 _ h1
      refine Prog.wp_mono (Prog.wp_and (frame_flushShard n i s1) (hshard i n s1 h1)) (fun _ _ h => ?_) (fun _ _ h => h.2)
      exact ⟨h1.1.trans h.1, h.2⟩
    · intro n s1 h1
      exact hcommit _ _ s1 h1.2
  obtain ⟨_, s', hrun, hs'⟩ := Prog.wp_returns hwp fun _ _ h => h
  exact ⟨s', hrun, hs'⟩

def Store.byteInfo (s : Store) (off : Nat) (now : DateTime) : ExtentInfo :=
  { offset := off, size := 1, paddedSize := blockAlignment, crc32c := crc32c [1], createdTxn := s.superblock.txnId,
    lastModified := now, metaLen := 0, uncompressedSize := 0 }

def DeviceIo.withByte (io : DeviceIo) (off : Nat) (b : UInt8) : DeviceIo :=
  io.push (.write off (encodeBlocks [b]) fun _ => true)

omit [Crates] in
theorem numBlocks_byte {b : UInt8} : numBlocks [b].length = 1 := by
  rw [List.length_singleton]
  decide

/-- A byte is written in one go. -/
theorem wp_writePayload_byte {off : Nat} {b : UInt8} {io : DeviceIo} {Q : UInt32 → DeviceIo → Prop} {E : RawStoreError → DeviceIo → Prop}
    (h : Prog.wp (pwrite off (encodeBlocks [b])) (fun _ io' => Q (crc32c [b]) io') E io) : Prog.wp (writePayload off [b]) Q E io := by
  have hone := numBlocks_byte (b := b)
  have hshort : ¬ streamingPutThreshold ≤ [b].length := by
    rw [List.length_singleton]
    decide
  have hrange : List.range (batchCount 1) = [0] := by decide
  have hend : batchEnd (0 * batchBlocks) 1 = 1 := by decide
  have hblocks : encodeRange [b] 0 1 = encodeBlocks [b] := by rw [encodeBlocks, hone]
  unfold writePayload
  rw [if_neg hshort, Prog.wp_bind]
  unfold encodeAndWriteBatched
  dsimp only
  rw [hone, hrange, Prog.forM_eq_foldlM, List.foldlM_cons, Prog.wp_bind, hend, Nat.zero_mul, Nat.zero_mul, Nat.add_zero, hblocks]
  exact h

omit [Crates] in
theorem allocExtent_ok {s : Store} {n off : Nat} {a a' : ExtentAllocator} (halloc : s.allocator = some a)
    (ha : a.alloc n = .ok (off, a')) : (allocExtent n).exec s = (.ok off, { s with allocator := some a' }) := by
  unfold Prog.exec allocExtent
  simp only [halloc, ha]

/-- The entry of a payload that is stored as `data`. -/
def Store.storedInfo (s : Store) (off : Nat) (now : DateTime) (data : Bytes) (unc : Nat) (crc : UInt32) : ExtentInfo :=
  { offset := off, size := data.length, paddedSize := numBlocks data.length * blockAlignment, crc32c := crc,
    createdTxn := s.superblock.txnId, lastModified := now, metaLen := 0, uncompressedSize := unc }

/-- A put is the write of what the payload is stored as, if there is an extent for it. -/
theorem wp_doPut_stored {s : Store} {key : Key} {payload data : Bytes} {unc off : Nat} {a a' : ExtentAllocator}
    {Q : Unit → Store → Prop} {E : RawStoreError → Store → Prop} (hro : s.readOnly = false) (hmax : keyLen key ≤ s.maxKeyLength)
    (hne : payload ≠ []) (hstored : compressPayload s.compression payload = (data, unc)) (halloc : s.allocator = some a)
    (hfits : numBlocks data.length * blockAlignment ≤ u64Max)
    (ha : a.alloc (numBlocks data.length * blockAlignment) = .ok (off, a')) (now : DateTime)
    (hwrite : Prog.wp (writePayload off data)
      (fun crc io => Q () (Store.replaceFile (Store.withIo io { s with allocator := some a' }) key (s.storedInfo off now data unc crc)))
      (fun e io => E e ((Store.withIo io { s with allocator := some a' }).freeExtent off (numBlocks data.length * blockAlignment))) s.io) :
    Prog.wp (doPut now key payload) Q E s := by
  have hpad : paddedExtentSize data.length = .ok (numBlocks data.length * blockAlignment) := if_pos hfits
  unfold doPut doPutWithMeta
  rw [Prog.wp_bind, Prog.wp_get, Prog.wp_bind, Prog.wp_failIf]
  refine ⟨fun h => absurd h (Bool.eq_false_iff.mp hro), fun _ => ?_⟩
  rw [Prog.wp_bind, Prog.wp_failIf]
  refine ⟨fun h => absurd h hne, fun _ => ?_⟩
  rw [Prog.wp_bind, Prog.wp_failIf]
  refine ⟨fun h => absurd h (Nat.not_lt.mpr hmax), fun _ => ?_⟩
  rw [hstored]
  dsimp only
  rw [Prog.wp_bind, wp_ofExcept, hpad]
  dsimp only
  unfold allocWrite
  rw [Prog.wp_bind, Prog.wp_bind, Prog.wp_of_ok (allocExtent_ok halloc ha), Prog.wp_bind, Prog.wp_onError, wp_onDevice]
  exact hwrite

def Store.packedInfo (s : Store) (off : Nat) (now : DateTime) (b : UInt8) (unc : Nat) : ExtentInfo :=
  { s.byteInfo off now with crc32c := crc32c [b], uncompressedSize := unc }

/-- A put of a payload that is stored as one byte is the write of a block, if there is a free one. -/
theorem wp_doPut_packed {s : Store} {key : Key} {payload : Bytes} {b : UInt8} {unc off : Nat} {a a' : ExtentAllocator}
    {Q : Unit → Store → Prop} {E : RawStoreError → Store → Prop} (hro : s.readOnly = false) (hmax : keyLen key ≤ s.maxKeyLength)
    (hne : payload ≠ []) (hpacked : compressPayload s.compression payload = ([b], unc)) (halloc : s.allocator = some a)
    (ha : a.alloc blockAlignment = .ok (off, a')) (now : DateTime)
    (hwrite : Prog.wp (pwrite off (encodeBlocks [b]))
      (fun _ io => Q () (Store.replaceFile (Store.withIo io { s with allocator := some a' }) key (s.packedInfo off now b unc)))
      (fun e io => E e ((Store.withIo io { s with allocator := some a' }).freeExtent off blockAlignment)) s.io) :
    Prog.wp (doPut now key payload) Q E s := by
  have hone : numBlocks [b].length * blockAlignment = blockAlignment := by rw [numBlocks_byte, Nat.one_mul]
  have hfits : numBlocks [b].length * blockAlignment ≤ u64Max := by
    rw [hone]
    decide
  have ha' : a.alloc (numBlocks [b].length * blockAlignment) = .ok (off, a') := by rwa [hone]
  refine wp_doPut_stored hro hmax hne hpacked halloc hfits ha' now (wp_writePayload_byte ?_)
  unfold Store.storedInfo
  rw [hone]
  exact hwrite

/-- A payload that is stored as one byte is written and indexed, if there is a free block and no device call fails. -/
theorem wp_putPacked {s : Store} {key : Key} {payload : Bytes} {b : UInt8} {unc size off : Nat} {a a' : ExtentAllocator}
    (hro : s.readOnly = false) (hmax : keyLen key ≤ s.maxKeyLength) (hne : payload ≠ [])
    (hpacked : compressPayload s.compression payload = ([b], unc)) (halloc : s.allocator = some a)
    (ha : a.alloc blockAlignment = .ok (off, a')) (hio : Easy size s.io) (hsize : off + blockAlignment ≤ size) (now : DateTime) :
    Prog.wp (doPut now key payload)
      (fun _ s' => s' = Store.replaceFile (Store.withIo (s.io.withByte off b) { s with allocator := some a' }) key
        (s.packedInfo off now b unc))
      (fun _ _ => False) s := by
  have hin : off + (encodeBlocks [b]).length ≤ size := by
    rw [length_encodeBlocks, numBlocks_byte, Nat.one_mul]
    exact hsize
  refine wp_doPut_packed hro hmax hne hpacked halloc ha now (Prog.wp_mono (Prog.wp_and (hio.wp_pwrite hin)
    (wp_pwrite off (encodeBlocks [b]))) ?_ (fun _ _ h => h.1))
  intro _ io hdone
  obtain ⟨-, -, io1, haged, rfl⟩ := hdone
  rw [haged.eq hio.1, padded, hio.2.1, if_neg Bool.false_ne_true]
  rfl

theorem compressPayload_byte {c : Compression} (hc : c = .none) (b : UInt8) : compressPayload c [b] = ([b], 0) := by
  unfold compressPayload
  rw [hc, if_neg (by simp)]

/-- A byte is written and indexed. -/
theorem wp_putBlock {s : Store} {key : Key} {b : UInt8} {size off : Nat} {a a' : ExtentAllocator} (hro : s.readOnly = false)
    (hmax : keyLen key ≤ s.maxKeyLength) (hcomp : s.compression = .none) (halloc : s.allocator = some a)
    (ha : a.alloc blockAlignment = .ok (off, a')) (hio : Easy size s.io) (hsize : off + blockAlignment ≤ size) (now : DateTime) :
    Prog.wp (doPut now key [b])
      (fun _ s' => s' = Store.replaceFile (Store.withIo (s.io.withByte off b) { s with allocator := some a' }) key
        (s.packedInfo off now b 0))
      (fun _ _ => False) s :=
  wp_putPacked hro hmax (List.cons_ne_nil _ _) (compressPayload_byte hcomp b) halloc ha hio hsize now

/-- The entry that is left of it, whatever the device is. -/
theorem wp_putByte {s : Store} {key : Key} {size off : Nat} {a a' : ExtentAllocator} (hro : s.readOnly = false)
    (hmax : keyLen key ≤ s.maxKeyLength) (hcomp : s.compression = .none) (halloc : s.allocator = some a)
    (ha : a.alloc blockAlignment = .ok (off, a')) (hio : Easy size s.io) (hsize : off + blockAlignment ≤ size) (now : DateTime) :
    Prog.wp (doPut now key [1])
      (fun _ s' => ∃ io, s' = Store.replaceFile (Store.withIo io { s with allocator := some a' }) key (s.byteInfo off now))
      (fun _ _ => False) s :=
  Prog.wp_mono (wp_putBlock hro hmax hcomp halloc ha hio hsize now) (fun _ _ h => ⟨_, h⟩) (fun _ _ h => h)

/-! ## Opening -/

/-- What a flush of the state leaves on a device: a superblock of the store, and its files in the slots. -/
structure Committed (s : Store) (d : Disk) : Prop where
  size_eq : d.size = s.io.dev.size
  holds : ∃ sb index, committed d = .ok (sb, s.layout, index) ∧ Describes sb s ∧ ∀ k, index.files.lookup k = s.files.lookup k

/-- What an open of such a device gives: some of the entries, on the same device. -/
theorem Committed.opened {s s' : Store} {d : Disk} {mode : OpenMode} {script : List Outcome} {io : DeviceIo} (h : Committed s d)
    (hopen : (openImpl mode false).exec (.onDisk d false script) = (.ok s', io)) :
    (∀ k info, s'.files.lookup k = some info → s.files.lookup k = some info ∧ isMultipartTmp k = false) ∧
      s'.layout = s.layout ∧ s'.io.dev = d ∧ s'.compression = s.compression ∧ Describes s'.superblock s' ∧
      s'.io.readOnly = false ∧ s'.readOnly = false ∧ s'.io.direct = s.io.direct ∧
      s'.allocator = some (.fromFreeList (rebuildFreeList s'.files s'.dataEnd).2 dataStart s'.dataEnd) := by
  obtain ⟨sb, l, loaded, stale, hop⟩ := Prog.wp_ok (wp_openImpl mode false) hopen
  obtain ⟨sb', index, hcommitted, hdesc, hlookup⟩ := h.holds
  have hsame := hop.committed.symm.trans hcommitted
  obtain ⟨rfl, rfl, rfl⟩ : sb = sb' ∧ l = s.layout ∧ loaded = index := by
    have := Except.ok.inj hsame
    simpa using this
  obtain ⟨c, io', hc, haged, rfl⟩ := hop.store
  have hcomp : c = s.compression := Except.ok.inj (hc.symm.trans hdesc.compression)
  subst hcomp
  have hdirect : (decide (sb.flags &&& flagDirectIo ≠ 0)) = s.io.direct := by
    rw [hdesc.flags]
    cases s.io.direct <;> decide
  refine ⟨fun k info hk => ?_, rfl, haged.dev_eq, rfl, ?_, haged.readOnly_eq, rfl, hdirect, rfl⟩
  · change (loaded.recover s.layout.regionA stale false (sb.txnId + 1)).1.files.lookup k = some info at hk
    refine ⟨?_, ?_⟩
    · rw [(lookup_recover loaded s.layout.regionA stale false (sb.txnId + 1) k).1] at hk
      split at hk
      · cases hk
      · rw [← hlookup, hk]
    · by_contra htmp
      unfold DeviceIndex.recover at hk
      dsimp only at hk
      rw [lookup_without] at hk
      simp only [Bool.false_eq_true, if_false] at hk
      split at hk
      · cases hk
      · next hmem => exact hmem ((mem_multipartKeys _ k).mpr ⟨by simpa using htmp, by rw [hk]; rfl⟩)
  · refine ⟨?_, hdesc.magic, hdesc.version, hdesc.blockAlignment, hdesc.maxKeyLength, hdesc.compression, ?_⟩
    · show layoutOf io'.dev.size sb = .ok s.layout
      rw [haged.dev_eq]
      show layoutOf d.size sb = _
      rw [h.size_eq]
      exact hdesc.layout
    · show sb.flags = if (decide (sb.flags &&& flagDirectIo ≠ 0)) = true then flagDirectIo else 0
      rw [hdirect]
      exact hdesc.flags

omit [Crates] in
theorem extentsOk_of_lookup {files : FMap ExtentInfo} {dataEnd : Nat}
    (h : ∀ k info, files.lookup k = some info → info.offset % blockAlignment = 0 ∧ info.paddedSize % blockAlignment = 0 ∧
      dataStart ≤ info.offset ∧ info.offset + info.paddedSize ≤ dataEnd ∧ 0 < info.paddedSize)
    (hap : ∀ k k' info info', k ≠ k' → files.lookup k = some info → files.lookup k' = some info' → Span.Apart info.span info'.span) :
    ExtentsOk (spans files) dataEnd := by
  have hmem : ∀ e ∈ files.entries, files.lookup e.1 = some e.2 := fun e he => by
    rw [← Option.mem_def, AList.mem_lookup_iff]
    exact he
  have hspan : ∀ e ∈ spans files, ∃ k info, files.lookup k = some info ∧ e = info.span := by
    intro e he
    obtain ⟨info, hi, rfl⟩ := List.mem_map.mp he
    obtain ⟨x, hx, rfl⟩ := List.mem_map.mp hi
    exact ⟨x.1, x.2, hmem x hx, rfl⟩
  refine ⟨fun e he => ?_, fun e he => ?_, ?_⟩
  · obtain ⟨k, info, hk, rfl⟩ := hspan e he
    exact ⟨(h k info hk).1, (h k info hk).2.1⟩
  · obtain ⟨k, info, hk, rfl⟩ := hspan e he
    exact (h k info hk).2.2
  · rw [spans, FMap.values, List.map_map, List.pairwise_map]
    have hnd : files.entries.Pairwise fun a b => a.1 ≠ b.1 := by
      have := files.nodupKeys
      rwa [List.NodupKeys, List.keys, List.nodup_iff_pairwise_ne, List.pairwise_map] at this
    refine List.Pairwise.imp_of_mem ?_ hnd
    intro a b ha hb hne
    exact hap a.1 b.1 a.2 b.2 hne (hmem a ha) (hmem b hb)

omit [Crates] in
theorem ExtentsOk.apart_of_lookup {files : FMap ExtentInfo} {dataEnd : Nat} (h : ExtentsOk (spans files) dataEnd) {k k' : Key}
    {info info' : ExtentInfo} (hne : k ≠ k') (hk : files.lookup k = some info) (hk' : files.lookup k' = some info') :
    Span.Apart info.span info'.span := by
  have hap := (spans_perm hk).pairwise_iff (fun h => Span.Apart.symm h) |>.mp h.apart
  have herase : (files.erase k).lookup k' = some info' := by rw [AList.lookup_erase_ne hne.symm, hk']
  exact (List.pairwise_cons.mp hap).1 _ (List.mem_map_of_mem (mem_values herase))

omit [Crates] in
/-- Some of the entries of an index share the data area out too. -/
theorem ExtentsOk.of_subset {files files' : FMap ExtentInfo} {dataEnd : Nat} (h : ExtentsOk (spans files) dataEnd)
    (hsub : ∀ k info, files'.lookup k = some info → files.lookup k = some info) : ExtentsOk (spans files') dataEnd := by
  refine extentsOk_of_lookup (fun k info hk => ?_) (fun k k' info info' hne hk hk' => ?_)
  · have hmem : info.span ∈ spans files := List.mem_map_of_mem (mem_values (hsub k info hk))
    obtain ⟨h1, h2⟩ := h.aligned _ hmem
    obtain ⟨h3, h4, h5⟩ := h.inside _ hmem
    exact ⟨h1, h2, h3, h4, h5⟩
  · exact h.apart_of_lookup hne (hsub k info hk) (hsub k' info' hk')

theorem SpaceInv.reopened {s s' : Store} {d : Disk} {mode : OpenMode} {script : List Outcome} {io : DeviceIo} (hs : SpaceInv s [])
    (h : Committed s d) (hopen : (openImpl mode false).exec (.onDisk d false script) = (.ok s', io)) : SpaceInv s' [] := by
  obtain ⟨hsub, hlayout, -, -, -, -, -, -, halloc⟩ := h.opened hopen
  have hend : s'.dataEnd = s.dataEnd := congrArg Layout.regionA hlayout
  obtain ⟨a, ha, hpart⟩ := hs.partition
  have hok : ExtentsOk (spans s'.files) s'.dataEnd := by
    rw [hend]
    exact hs.extents.of_subset fun k info hk => (hsub k info hk).1
  refine ⟨⟨_, halloc, ?_⟩, fun e he => ?_⟩
  · rw [List.nil_append]
    exact partition_rebuilt hok (by rw [hend]; exact hpart.max)
  · obtain ⟨x, hx, rfl⟩ := List.mem_map.mp he
    have hk : s'.files.lookup x.1 = some x.2 := by
      rw [← Option.mem_def, AList.mem_lookup_iff]
      exact hx
    exact hs.sized x.2 (mem_values (hsub x.1 x.2 hk).1)

/-! ## Runs -/

/-- Every call but a reload. -/
def NoReload (_ : Store) (c : Call) : Prop := c ≠ .reloadIndex

theorem exec_repair {s : Store} (hs : SpaceInv s []) (now : DateTime) : (Call.run now .repair).exec s = flushIndex.exec s :=
  repair_eq hs

/-- What a flush changes is not what the two invariants are about. -/
theorem flush_frame (s : Store) : FlushFrame s (flushIndex.exec s).2 := by
  have hwp := frame_flushIndex s
  unfold Prog.wp at hwp
  unfold Prog.exec
  cases hrun : flushIndex s with
  | mk r s' =>
    rw [hrun] at hwp
    cases r with
    | ok a => exact hwp
    | error e => exact hwp

theorem FlushFrame.index {s s' : Store} (h : FlushFrame s s') (hc : ContentInv .index s) : ContentInv .index s' := by
  intro k info hk
  rw [h] at hk
  exact ⟨(hc k info hk).padded, fun ht => absurd rfl ht.ne_index⟩

/-- A call keeps both invariants. -/
theorem inv_call {s : Store} (hs : SpaceInv s []) (hc : ContentInv .index s) (now : DateTime) {c : Call} (h : NoReload s c) :
    SpaceInv ((c.run now).exec s).2 [] ∧ ContentInv .index ((c.run now).exec s).2 := by
  cases c with
  | op o =>
    have hstep : Step .index s ((o.run now).exec s).2 := o.step now hs hc (o.sound_of_ne (by decide)) fun h => absurd rfl h
    exact ⟨hstep.space, hstep.content hs hc⟩
  | flushIndex => exact ⟨(flush_frame _).space hs, (flush_frame _).index hc⟩
  | repair =>
    rw [exec_repair hs]
    exact ⟨(flush_frame _).space hs, (flush_frame _).index hc⟩
  | reloadIndex => exact absurd rfl h

/-- So does opening a device on which the index of the state is committed. -/
theorem inv_reopened {s s' : Store} {d : Disk} {mode : OpenMode} {script : List Outcome} {io : DeviceIo} (hs : SpaceInv s [])
    (hc : ContentInv .index s) (hd : Committed s d) (hopen : (openImpl mode false).exec (.onDisk d false script) = (.ok s', io)) :
    SpaceInv s' [] ∧ ContentInv .index s' := by
  refine ⟨hs.reopened hd hopen, fun k info hk => ?_⟩
  exact ⟨(hc k info ((hd.opened hopen).1 k info hk).1).padded, fun ht => absurd rfl ht.ne_index⟩

/-- Every run keeps both invariants. -/
theorem reach_inv {s : Store} (h : Reach NoReload Committed s) : SpaceInv s [] ∧ ContentInv .index s := by
  induction h with
  | format h => exact ⟨(formatted h).space, (formatted h).content .index⟩
  | @call s _ script now c hc ih => exact inv_call (s := s.withScript script) (ih.1.congr rfl rfl rfl) ih.2 now hc
  | reopen _ hd hopen ih => exact inv_reopened ih.1 ih.2 hd hopen

/-- The extents share the data area out, and the free list is the one that is rebuilt from them. -/
theorem reach_partition {s : Store} (h : Reach NoReload Committed s) :
    ExtentsOk (spans s.files) s.dataEnd ∧ ∃ a, s.allocator = some a ∧ a.freeList = (rebuildFreeList s.files s.dataEnd).2 ∧
      Canon a.freeList := by
  have hs := (reach_inv h).1
  obtain ⟨a, ha, hlist⟩ := hs.freeList_eq
  obtain ⟨b, hb, hpart⟩ := hs.partition
  have hab : a = b := Option.some.inj (ha.symm.trans hb)
  subst hab
  exact ⟨hs.extents, a, ha, hlist, hpart.tidy.canon⟩

end Reachable

open Sample

def Sample.options : FormatOptions := ⟨67108864, false, 16777216, 1024, .none, by decide, by decide, by decide, by decide⟩

theorem Sample.options_valid : options.Valid := ⟨by decide, by decide, by decide, by decide⟩

/-- The free list of a new store of which `n` blocks are taken from the front. -/
def Sample.spaceAfter (n : Nat) : ExtentAllocator := ⟨[(8192 + n * 4096, 33546240 - n * 4096)], 4096⟩

theorem Sample.alloc_spaceAfter {n : Nat} (h : n < 8000) :
    (spaceAfter n).alloc blockAlignment = .ok (dataStart + n * blockAlignment, spaceAfter (n + 1)) := by
  have hneeded : alignUp blockAlignment 4096 = 4096 := by decide
  have hroom : 4096 ≤ 33546240 - n * 4096 := by omega
  have hrest : 0 < 33546240 - n * 4096 - 4096 := by omega
  unfold ExtentAllocator.alloc spaceAfter
  dsimp only
  rw [hneeded, List.findIdx?_cons, if_pos (by simpa using hroom)]
  show (if 0 < 33546240 - n * 4096 - 4096 then
    Except.ok (8192 + n * 4096, (⟨[(8192 + n * 4096 + 4096, 33546240 - n * 4096 - 4096)], 4096⟩ : ExtentAllocator)) else _) = _
  rw [if_pos hrest, Nat.add_assoc, Nat.sub_sub, ← Nat.succ_mul]
  rfl

def Sample.oneObject (io io' : DeviceIo) : Store :=
  Store.replaceFile (Store.withIo io' { options.newStore io with allocator := some (spaceAfter 1) }) "k" ((options.newStore io).byteInfo dataStart 0)

theorem Sample.oneObject_entries (io io' : DeviceIo) :
    (oneObject io io').files.entries = [⟨"k", (options.newStore io).byteInfo dataStart 0⟩] := rfl

theorem Sample.oneObject_fits (io io' : DeviceIo) (i : Fin numShards) :
    ((oneObject io io').blob i).length ≤ (oneObject io io').shardSlotSize := by
  have hentries : ((oneObject io io').shardData i).files.entries =
      if shardForKey "k" = i then [⟨"k", (options.newStore io).byteInfo dataStart 0⟩] else [] := by
    show (oneObject io io').files.entries.filter (fun e => decide (shardForKey e.1 = i)) = _
    rw [oneObject_entries]
    by_cases h : shardForKey "k" = i
    · rw [if_pos h, List.filter_cons_of_pos (by simpa using h)]
      rfl
    · rw [if_neg h, List.filter_cons_of_neg (by simpa using h)]
      rfl
  show (Code.shard.put ((oneObject io io').shardData i)).length ≤ 65536
  have htomb : ((oneObject io io').shardData i).tombstones.entries = [] := rfl
  simp only [Code.shard, Code.iso, Code.pair, Code.map]
  rw [hentries, htomb]
  split
  · show (79 : Nat) ≤ 65536
    decide
  · decide

/-- The device is formatted, and the object is put. -/
theorem Sample.oneObject_put : ∃ s io io0 io', (formatWithOptions options).exec (options.device (fun _ => 0) []) = (.ok s, io) ∧
    s = options.newStore io0 ∧ (doPut 0 "k" [1]).exec (s.withScript []) = (.ok (), oneObject io0 io') ∧
    Easy 67108864 io' ∧ io'.dev.read dataStart blockAlignment = encodeBlocks [1] := by
  obtain ⟨s, io, hformat⟩ := format_returns options_valid fun _ => 0
  obtain ⟨io0, rfl, hro, hsize⟩ := (formatted hformat).store
  have heasy : Easy 67108864 ((options.newStore io0).withScript []).io := ⟨rfl, rfl, hro, hsize⟩
  have halloc : (spaceAfter 0).alloc blockAlignment = .ok (dataStart, spaceAfter 1) := alloc_spaceAfter (n := 0) (by decide)
  obtain ⟨_, s1, hput, rfl⟩ := Prog.wp_returns (wp_putBlock (b := 1) (s := (options.newStore io0).withScript []) rfl
    (show keyLen "k" ≤ 1024 by decide) rfl rfl halloc heasy (by decide) 0) fun _ _ h => h
  refine ⟨_, io, io0, ((options.newStore io0).withScript []).io.withByte dataStart 1, hformat, rfl, hput, heasy, ?_⟩
  have hread := Disk.read_write_same io0.dev dataStart (encodeBlocks [1])
  rwa [length_encodeBlocks, numBlocks_byte, Nat.one_mul] at hread

/-- Two objects on a new device. -/
theorem two_puts_keep_the_partition : ∃ s0 s1 s2 : Store, Reach NoReload Committed s0 ∧
    (Call.run 0 (.op (.putOpts "k" [1] .overwrite))).exec (s0.withScript []) = (.ok (), s1) ∧
    (Call.run 0 (.op (.putOpts "a" [1] .overwrite))).exec (s1.withScript []) = (.ok (), s2) ∧
    spans s2.files = [(dataStart + blockAlignment, blockAlignment), (dataStart, blockAlignment)] ∧ ExtentsOk (spans s2.files) s2.dataEnd ∧
    ∃ a, s2.allocator = some a ∧ a.freeList = (rebuildFreeList s2.files s2.dataEnd).2 ∧ Canon a.freeList := by
  obtain ⟨s0, io, io0, io1, hformat, rfl, hput, heasy, -⟩ := oneObject_put
  obtain ⟨_, s2, hput2, rfl⟩ := Prog.wp_returns (wp_putBlock (b := 1) (s := (oneObject io0 io1).withScript []) rfl
    (show keyLen "a" ≤ 1024 by decide) rfl rfl (alloc_spaceAfter (n := 1) (by decide)) ⟨rfl, heasy.2⟩ (by decide) 0) fun _ _ h => h
  have h0 : Reach NoReload Committed (options.newStore io0) := .format hformat
  have h1 := h0.call [] 0 (.op (.putOpts "k" [1] .overwrite)) (by simp [NoReload])
  change Reach NoReload Committed ((doPut 0 "k" [1]).exec ((options.newStore io0).withScript [])).2 at h1
  rw [hput] at h1
  have h2 := h1.call [] 0 (.op (.putOpts "a" [1] .overwrite)) (by simp [NoReload])
  change Reach NoReload Committed ((doPut 0 "a" [1]).exec ((oneObject io0 io1).withScript [])).2 at h2
  rw [hput2] at h2
  exact ⟨_, _, _, h0, hput, hput2, rfl, reach_partition h2⟩

end ObjStr.Raw
