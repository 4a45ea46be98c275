/-
  ObjStr.Raw.Persist — the index on disk: `format_with_options`, `flush_index`, `reload_index`,
  `repair` and `open_impl` (`store.rs`).

  Each of the 256 index shards has a slot in region A and one in region B; the superblock says
  which one is active, with the size and the CRC of what is in it. A flush writes every dirty
  shard to its other slot, one after the other, and changes the slot in the superblock in
  memory as it goes; then it writes the superblock to both its places on the device.

  `FormatOptions` carries what keeps the on-disk fields meaningful: the device size is a
  `u64`, a slot's size fits the `u32` it is recorded in (an index slot of less than 1 TB), the
  key limit is not 0 (which `open_impl` takes for a device of an older format), and a device
  used with `O_DIRECT` consists of whole blocks (its index slots could not be written else).
-/

import ObjStr.Raw.Store

namespace ObjStr.Raw

open ObjStr.Lib

variable [Crates]

/-! ## Slots -/

def slotOffset (regionA regionB slotSize : Nat) (slot : UInt8) (shard : Fin numShards) : Nat :=
  if slot = 0 then regionA + shard * slotSize else regionB + shard * slotSize

def Store.slotOffset (s : Store) (slot : UInt8) (shard : Fin numShards) : Nat :=
  Raw.slotOffset s.indexRegionA s.indexRegionB s.shardSlotSize slot shard

def Store.shardData (s : Store) (shard : Fin numShards) : ShardData where
  files := s.files.filterKeys fun k => shardForKey k = shard
  tombstones := s.tombstones.filterKeys fun k => shardForKey k = shard

def Superblock.withSlots (sb : Superblock) (slots : Fin numShards → ShardSlotMeta) : Superblock :=
  { sb with shardSlots := slots }

def Store.setSlot (s : Store) (shard : Fin numShards) (slot : ShardSlotMeta) : Store :=
  { s with superblock := s.superblock.withSlots (Function.update s.superblock.shardSlots shard slot) }

/-! ## Format -/

/-- Options whose layout suits the device: `deviceSize` is its size, in whole blocks under `O_DIRECT`, the slot of a shard is
    below 4 GiB, and the key limit is above 0. A format checks none of this; `FormatRequest` has options without it. -/
structure FormatOptions where
  deviceSize : Nat
  directIo : Bool
  indexSlotSize : Nat
  maxKeyLength : Nat
  compression : Compression
  sizeFits : deviceSize ≤ u64Max
  slotFits : indexSlotSize / numShards < 2 ^ 32
  keyFits : 0 < maxKeyLength
  wholeBlocks : directIo = true → deviceSize % blockAlignment = 0

def FormatOptions.effectiveMaxKey (opts : FormatOptions) : Nat :=
  min opts.maxKeyLength (opts.indexSlotSize / numShards - 98)

def FormatOptions.superblock (opts : FormatOptions) : Superblock :=
  let (blob, crc) := ShardData.empty.toBytes
  let regionA := opts.deviceSize - opts.indexSlotSize * 2
  { Superblock.new (UInt64.ofNat opts.deviceSize) (UInt64.ofNat blockAlignment) (UInt64.ofNat regionA)
      (UInt64.ofNat opts.indexSlotSize) (UInt32.ofNat opts.effectiveMaxKey) opts.compression with
    shardSlots := fun _ => ⟨0, UInt32.ofNat blob.length, crc⟩
    indexRegionSize := UInt64.ofNat (blob.length * numShards)
    txnId := 1
    flags := if opts.directIo then flagDirectIo else 0 }

def formatDevice (opts : FormatOptions) : IoM Unit := do
  let blob := ShardData.empty.toBytes.1
  (List.finRange numShards).forM fun i =>
    DeviceIo.pwrite (opts.deviceSize - opts.indexSlotSize * 2 + i * (opts.indexSlotSize / numShards)) blob
  let sb ← ofExcept opts.superblock.toBytes
  DeviceIo.pwrite 0 sb
  DeviceIo.pwrite superblockSize sb
  DeviceIo.sync

def FormatOptions.newStore (opts : FormatOptions) (io : DeviceIo) : Store where
  io := { io with direct := opts.directIo }
  files := ∅
  tombstones := ∅
  allocator := some (.new dataStart (opts.deviceSize - opts.indexSlotSize * 2) blockAlignment)
  superblock := opts.superblock
  dirty := false
  readOnly := false
  shardDirty := fun _ => false
  lastFlushBytes := 0
  maxKeyLength := opts.effectiveMaxKey
  compression := opts.compression
  indexRegionA := opts.deviceSize - opts.indexSlotSize * 2
  indexRegionB := opts.deviceSize - opts.indexSlotSize
  indexSlotCapacity := opts.indexSlotSize
  shardSlotSize := opts.indexSlotSize / numShards
  nextUploadId := 0

/-- Format a device; `DeviceIo::create` made it `device_size` bytes long and left whatever bytes on it. -/
def formatWithOptions (opts : FormatOptions) : IoM Store := do
  Prog.failIf (opts.indexSlotSize < indexRegionSize ∨ opts.indexSlotSize % indexRegionSize ≠ 0)
    (.invalidIndexSlotSize opts.indexSlotSize)
  Prog.failIf (maxKeyLengthHardCeiling < opts.maxKeyLength) (.maxKeyLengthTooLarge opts.maxKeyLength maxKeyLengthHardCeiling)
  Prog.failIf (opts.deviceSize < minDeviceSize opts.indexSlotSize)
    (.deviceTooSmall opts.deviceSize (minDeviceSize opts.indexSlotSize))
  formatDevice opts
  let io ← get
  pure (opts.newStore io)

def FormatOptions.device (opts : FormatOptions) (bytes : Nat → UInt8) (script : List Outcome) : DeviceIo :=
  { dev := ⟨opts.deviceSize, bytes⟩, direct := false, readOnly := false, script := script, log := [] }

/-! ## Flush -/

def flushShard (bytesWritten : Nat) (shard : Fin numShards) : StoreM Nat := do
  let s ← get
  if s.shardDirty shard = false then pure bytesWritten
  else
    let blob := (s.shardData shard).toBytes
    Prog.failIf (s.shardSlotSize < blob.1.length) (.shardOverflow shard blob.1.length s.shardSlotSize)
    let newSlot := 1 - (s.superblock.shardSlots shard).activeSlot
    onDevice (DeviceIo.pwrite (s.slotOffset newSlot shard) blob.1)
    modify fun s => s.setSlot shard ⟨newSlot, UInt32.ofNat blob.1.length, blob.2⟩
    pure (bytesWritten + blob.1.length)

/-- The informational size of all shards: nothing reads it, so nothing needs to unfold it. -/
@[irreducible] def Superblock.totalShardSize (sb : Superblock) : UInt64 :=
  UInt64.ofNat ((List.finRange numShards).map fun i => (sb.shardSlots i).size.toNat).sum

def Superblock.next (sb : Superblock) (newTxn : UInt64) : Superblock :=
  { sb with prevTxnId := sb.txnId, txnId := newTxn, indexRegionSize := sb.totalShardSize }

def Store.nextTxn (s : Store) (newTxn : UInt64) : Store := { s with superblock := s.superblock.next newTxn }

/-- Write the superblock to both its places, each followed by a sync. -/
def writeSuperblocks (sb : Superblock) : IoM Unit := do
  let bytes ← ofExcept sb.toBytes
  DeviceIo.pwrite 0 bytes
  DeviceIo.sync
  DeviceIo.pwrite superblockSize bytes
  DeviceIo.sync

def Store.markClean (s : Store) (bytes : Nat) : Store :=
  { s with shardDirty := fun _ => false, dirty := false, lastFlushBytes := bytes }

def commitFlush (newTxn : UInt64) (bytes : Nat) : StoreM Unit := do
  onDevice DeviceIo.sync
  modify (·.nextTxn newTxn)
  let s ← get
  onDevice (writeSuperblocks s.superblock)
  modify (·.markClean bytes)

def flushIndex : StoreM Unit := do
  let s ← get
  Prog.failIf (s.readOnly = true) .readOnly
  let bytesWritten ← (List.finRange numShards).foldlM flushShard 0
  commitFlush (s.superblock.txnId + 1) (bytesWritten + 2 * superblockSize)

/-- Rebuild the free list from the index, and flush. -/
def repair : StoreM Unit := do
  let s ← get
  Prog.failIf (s.readOnly = true) .readOnly
  modify fun s => { s with
    allocator := some (.fromFreeList (rebuildFreeList s.files s.dataEnd).2 dataStart s.dataEnd) }
  flushIndex

def Store.needsFlush (s : Store) : Bool := s.dirty

/-! ## Reload -/

def readSuperblock (offset : Nat) : IoM (Except RawStoreError Superblock) := do
  let bytes ← DeviceIo.pread offset superblockSize
  pure (Superblock.fromBytes bytes)

def primaryOrBackup : IoM Superblock := do
  match ← readSuperblock 0 with
  | .ok sb => pure sb
  | .error _ => do
    let sb ← readSuperblock superblockSize
    ofExcept sb

/-- Read the shard a slot holds; a slot of size 0 holds none. -/
def readShard (regionA regionB slotSize : Nat) (slot : ShardSlotMeta) (shard : Fin numShards) : IoM ShardData :=
  if slot.size = 0 then pure .empty
  else do
    let bytes ← DeviceIo.pread (slotOffset regionA regionB slotSize slot.activeSlot shard) slot.size.toNat
    ofExcept (ShardData.fromBytes bytes slot.crc)

def Store.clearShard (s : Store) (shard : Fin numShards) : Store :=
  { s with files := s.files.filterKeys fun k => shardForKey k ≠ shard,
           tombstones := s.tombstones.filterKeys fun k => shardForKey k ≠ shard }

def Store.addShard (s : Store) (d : ShardData) : Store :=
  { s with files := s.files.extend d.files, tombstones := s.tombstones.extend d.tombstones }

/-- Replace one shard's entries by what the new superblock's slot holds, if the slot differs. -/
def reloadShard (newSb : Superblock) (shard : Fin numShards) : StoreM Unit := do
  let s ← get
  if s.superblock.shardSlots shard = newSb.shardSlots shard then pure ()
  else do
    modify (·.clearShard shard)
    let d ← onDevice (readShard s.indexRegionA s.indexRegionB s.shardSlotSize (newSb.shardSlots shard) shard)
    modify (·.addShard d)

/-- Re-read the index if the superblock on disk has another transaction than the one in memory. -/
def reloadIndex : StoreM Bool := do
  let newSb ← onDevice primaryOrBackup
  let s ← get
  if newSb.txnId = s.superblock.txnId then pure false
  else do
    (List.finRange numShards).forM (reloadShard newSb)
    modify fun s => { s with
      superblock := newSb
      maxKeyLength := if 0 < newSb.maxKeyLength then newSb.maxKeyLength.toNat else defaultMaxKeyLength
      allocator := if s.readOnly then s.allocator
        else some (.fromFreeList (rebuildFreeList s.files s.dataEnd).2 dataStart s.dataEnd)
      shardDirty := fun _ => false
      dirty := false }
    pure true

/-! ## Open -/

inductive OpenMode where
  /-- Check the CRC of block 0 of every extent. -/
  | default
  /-- Check every block and the payload CRC of every extent. -/
  | fullVerify
  | skipVerify
  deriving DecidableEq, Repr

/-- The valid superblock with the highest transaction; the primary on ties. -/
def chooseSuperblock (sb0 sb1 : Except RawStoreError Superblock) : Except RawStoreError Superblock :=
  match sb0, sb1 with
  | .ok a, .ok b => if b.txnId ≤ a.txnId then .ok a else .ok b
  | .ok a, .error _ => .ok a
  | .error _, .ok b => .ok b
  | .error _, .error _ => .error .superblockCorrupt

/-- The sizes a superblock gives for a device: slot capacity, regions A and B, slot size. -/
structure Layout where
  slotCapacity : Nat
  regionA : Nat
  regionB : Nat
  slotSize : Nat

def layoutOf (deviceSize : Nat) (sb : Superblock) : Except RawStoreError Layout :=
  let capacity := if 0 < sb.indexSlotCapacity then sb.indexSlotCapacity.toNat else indexRegionSize
  if deviceSize < minDeviceSize capacity then .error (.deviceTooSmall deviceSize (minDeviceSize capacity))
  else .ok ⟨capacity, deviceSize - capacity * 2, deviceSize - capacity, capacity / numShards⟩

structure DeviceIndex where
  files : FMap ExtentInfo
  tombstones : FMap TombstoneInfo

def DeviceIndex.empty : DeviceIndex := ⟨∅, ∅⟩

def loadShards (l : Layout) (sb : Superblock) : IoM DeviceIndex :=
  (List.finRange numShards).foldlM (fun index i => do
    let d ← readShard l.regionA l.regionB l.slotSize (sb.shardSlots i) i
    pure ⟨index.files.extend d.files, index.tombstones.extend d.tombstones⟩) .empty

def loadIndex : IoM (Superblock × Layout × DeviceIndex) := do
  let io ← get
  let sb0 ← readSuperblock 0
  let sb1 ← readSuperblock superblockSize
  let sb ← ofExcept (chooseSuperblock sb0 sb1)
  let l ← ofExcept (layoutOf io.dev.size sb)
  let index ← loadShards l sb
  pure (sb, l, index)

def ExtentInfo.inBounds (dataEnd : Nat) (info : ExtentInfo) : Bool :=
  dataStart ≤ info.offset && 0 < info.paddedSize && satAdd info.offset info.paddedSize ≤ dataEnd

/-- The keys of an index, and what remains of it without some. -/
def DeviceIndex.outOfBounds (index : DeviceIndex) (dataEnd : Nat) : List Key :=
  (index.files.entries.filter fun e => !e.2.inBounds dataEnd).map (·.1)

def DeviceIndex.without (index : DeviceIndex) (keys : List Key) : DeviceIndex :=
  { index with files := keys.foldl (fun m k => m.erase k) index.files }

def sortEntries (l : List (Sigma fun _ : Key => ExtentInfo)) : List (Sigma fun _ : Key => ExtentInfo) :=
  l.insertionSort fun a b => a.2.offset ≤ b.2.offset

/-- `windows(2)`: the second key of each neighbouring pair that overlaps. -/
def overlapKeys : List (Sigma fun _ : Key => ExtentInfo) → List Key
  | a :: b :: rest =>
    (if b.2.offset < a.2.offset + a.2.paddedSize then [b.1] else []) ++ overlapKeys (b :: rest)
  | _ => []

/-- `{:#010x}`. -/
def hex32 (v : UInt32) : String :=
  let digits := Nat.toDigits 16 v.toNat
  "0x" ++ String.ofList (List.replicate (8 - digits.length) '0' ++ digits)

/-- Why the fast scan finds an entry stale, if it does. -/
def checkBlock0 (info : ExtentInfo) : IoM (Option String) := do
  match ← (DeviceIo.pread info.offset blockAlignment).attempt with
  | .error _ => pure (some "unreadable block 0")
  | .ok raw =>
    let stored := UInt32.ofNat (leNat (raw.take blockCrcSize))
    let actual := crc32c (raw.drop blockCrcSize)
    if stored = actual then pure none
    else pure (some ("block 0 CRC mismatch (expected " ++ hex32 stored ++ ", got " ++ hex32 actual ++ ")"))

/-- Why the full scan finds an entry stale, if it does. -/
def checkExtent (info : ExtentInfo) : IoM (Option String) :=
  match paddedExtentSize info.size with
  | .error _ => pure (some "payload size overflow")
  | .ok diskLen => do
    match ← (DeviceIo.pread info.offset diskLen).attempt with
    | .error _ => pure (some "unreadable extent")
    | .ok raw =>
      match decodeBlocks raw info.size with
      | .error _ => pure (some "block CRC failure")
      | .ok payload =>
        if crc32c payload = info.crc32c then pure none
        else pure (some ("payload CRC " ++ hex32 (crc32c payload) ++ " != index CRC " ++ hex32 info.crc32c))

def scan (check : ExtentInfo → IoM (Option String)) (files : FMap ExtentInfo) : IoM (List (Key × String)) :=
  files.entries.foldlM (fun stale e => do
    match ← check e.2 with
    | some reason => pure (stale ++ [(e.1, reason)])
    | none => pure stale) []

def scanMode (mode : OpenMode) (files : FMap ExtentInfo) : IoM (List (Key × String)) :=
  match mode with
  | .default => scan checkBlock0 files
  | .fullVerify => scan checkExtent files
  | .skipVerify => pure []

/-- Remove a stale entry; a writer records a tombstone for it. -/
def DeviceIndex.dropStale (readOnly : Bool) (nextTxn : UInt64) (index : DeviceIndex) (stale : Key × String) : DeviceIndex :=
  match index.files.lookup stale.1 with
  | none => index
  | some info =>
    { files := index.files.erase stale.1
      tombstones := if readOnly then index.tombstones else index.tombstones.insert stale.1
        { size := info.size, crc32c := info.crc32c, lastModified := info.lastModified, reason := stale.2,
          tombstoneTxn := nextTxn } }

def DeviceIndex.applyStaleRemovals (index : DeviceIndex) (stale : List (Key × String)) (readOnly : Bool)
    (nextTxn : UInt64) : DeviceIndex := stale.foldl (DeviceIndex.dropStale readOnly nextTxn) index

/-- Orphaned multipart extents. -/
def DeviceIndex.multipartKeys (index : DeviceIndex) : List Key :=
  (index.files.entries.map (·.1)).filter isMultipartTmp

/-- Drop what does not fit the device: out of bounds first, then overlaps. Also the keys dropped. -/
def DeviceIndex.validate (index : DeviceIndex) (dataEnd : Nat) : DeviceIndex × List Key :=
  let bad := index.outOfBounds dataEnd
  let index := index.without bad
  let overlap := overlapKeys (sortEntries index.files.entries)
  (index.without overlap, bad ++ overlap)

/-- The index after validation, scan and purge, and the keys these removed. -/
def DeviceIndex.recover (loaded : DeviceIndex) (dataEnd : Nat) (stale : List (Key × String)) (readOnly : Bool)
    (nextTxn : UInt64) : DeviceIndex × List Key :=
  let valid := loaded.validate dataEnd
  let scanned := valid.1.applyStaleRemovals stale readOnly nextTxn
  let orphans := if readOnly then [] else scanned.multipartKeys
  (scanned.without orphans, valid.2 ++ stale.map (·.1) ++ orphans)

/-- The store an open returns; the shards of removed keys are dirty. -/
def openedStore (sb : Superblock) (l : Layout) (compression : Compression) (readOnly : Bool) (index : DeviceIndex)
    (modified : List Key) (io : DeviceIo) : Store where
  io := { io with direct := sb.flags &&& flagDirectIo ≠ 0 }
  files := index.files
  tombstones := index.tombstones
  allocator := if readOnly then none
    else some (.fromFreeList (rebuildFreeList index.files l.regionA).2 dataStart l.regionA)
  superblock := sb
  dirty := !modified.isEmpty
  readOnly := readOnly
  shardDirty := fun i => modified.any fun k => shardForKey k = i
  lastFlushBytes := 0
  maxKeyLength := sb.maxKeyLength.toNat
  compression := compression
  indexRegionA := l.regionA
  indexRegionB := l.regionB
  indexSlotCapacity := l.slotCapacity
  shardSlotSize := l.slotSize
  nextUploadId := 0

def openImpl (mode : OpenMode) (readOnly : Bool) : IoM Store := do
  let (sb, l, loaded) ← loadIndex
  let stale ← scanMode mode (loaded.validate l.regionA).1.files
  Prog.failIf (readOnly = false ∧ sb.flags &&& flagWriteProtect ≠ 0) .writeProtected
  let (index, modified) := loaded.recover l.regionA stale readOnly (sb.txnId + 1)
  Prog.failIf (sb.maxKeyLength = 0) (.io "superblock has max_key_length=0 (pre-v4 image); reformat required")
  let compression ← ofExcept (Compression.fromU8 sb.compression)
  let io ← get
  pure (openedStore sb l compression readOnly index modified io)

/-- The device as `open_impl` finds it: buffered, with nothing logged. -/
def DeviceIo.onDisk (dev : Disk) (readOnly : Bool) (script : List Outcome) : DeviceIo :=
  { dev := dev, direct := false, readOnly := readOnly, script := script, log := [] }

end ObjStr.Raw
