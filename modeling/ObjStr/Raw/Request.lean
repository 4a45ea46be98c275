/-
  ObjStr.Raw.Request — `format_with_options` as any caller may call it (`store.rs`, `io.rs`).

  The options are checked for the index slot size, the key limit and the least device size, and for nothing else. At the
  path is a regular file, which `DeviceIo::create` makes as long as the options say, or a block device, which has the size
  it has (`Medium`). `FormatOptions` are requests that keep the on-disk fields meaningful (`format_request`).
  - `FormatRequest.left`: a format that returns has written the superblock twice and an empty shard to every slot of region A,
    where the options say these are.
-/

import ObjStr.Raw.Run

namespace ObjStr.Raw

open ObjStr.Lib DeviceIo

/-! ## Requests -/

/-- The options of a format, with any values that their types have. -/
structure FormatRequest where
  deviceSize : Nat
  directIo : Bool
  indexSlotSize : Nat
  maxKeyLength : Nat
  compression : Compression
  /-- A `u64`. -/
  sizeFits : deviceSize ≤ u64Max

def FormatOptions.request (opts : FormatOptions) : FormatRequest :=
  ⟨opts.deviceSize, opts.directIo, opts.indexSlotSize, opts.maxKeyLength, opts.compression, opts.sizeFits⟩

/-- What is at the path. -/
inductive Medium where
  | regularFile
  | blockDevice (size : Nat)
  deriving DecidableEq

namespace FormatRequest

/-- The size that an open of the path finds: `create` sets the length of a regular file. -/
def physicalSize (req : FormatRequest) : Medium → Nat
  | .regularFile => req.deviceSize
  | .blockDevice size => size

def effectiveMaxKey (req : FormatRequest) : Nat := min req.maxKeyLength (req.indexSlotSize / numShards - 98)

variable [Crates]

def superblock (req : FormatRequest) : Superblock :=
  let (blob, crc) := ShardData.empty.toBytes
  let regionA := req.deviceSize - req.indexSlotSize * 2
  { Superblock.new (UInt64.ofNat req.deviceSize) (UInt64.ofNat blockAlignment) (UInt64.ofNat regionA)
      (UInt64.ofNat req.indexSlotSize) (UInt32.ofNat req.effectiveMaxKey) req.compression with
    shardSlots := fun _ => ⟨0, UInt32.ofNat blob.length, crc⟩
    indexRegionSize := UInt64.ofNat (blob.length * numShards)
    txnId := 1
    flags := if req.directIo then flagDirectIo else 0 }

def formatDevice (req : FormatRequest) : IoM Unit := do
  let blob := ShardData.empty.toBytes.1
  (List.finRange numShards).forM fun i =>
    DeviceIo.pwrite (req.deviceSize - req.indexSlotSize * 2 + i * (req.indexSlotSize / numShards)) blob
  let sb ← ofExcept req.superblock.toBytes
  DeviceIo.pwrite 0 sb
  DeviceIo.pwrite superblockSize sb
  DeviceIo.sync

/-- The store a format returns, its device reopened with `O_DIRECT` if that was asked for. -/
def newStore (req : FormatRequest) (io : DeviceIo) : Store where
  io := { io with direct := req.directIo }
  files := ∅
  tombstones := ∅
  allocator := some (.new dataStart (req.deviceSize - req.indexSlotSize * 2) blockAlignment)
  superblock := req.superblock
  dirty := false
  readOnly := false
  shardDirty := fun _ => false
  lastFlushBytes := 0
  maxKeyLength := req.effectiveMaxKey
  compression := req.compression
  indexRegionA := req.deviceSize - req.indexSlotSize * 2
  indexRegionB := req.deviceSize - req.indexSlotSize
  indexSlotCapacity := req.indexSlotSize
  shardSlotSize := req.indexSlotSize / numShards
  nextUploadId := 0

/-- Format what is at the path. A slot size whose double is no `u64` is refused here with the devices that are too small;
    the source panics on it. -/
def format (req : FormatRequest) : IoM Store := do
  Prog.failIf (req.indexSlotSize < indexRegionSize ∨ req.indexSlotSize % indexRegionSize ≠ 0)
    (.invalidIndexSlotSize req.indexSlotSize)
  Prog.failIf (maxKeyLengthHardCeiling < req.maxKeyLength) (.maxKeyLengthTooLarge req.maxKeyLength maxKeyLengthHardCeiling)
  Prog.failIf (req.deviceSize < minDeviceSize req.indexSlotSize)
    (.deviceTooSmall req.deviceSize (minDeviceSize req.indexSlotSize))
  req.formatDevice
  let io ← get
  pure (req.newStore io)

/-- What `DeviceIo::create` hands to a format, with whatever bytes are on it. -/
def device (req : FormatRequest) (medium : Medium) (bytes : Nat → UInt8) (script : List Outcome) : DeviceIo :=
  { dev := ⟨req.physicalSize medium, bytes⟩, direct := false, readOnly := false, script := script, log := [] }

end FormatRequest

variable [Crates]

theorem format_request (opts : FormatOptions) : formatWithOptions opts = opts.request.format := rfl

structure FormatRequest.Valid (req : FormatRequest) : Prop where
  room : indexRegionSize ≤ req.indexSlotSize
  whole : req.indexSlotSize % indexRegionSize = 0
  maxKey : req.maxKeyLength ≤ maxKeyLengthHardCeiling
  size : minDeviceSize req.indexSlotSize ≤ req.deviceSize

structure FormatRequest.Left (req : FormatRequest) (size : Nat) (s : Store) : Prop where
  valid : req.Valid
  store : ∃ io, s = req.newStore io ∧ io.readOnly = false ∧ io.dev.size = size
  superblocks : HasSuperblock s.io.dev 0 req.superblock ∧ HasSuperblock s.io.dev superblockSize req.superblock
  slots : ∀ i, s.io.dev.read (s.slotOffset 0 i) ShardData.empty.toBytes.1.length = ShardData.empty.toBytes.1

/-! ## The device -/

/-- The empty shard is in the slots of `done`, and only slots of region A have been written. -/
def EmptySlots (req : FormatRequest) (done : List (Fin numShards)) (io io' : DeviceIo) : Prop :=
  Wrote (fun e => ∃ i : Fin numShards,
      Inside (req.deviceSize - req.indexSlotSize * 2 + i * (req.indexSlotSize / numShards), 16) e) io io' ∧
    ∀ i ∈ done, io'.dev.read (req.deviceSize - req.indexSlotSize * 2 + i * (req.indexSlotSize / numShards)) 16 =
      ShardData.empty.toBytes.1

theorem length_empty : ShardData.empty.toBytes.1.length = 16 := Crates.length_serialize_empty

theorem FormatRequest.wp_formatSlots {req : FormatRequest} (h : req.Valid) {io : DeviceIo} (hbuf : io.direct = false) :
    Prog.wp ((List.finRange numShards).forM fun (i : Fin numShards) =>
        DeviceIo.pwrite (req.deviceSize - req.indexSlotSize * 2 + i * (req.indexSlotSize / numShards))
          ShardData.empty.toBytes.1)
      (fun _ io' => EmptySlots req (List.finRange numShards) io io') (fun _ _ => True) io := by
  have hslot : 16 ≤ req.indexSlotSize / numShards := by
    have h1 := h.room
    have e1 : indexRegionSize = 16777216 := by decide
    have e2 : numShards = 256 := rfl
    rw [e2]
    omega
  rw [Prog.forM_eq_foldlM]
  refine Prog.wp_foldlM (fun done _ io' => EmptySlots req done io io') _ ⟨Wrote.refl, by simp⟩ ?_
  rintro pre i post _ io1 hl ⟨hw, hpre⟩
  refine Prog.wp_mono (wp_pwrite _ _) ?_ (fun _ _ _ => trivial)
  rintro _ io2 ⟨-, hdone⟩
  have hback := hdone.wrote.2
  have hin := hdone.wrote_padded
  have hlen : (io1.padded ShardData.empty.toBytes.1).length = 16 := by
    unfold padded
    rw [hw.direct_eq, hbuf]
    exact length_empty
  rw [hlen] at hin
  rw [length_empty] at hback
  refine ⟨hw.trans (hin.mono fun e he => ⟨i, he⟩), ?_⟩
  intro j hj
  rcases List.mem_append.mp hj with hj | hj
  · have hij : j ≠ i := by
      have hnd := List.nodup_finRange numShards
      rw [hl] at hnd
      exact fun he => (List.nodup_append.mp hnd).2.2 j hj i (by simp) he
    rw [hin.read_eq, hpre j hj]
    intro e a he h1 h2 hr
    have hreach := Inside.reaches he hr
    unfold Span.Has at hreach
    dsimp only at hreach
    rcases Nat.lt_or_gt_of_ne (fun he => hij (Fin.ext he)) with hlt | hgt
    · have := Nat.mul_le_mul_right (req.indexSlotSize / numShards) (Nat.succ_le_of_lt hlt)
      rw [Nat.succ_mul] at this
      omega
    · have := Nat.mul_le_mul_right (req.indexSlotSize / numShards) (Nat.succ_le_of_lt hgt)
      rw [Nat.succ_mul] at this
      omega
  · rw [List.mem_singleton.mp hj]
    exact hback

theorem FormatRequest.wp_formatDevice {req : FormatRequest} (h : req.Valid) {io : DeviceIo} (hbuf : io.direct = false) :
    Prog.wp req.formatDevice
      (fun _ io' => io'.readOnly = io.readOnly ∧ io'.dev.size = io.dev.size ∧
        HasSuperblock io'.dev 0 req.superblock ∧ HasSuperblock io'.dev superblockSize req.superblock ∧
        ∀ i : Fin numShards, io'.dev.read (req.deviceSize - req.indexSlotSize * 2 + i * (req.indexSlotSize / numShards)) 16 =
          ShardData.empty.toBytes.1)
      (fun _ _ => True) io := by
  unfold FormatRequest.formatDevice
  dsimp only
  rw [Prog.wp_bind]
  refine Prog.wp_mono (wp_formatSlots h hbuf) ?_ (fun _ _ _ => trivial)
  rintro _ io1 ⟨hw, hslots⟩
  rw [toBytes_eq, Prog.wp_bind, wp_ofExcept, ← Superblock.bytes]
  dsimp only
  rw [Prog.wp_bind]
  refine Prog.wp_mono (wp_pwriteSuperblock (Superblock.length_bytes _) (by decide)) ?_ (fun _ _ _ => trivial)
  rintro _ io2 ⟨e, he, hlog2⟩
  rw [Prog.wp_bind]
  refine Prog.wp_mono (wp_pwriteSuperblock (Superblock.length_bytes _) (by decide)) ?_ (fun _ _ _ => trivial)
  rintro _ io3 ⟨e', he', hlog3⟩
  refine wp_sync_of ?_ (fun _ _ _ => trivial)
  intro io4 ha4
  have hdev3 : io4.dev = (io1.dev.apply e).apply e' := by
    rw [ha4.dev_eq, hlog3.dev_eq, hlog2.dev_eq]
    rfl
  have hmiss0 : Misses 0 superblockSize e' := he'.misses (Superblock.length_bytes _) (Or.inr (Nat.le_refl _))
  have hsize : io4.dev.size = io.dev.size := by
    rw [hdev3, Disk.apply_size, Disk.apply_size, hw.size_eq]
  refine ⟨?_, hsize, ?_, ?_, ?_⟩
  · show io4.readOnly = io.readOnly
    rw [ha4.readOnly_eq, hlog3.readOnly_eq, hlog2.readOnly_eq, hw.readOnly_eq]
  · show io4.dev.read 0 superblockSize = _
    rw [hdev3]
    have hl := he.lands (d := io1.dev)
    unfold HasSuperblock at hl
    rw [← hl]
    exact Disk.read_congr fun a h1 h2 => Disk.apply_byte_of_not_reaches (hmiss0 a h1 (by omega))
  · show io4.dev.read superblockSize superblockSize = _
    rw [hdev3]
    exact he'.lands
  · intro i
    show io4.dev.read _ 16 = _
    have hmin := h.size
    have e4 : superblockRegion = 8192 := by decide
    unfold minDeviceSize at hmin
    rw [e4] at hmin
    have e5 : superblockSize = 4096 := rfl
    rw [hdev3, ← hslots i (List.mem_finRange i)]
    apply Disk.read_congr
    intro a h1 h2
    rw [Disk.apply_byte_of_not_reaches, Disk.apply_byte_of_not_reaches]
    · exact he.misses (Superblock.length_bytes _) (Or.inl (by omega)) a (Nat.le_refl _) (by omega)
    · exact he'.misses (Superblock.length_bytes _) (Or.inl (by omega)) a (Nat.le_refl _) (by omega)

/-- A format that returns. -/
theorem FormatRequest.left {req : FormatRequest} {medium : Medium} {bytes : Nat → UInt8} {script : List Outcome} {s : Store}
    {io : DeviceIo} (h : req.format.exec (req.device medium bytes script) = (.ok s, io)) : req.Left (req.physicalSize medium) s := by
  have hwp : Prog.wp req.format (fun s _ => req.Left (req.physicalSize medium) s) (fun _ _ => True)
      (req.device medium bytes script) := by
    unfold FormatRequest.format
    rw [Prog.wp_bind, Prog.wp_failIf]
    refine ⟨fun _ => trivial, fun hroom => ?_⟩
    rw [Prog.wp_bind, Prog.wp_failIf]
    refine ⟨fun _ => trivial, fun hkey => ?_⟩
    rw [Prog.wp_bind, Prog.wp_failIf]
    refine ⟨fun _ => trivial, fun hsize => ?_⟩
    have hv : req.Valid := ⟨by omega, by omega, by omega, by omega⟩
    rw [Prog.wp_bind]
    refine Prog.wp_mono (req.wp_formatDevice hv rfl) ?_ (fun _ _ _ => trivial)
    intro _ io1 h1
    obtain ⟨hro, hsize, hprimary, hbackup, hslots⟩ := h1
    rw [Prog.wp_bind, Prog.wp_get, Prog.wp_pure]
    refine ⟨hv, ⟨io1, rfl, hro, hsize⟩, ⟨hprimary, hbackup⟩, fun i => ?_⟩
    rw [length_empty]
    exact hslots i
  exact Prog.wp_ok hwp h

/-! ## What it says of the device -/

section Layout

variable {req : FormatRequest}

theorem FormatRequest.Valid.layoutOf_eq (h : req.Valid) (size : Nat) :
    layoutOf size req.superblock =
      if size < minDeviceSize req.indexSlotSize then .error (.deviceTooSmall size (minDeviceSize req.indexSlotSize))
      else .ok ⟨req.indexSlotSize, size - req.indexSlotSize * 2, size - req.indexSlotSize, req.indexSlotSize / numShards⟩ := by
  have hroom := h.room
  have hmin := h.size
  have hfit := req.sizeFits
  have e1 : indexRegionSize = 16777216 := by decide
  have e6 : u64Max = 18446744073709551615 := rfl
  have hcap : req.superblock.indexSlotCapacity.toNat = req.indexSlotSize := by
    show (UInt64.ofNat req.indexSlotSize).toNat = _
    rw [UInt64.toNat_ofNat']
    apply Nat.mod_eq_of_lt
    unfold minDeviceSize at hmin
    omega
  have hpos : 0 < req.superblock.indexSlotCapacity := by
    rw [UInt64.lt_iff_toNat_lt, hcap]
    show 0 < req.indexSlotSize
    omega
  unfold layoutOf
  dsimp only
  rw [if_pos hpos, hcap]

/-- The key limit that is recorded is 0 only if the options say so. -/
theorem FormatRequest.Valid.maxKeyLength_ne_zero (h : req.Valid) : req.superblock.maxKeyLength ≠ 0 ↔ 0 < req.maxKeyLength := by
  have h1 := h.room
  have h2 := h.maxKey
  have e1 : indexRegionSize = 16777216 := by decide
  have e2 : numShards = 256 := rfl
  have e3 : maxKeyLengthHardCeiling = 65536 := rfl
  rw [e1] at h1
  rw [e3] at h2
  have hval : req.superblock.maxKeyLength.toNat = req.effectiveMaxKey := by
    show (UInt32.ofNat req.effectiveMaxKey).toNat = _
    rw [UInt32.toNat_ofNat']
    apply Nat.mod_eq_of_lt
    unfold FormatRequest.effectiveMaxKey
    omega
  have hzero : req.superblock.maxKeyLength = 0 ↔ req.effectiveMaxKey = 0 := by
    rw [← hval]
    exact ⟨fun h => by rw [h]; rfl, fun h => UInt32.toNat_inj.mp h⟩
  rw [Ne, hzero]
  unfold FormatRequest.effectiveMaxKey
  rw [e2]
  omega

/-- The superblock describes the store, if the device is as long as was asked for and keys are allowed. -/
theorem FormatRequest.Valid.describes (h : req.Valid) (hkeys : 0 < req.maxKeyLength) {io : DeviceIo} (hsize : io.dev.size = req.deviceSize) :
    Describes req.superblock (req.newStore io) := by
  refine ⟨?_, rfl, rfl, ?_, h.maxKeyLength_ne_zero.mpr hkeys, Compression.fromU8_toU8 req.compression, rfl⟩
  · show layoutOf io.dev.size req.superblock = _
    rw [h.layoutOf_eq, hsize, if_neg (Nat.not_lt.mpr h.size)]
    rfl
  · show UInt64.ofNat Raw.blockAlignment ≠ 0
    decide

/-- The superblock is read back, whatever the size of the device. -/
theorem FormatRequest.Left.chosen {size : Nat} {s : Store} (h : req.Left size s) : chosenSuperblock s.io.dev = .ok req.superblock.stored := by
  have hread : ∀ off, HasSuperblock s.io.dev off req.superblock → superblockAt s.io.dev off = .ok req.superblock.stored := by
    intro off hoff
    unfold superblockAt
    rw [hoff]
    exact fromBytes_image req.superblock rfl rfl (by show UInt64.ofNat Raw.blockAlignment ≠ 0; decide)
  exact chosenSuperblock_of_both (hread _ h.superblocks.1) (hread _ h.superblocks.2)

omit [Crates] in
theorem ShardData.Same.eq_empty {shard : ShardData} (h : shard.Same .empty) : shard = .empty := by
  have hfiles : shard.files = ∅ := AList.ext (List.perm_nil.mp h.files)
  have htombs : shard.tombstones = ∅ := AList.ext (List.perm_nil.mp h.tombstones)
  cases shard
  rw [ShardData.empty, ← hfiles, ← htombs]

/-- Every slot holds the empty shard, wherever the store takes the slots to be. -/
theorem FormatRequest.Left.shard_empty {size : Nat} {s : Store} (h : req.Left size s) (i : Fin numShards) :
    shardAt s.layout s.io.dev (req.superblock.stored.shardSlots i) i = .ok .empty := by
  obtain ⟨shard, hfrom, hsame⟩ := ShardData.empty.fromBytes_toBytes
  rw [hsame.eq_empty] at hfrom
  have hlen : (UInt32.ofNat ShardData.empty.toBytes.1.length).toNat = ShardData.empty.toBytes.1.length := by
    rw [length_empty]
    rfl
  have hne : ¬ UInt32.ofNat ShardData.empty.toBytes.1.length = 0 := by
    rw [length_empty]
    decide
  show shardAt _ _ ⟨0, UInt32.ofNat ShardData.empty.toBytes.1.length, ShardData.empty.toBytes.2⟩ i = _
  unfold shardAt
  dsimp only
  rw [if_neg hne, hlen]
  exact (congrArg (fun b => ShardData.fromBytes b _) (h.slots i)).trans hfrom

end Layout

end ObjStr.Raw
