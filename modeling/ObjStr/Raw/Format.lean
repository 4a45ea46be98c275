/-
  ObjStr.Raw.Format — what `format_with_options` leaves.

  A format that returns has written the superblock twice and an empty shard to every slot of
  region A (`Formatted`). The store it returns is laid out (`Formatted.laid`), its data area
  is free (`Formatted.space`).
-/

import ObjStr.Raw.Request

namespace ObjStr.Raw

open ObjStr.Lib DeviceIo

variable [Crates]

structure FormatOptions.Valid (opts : FormatOptions) : Prop where
  room : indexRegionSize ≤ opts.indexSlotSize
  whole : opts.indexSlotSize % indexRegionSize = 0
  maxKey : opts.maxKeyLength ≤ maxKeyLengthHardCeiling
  size : minDeviceSize opts.indexSlotSize ≤ opts.deviceSize

structure Formatted (opts : FormatOptions) (s : Store) : Prop where
  valid : opts.Valid
  store : ∃ io, s = opts.newStore io ∧ io.readOnly = false ∧ io.dev.size = opts.deviceSize
  superblocks : HasSuperblock s.io.dev 0 opts.superblock ∧ HasSuperblock s.io.dev superblockSize opts.superblock
  slots : ∀ i, s.io.dev.read (s.slotOffset 0 i) ShardData.empty.toBytes.1.length = ShardData.empty.toBytes.1

/-! ## The store -/

omit [Crates] in
theorem FormatOptions.effectiveMaxKey_bounds {opts : FormatOptions} (h : opts.Valid) :
    0 < opts.effectiveMaxKey ∧ opts.effectiveMaxKey ≤ 65536 := by
  have h1 := h.room
  have h2 := h.maxKey
  have h3 := opts.keyFits
  have e1 : indexRegionSize = 16777216 := by decide
  have e2 : numShards = 256 := rfl
  have e3 : maxKeyLengthHardCeiling = 65536 := rfl
  rw [e1] at h1
  rw [e3] at h2
  unfold FormatOptions.effectiveMaxKey
  rw [e2]
  omega

theorem FormatOptions.describes {opts : FormatOptions} (h : opts.Valid) {io : DeviceIo} (hsize : io.dev.size = opts.deviceSize) :
    Describes opts.superblock (opts.newStore io) := by
  have hroom := h.room
  have hmin := h.size
  have hfit := opts.sizeFits
  have e1 : indexRegionSize = 16777216 := by decide
  have e6 : u64Max = 18446744073709551615 := rfl
  have hcap : (UInt64.ofNat opts.indexSlotSize).toNat = opts.indexSlotSize := by
    rw [UInt64.toNat_ofNat']
    apply Nat.mod_eq_of_lt
    unfold minDeviceSize at hmin
    omega
  refine ⟨?_, rfl, rfl, ?_, ?_, ?_, ?_⟩
  · show layoutOf io.dev.size opts.superblock = _
    unfold layoutOf
    have hpos : 0 < opts.superblock.indexSlotCapacity := by
      rw [UInt64.lt_iff_toNat_lt]
      show 0 < (UInt64.ofNat opts.indexSlotSize).toNat
      omega
    have hc : opts.superblock.indexSlotCapacity.toNat = opts.indexSlotSize := hcap
    dsimp only
    rw [if_pos hpos, hc, hsize, if_neg (by omega)]
    rfl
  · show UInt64.ofNat Raw.blockAlignment ≠ 0
    decide
  · show UInt32.ofNat opts.effectiveMaxKey ≠ 0
    have hb := opts.effectiveMaxKey_bounds h
    intro h0
    have := congrArg UInt32.toNat h0
    rw [UInt32.toNat_ofNat', Nat.mod_eq_of_lt (by omega)] at this
    simp at this
    omega
  · exact Compression.fromU8_toU8 opts.compression
  · rfl

theorem Formatted.laid {opts : FormatOptions} {s : Store} (h : Formatted opts s) : Laid s := by
  obtain ⟨io, rfl, hro, hsize⟩ := h.store
  refine ⟨opts.describes h.valid hsize, h.valid.whole, h.valid.room, opts.slotFits, ?_, ?_, hro, rfl⟩
  · show io.dev.size ≤ u64Max
    rw [hsize]
    exact opts.sizeFits
  · intro hd
    show io.dev.size % blockAlignment = 0
    rw [hsize]
    exact opts.wholeBlocks hd

theorem Formatted.space {opts : FormatOptions} {s : Store} (h : Formatted opts s) : SpaceInv s [] := by
  have g := h.laid.geometry
  obtain ⟨io, rfl, -, -⟩ := h.store
  have hd : dataStart + blockAlignment ≤ opts.deviceSize - opts.indexSlotSize * 2 := g.data
  have hlt : dataStart < opts.deviceSize - opts.indexSlotSize * 2 := by
    unfold blockAlignment at hd
    omega
  refine ⟨⟨_, rfl, ⟨⟨by simp [spans, FMap.values, FormatOptions.newStore], by simp [spans, FMap.values, FormatOptions.newStore],
    by simp [spans, FMap.values, FormatOptions.newStore]⟩, ?_, ?_, ?_⟩⟩, by simp [FMap.values, FormatOptions.newStore]⟩
  · unfold ExtentAllocator.new
    rw [if_pos hlt]
    refine ⟨rfl, ⟨?_, by simp⟩, ?_, ?_⟩
    · intro e he
      rw [List.mem_singleton.mp he]
      dsimp only
      omega
    · intro e he
      rw [List.mem_singleton.mp he]
      show dataStart % blockAlignment = 0
      decide
    · intro e he
      rw [List.mem_singleton.mp he]
      show dataStart ≤ dataStart ∧ dataStart + _ ≤ opts.deviceSize - opts.indexSlotSize * 2
      dsimp only
      omega
  · intro x
    unfold ExtentAllocator.new
    rw [if_pos hlt]
    simp only [spans, FMap.values, FormatOptions.newStore, AList.empty_entries, List.map_nil, List.append_nil, covers_cons,
      covers_nil, or_false, not_false_eq_true, and_true, Span.Has, Store.dataEnd]
    omega
  · have h1 := h.laid.sizeFits
    have h2 := g.size
    have h3 := g.regionB
    unfold Store.dataEnd
    omega

theorem Formatted.content {opts : FormatOptions} {s : Store} (h : Formatted opts s) (care : Care) : ContentInv care s := by
  obtain ⟨io, rfl, -, -⟩ := h.store
  intro k info hk
  change (∅ : FMap ExtentInfo).lookup k = some info at hk
  rw [AList.lookup_empty] at hk
  exact absurd hk (by simp)

/-! ## The device -/

theorem formatted {opts : FormatOptions} {bytes : Nat → UInt8} {script : List Outcome} {s : Store} {io : DeviceIo}
    (h : (formatWithOptions opts).exec (opts.device bytes script) = (.ok s, io)) : Formatted opts s := by
  rw [format_request] at h
  have hleft := @FormatRequest.left _ opts.request .regularFile bytes script s io h
  obtain ⟨hroom, hwhole, hkey, hsize⟩ := hleft.valid
  exact ⟨⟨hroom, hwhole, hkey, hsize⟩, hleft.store, hleft.superblocks, hleft.slots⟩

end ObjStr.Raw
