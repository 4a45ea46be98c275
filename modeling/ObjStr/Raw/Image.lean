/-
  ObjStr.Raw.Image — a device that holds the index of a store.

  Every store whose shards fit their slots has such a device (`Store.image`): both superblocks, every shard in region A,
  and any bytes in the data area. It is what a flush of the whole index leaves, so a run may go on by opening it
  (`image_committed`). `image_opened`: an open that reads every extent records a tombstone for one that is damaged there.
-/

import ObjStr.Raw.Sane

namespace ObjStr.Raw

open ObjStr.Lib DeviceIo

variable [Crates] {s : Store}

/-! ## What is committed -/

/-- What is committed on the device is the index of the state, tombstones included. -/
structure CommittedWhole (s : Store) (d : Disk) : Prop extends Committed s d where
  tombstones : ∀ sb l index, committed d = .ok (sb, l, index) → ∀ k, index.tombstones.lookup k = s.tombstones.lookup k

def Store.imageSuperblock (s : Store) : Superblock :=
  s.superblock.withSlots fun i => ⟨0, UInt32.ofNat (s.blob i).length, (s.shardData i).toBytes.2⟩

/-- A device with the whole index in region A. -/
def Store.image (s : Store) (data : Nat → UInt8) : Disk where
  size := s.io.dev.size
  byte a :=
    if a < dataStart then s.imageSuperblock.bytes.getD (a % superblockSize) 0
    else if a < s.indexRegionA then data a
    else (s.blob ⟨(a - s.indexRegionA) / s.shardSlotSize % numShards, Nat.mod_lt _ (by decide)⟩).getD
      ((a - s.indexRegionA) % s.shardSlotSize) 0

theorem Laid.describes_image (hl : Laid s) : Describes s.imageSuperblock s :=
  ⟨hl.superblock.layout, hl.superblock.magic, hl.superblock.version, hl.superblock.blockAlignment,
    hl.superblock.maxKeyLength, hl.superblock.compression, hl.superblock.flags⟩

theorem Laid.blob_size (hl : Laid s) {i : Fin numShards} (hfits : (s.blob i).length ≤ s.shardSlotSize) :
    (UInt32.ofNat (s.blob i).length).toNat = (s.blob i).length := by
  rw [UInt32.toNat_ofNat']
  exact Nat.mod_eq_of_lt (Nat.lt_of_le_of_lt hfits hl.slotFits)

omit [Crates] in
/-- Bytes that are those of a list read as the list. -/
theorem read_eq_of_bytes {d : Disk} {off : Nat} {b : Bytes} (h : ∀ j < b.length, d.byte (off + j) = b.getD j 0) :
    d.read off b.length = b := by
  apply List.ext_getElem?
  intro j
  rw [Disk.getElem?_read]
  by_cases hj : j < b.length
  · rw [if_pos hj, h j hj, List.getD_eq_getElem?_getD, List.getElem?_eq_getElem hj]
    rfl
  · rw [if_neg hj, List.getElem?_eq_none (by omega)]

theorem image_superblocks (s : Store) (data : Nat → UInt8) :
    HasSuperblock (s.image data) 0 s.imageSuperblock ∧ HasSuperblock (s.image data) superblockSize s.imageSuperblock := by
  have hstart : dataStart = superblockSize + superblockSize := rfl
  have hlen := Superblock.length_bytes s.imageSuperblock
  have key : ∀ off, off = 0 ∨ off = superblockSize → HasSuperblock (s.image data) off s.imageSuperblock := by
    intro off hoff
    unfold HasSuperblock
    rw [← hlen]
    refine read_eq_of_bytes fun j hj => ?_
    rw [hlen] at hj
    show (if off + j < dataStart then _ else _) = _
    have hmod : (off + j) % superblockSize = j := by
      rcases hoff with rfl | rfl
      · rw [Nat.zero_add, Nat.mod_eq_of_lt hj]
      · rw [Nat.add_mod_left, Nat.mod_eq_of_lt hj]
    rw [if_pos (by omega), hmod]
  exact ⟨key 0 (.inl rfl), key superblockSize (.inr rfl)⟩

theorem image_blob {s : Store} (g : Geometry s) (data : Nat → UInt8) (i : Fin numShards) (hfits : (s.blob i).length ≤ s.shardSlotSize) :
    (s.image data).read (s.indexRegionA + i * s.shardSlotSize) (s.blob i).length = s.blob i := by
  refine read_eq_of_bytes fun j hj => ?_
  have hdata := g.data
  have hpos := g.pos
  have hdiv : (s.indexRegionA + i * s.shardSlotSize + j - s.indexRegionA) / s.shardSlotSize = i := by
    rw [show s.indexRegionA + i * s.shardSlotSize + j - s.indexRegionA = j + i * s.shardSlotSize by omega,
      Nat.add_mul_div_right _ _ hpos, Nat.div_eq_of_lt (by omega), Nat.zero_add]
  have hmod : (s.indexRegionA + i * s.shardSlotSize + j - s.indexRegionA) % s.shardSlotSize = j := by
    rw [show s.indexRegionA + i * s.shardSlotSize + j - s.indexRegionA = j + i * s.shardSlotSize by omega,
      Nat.add_mul_mod_self_right, Nat.mod_eq_of_lt (by omega)]
  show (if s.indexRegionA + i * s.shardSlotSize + j < dataStart then _ else _) = _
  rw [if_neg (by omega), if_neg (by omega), hmod]
  congr 2
  apply Fin.ext
  show (s.indexRegionA + i * s.shardSlotSize + j - s.indexRegionA) / s.shardSlotSize % numShards = i
  rw [hdiv, Nat.mod_eq_of_lt i.isLt]

/-- The index that an image holds. -/
theorem image_index (hl : Laid s) (hfits : ∀ i, (s.blob i).length ≤ s.shardSlotSize) (data : Nat → UInt8) :
    ∃ index, committed (s.image data) = .ok (s.imageSuperblock.stored, s.layout, index) ∧ index.Is s.files s.tombstones := by
  have hdesc := hl.describes_image
  obtain ⟨hprimary, hbackup⟩ := image_superblocks s data
  have hsb : chosenSuperblock (s.image data) = .ok s.imageSuperblock.stored :=
    chosenSuperblock_of_both (hprimary.reads hdesc) (hbackup.reads hdesc)
  have hshard : ∀ i, ∃ shard, shardAt s.layout (s.image data) (s.imageSuperblock.stored.shardSlots i) i = .ok shard ∧
      shard.Same (s.shardData i) := by
    intro i
    have hslot : s.imageSuperblock.stored.shardSlots i = ⟨0, UInt32.ofNat (s.blob i).length, (s.shardData i).toBytes.2⟩ := rfl
    have hsize := hl.blob_size (hfits i)
    have hpos : 0 < (s.blob i).length := List.length_pos_iff.mpr (Crates.serialize_ne_nil _)
    obtain ⟨shard, hfrom, hsame⟩ := (s.shardData i).fromBytes_toBytes
    refine ⟨shard, ?_, hsame⟩
    have hne : ¬ UInt32.ofNat (s.blob i).length = 0 := by
      intro h0
      rw [h0] at hsize
      simp at hsize
      omega
    unfold shardAt
    rw [hslot]
    dsimp only
    rw [if_neg hne, hsize]
    show ShardData.fromBytes ((s.image data).read (s.indexRegionA + i * s.shardSlotSize) (s.blob i).length) _ = _
    rw [image_blob hl.geometry data i (hfits i)]
    exact hfrom
  choose shards hshards hsame using hshard
  exact ⟨merge shards, committed_of_shards hsb hdesc.layout hshards, merge_is hsame⟩

/-- A device can hold the index of every store whose shards fit their slots. -/
theorem image_committed (hl : Laid s) (hfits : ∀ i, (s.blob i).length ≤ s.shardSlotSize) (data : Nat → UInt8) :
    CommittedWhole s (s.image data) := by
  obtain ⟨index, hcommitted, his⟩ := image_index hl hfits data
  have hdesc := hl.describes_image
  refine ⟨⟨rfl, _, _, hcommitted, ?_, his.files⟩, fun sb l index h k => ?_⟩
  · exact ⟨hdesc.layout, hdesc.magic, hdesc.version, hdesc.blockAlignment, hdesc.maxKeyLength, hdesc.compression, hdesc.flags⟩
  · rw [hcommitted] at h
    cases h
    exact his.tombstones k

/-! ## Opening it -/

/-- An open of an image loads its index, and finds nothing to repair in it. -/
theorem image_load (hl : Laid s) (hs : SpaceInv s []) (hfits : ∀ i, (s.blob i).length ≤ s.shardSlotSize) (data : Nat → UInt8)
    (readOnly : Bool) :
    ∃ index, index.Is s.files s.tombstones ∧ index.validate s.layout.regionA = (index, []) ∧
      loadIndex.exec (.onDisk (s.image data) readOnly []) =
        (.ok (s.imageSuperblock.stored, s.layout, index), .onDisk (s.image data) readOnly []) := by
  have g := hl.geometry
  obtain ⟨index, hcommitted, his⟩ := image_index hl hfits data
  have hvalid : index.validate s.layout.regionA = (index, []) := validate_ok (hs.extents.of_subset fun k info h => by
    rw [← his.files]
    exact h)
  refine ⟨index, his, hvalid, ?_⟩
  have hsize : superblockSize + superblockSize ≤ s.io.dev.size := by
    have := g.data
    have := g.size
    have := g.regionB
    have e : dataStart = superblockSize + superblockSize := rfl
    omega
  refine loadIndex_calm hcommitted ⟨⟨⟨rfl, (fun h => nomatch h), ?_⟩, ⟨rfl, (fun h => nomatch h), hsize⟩⟩, fun i => ⟨rfl, (fun h => nomatch h), ?_⟩⟩
  · show 0 + superblockSize ≤ s.io.dev.size
    omega
  · show s.slotOffset 0 i + (UInt32.ofNat (s.blob i).length).toNat ≤ s.io.dev.size
    rw [hl.blob_size (hfits i)]
    have := (g.slot_bounds 0 i).2
    have := hfits i
    omega

/-- An open of an image returns, with what its scan leaves of the index. -/
theorem image_opens (hl : Laid s) (hs : SpaceInv s []) (hfits : ∀ i, (s.blob i).length ≤ s.shardSlotSize) (data : Nat → UInt8)
    (mode : OpenMode) (readOnly : Bool) :
    ∃ index : DeviceIndex, index.Is s.files s.tombstones ∧ index.validate s.layout.regionA = (index, []) ∧
      ∀ Q : List (Key × String) → DeviceIo → Prop,
      Prog.wp (scanMode mode index.files) Q (fun _ _ => False) (.onDisk (s.image data) readOnly []) →
      ∃ s' io stale io1, (openImpl mode readOnly).exec (.onDisk (s.image data) readOnly []) = (.ok s', io) ∧ Q stale io1 ∧
        s'.files = (index.recover s.layout.regionA stale readOnly (s.superblock.txnId + 1)).1.files ∧
        s'.tombstones = (index.recover s.layout.regionA stale readOnly (s.superblock.txnId + 1)).1.tombstones ∧
        s'.maxKeyLength = s.superblock.maxKeyLength.toNat := by
  obtain ⟨index, his, hvalid, hload⟩ := image_load hl hs hfits data readOnly
  refine ⟨index, his, hvalid, fun Q hscan => ?_⟩
  have hscan' : Prog.wp (scanMode mode (index.validate s.layout.regionA).1.files) Q (fun _ _ => False)
      (.onDisk (s.image data) readOnly []) := by
    rw [hvalid]
    exact hscan
  obtain ⟨stale, io, hQ, hrun⟩ := openImpl_returns hload hscan' hl.superblock.unprotected hl.superblock.maxKeyLength
    hl.superblock.compression
  exact ⟨_, io, stale, io, hrun, hQ, rfl, rfl, rfl⟩

/-- A full open of an image finds an entry whose extent is damaged, removes it and records a tombstone. -/
theorem image_opened (hl : Laid s) (hs : SpaceInv s []) (hc : ContentInv .index s)
    (hfits : ∀ i, (s.blob i).length ≤ s.shardSlotSize) (data : Nat → UInt8) {k : Key} {info : ExtentInfo}
    (hk : s.files.lookup k = some info) (hbad : ¬ Intact (s.image data) info) :
    ∃ s' io, (openImpl .fullVerify false).exec (.onDisk (s.image data) false []) = (.ok s', io) ∧
      (s'.tombstones.lookup k).isSome ∧ s'.maxKeyLength = s.superblock.maxKeyLength.toNat := by
  have g := hl.geometry
  obtain ⟨index, his, hvalid, hopens⟩ := image_opens hl hs hfits data .fullVerify false
  have hlookup : ∀ k info, index.files.lookup k = some info → s.files.lookup k = some info := fun k info h => by
    rw [← his.files]
    exact h
  have hcalm : ∀ k info, index.files.lookup k = some info →
      Calm (.onDisk (s.image data) false []) info.offset (numBlocks info.size * blockAlignment) ∧
        numBlocks info.size * blockAlignment ≤ u64Max := by
    intro k info h
    have hin := hs.extents.inside info.span (List.mem_map_of_mem (mem_values (hlookup k info h)))
    have hend : info.offset + info.paddedSize ≤ s.io.dev.size := by
      have hdata : info.offset + info.paddedSize ≤ s.indexRegionA := hin.2.1
      have := g.size
      have := g.regionB
      omega
    have hfit := hl.sizeFits
    rw [(hc k info (hlookup k info h)).padded] at hend
    exact ⟨⟨rfl, (fun h => nomatch h), hend⟩, by omega⟩
  obtain ⟨s', io, stale, io1, hrun, hstale, -, htombs, hmax⟩ := hopens _ (wp_scan_full hcalm)
  have hmem : k ∈ stale.map (·.1) := (hstale.2 k info (by rw [his.files]; exact hk)).mpr hbad
  refine ⟨s', io, hrun, ?_, hmax⟩
  rw [htombs]
  unfold DeviceIndex.recover
  rw [hvalid]
  exact tombstone_of_stale _ stale index hmem (by rw [his.files]; exact hk)

end ObjStr.Raw
