/-
  ObjStr.Raw.Epoch — the index a device holds, and what a flush that stops midway leaves of it.

  An `Epoch` is an index with the device at the time it was flushed. It is `On` a device when an open finds it there through
  a given superblock, and the extents of the keys that have kept them since (`spared`) read as they did.
  - `Epoch.On.shards`: shard writes leave the epoch of before where it is.
  - `SuperblockTrace.leaves`: wherever the superblock writes stop, the device has the epoch of before or that of the flush.
  - `FlushRan.leaves`, `FlushRan.leaves_done`: so a flush that is cut short at any event leaves one of the two, and a flush
    that returned leaves its own.
-/

import ObjStr.Lib.Crash
import ObjStr.Raw.Image

namespace ObjStr.Raw

open ObjStr.Lib DeviceIo

/-! ## Indexes -/

section Indexes

variable [Crates] {a b : DeviceIndex}

def Store.index (s : Store) : DeviceIndex := ⟨s.files, s.tombstones⟩

def DeviceIndex.shardData (index : DeviceIndex) (shard : Fin numShards) : ShardData where
  files := index.files.filterKeys fun k => shardForKey k = shard
  tombstones := index.tombstones.filterKeys fun k => shardForKey k = shard

theorem Store.shardData_index (s : Store) (i : Fin numShards) : s.index.shardData i = s.shardData i := rfl

omit [Crates] in
theorem ShardData.Same.refl (d : ShardData) : d.Same d := ⟨.refl _, .refl _⟩

omit [Crates] in
theorem ShardData.Same.symm {a b : ShardData} (h : a.Same b) : b.Same a := ⟨h.files.symm, h.tombstones.symm⟩

omit [Crates] in
theorem ShardData.same_of_lookup {a b : ShardData} (hf : ∀ k, a.files.lookup k = b.files.lookup k)
    (ht : ∀ k, a.tombstones.lookup k = b.tombstones.lookup k) : a.Same b := ⟨FMap.perm_of_lookup hf, FMap.perm_of_lookup ht⟩

theorem DeviceIndex.lookup_shardData (index : DeviceIndex) (i : Fin numShards) (k : Key) :
    (index.shardData i).files.lookup k = (if shardForKey k = i then index.files.lookup k else none) ∧
      (index.shardData i).tombstones.lookup k = (if shardForKey k = i then index.tombstones.lookup k else none) := by
  unfold DeviceIndex.shardData
  rw [FMap.lookup_filterKeys, FMap.lookup_filterKeys]
  simp

/-- Indexes that agree on the keys of a shard have the same shard. -/
theorem DeviceIndex.same_shard {i : Fin numShards} (hf : ∀ k, shardForKey k = i → a.files.lookup k = b.files.lookup k)
    (ht : ∀ k, shardForKey k = i → a.tombstones.lookup k = b.tombstones.lookup k) : (a.shardData i).Same (b.shardData i) := by
  refine ShardData.same_of_lookup (fun k => ?_) (fun k => ?_)
  · rw [(a.lookup_shardData i k).1, (b.lookup_shardData i k).1]
    split
    · next h => exact hf k h
    · rfl
  · rw [(a.lookup_shardData i k).2, (b.lookup_shardData i k).2]
    split
    · next h => exact ht k h
    · rfl

theorem DeviceIndex.Is.same (h : a.Is b.files b.tombstones) (i : Fin numShards) : (a.shardData i).Same (b.shardData i) :=
  DeviceIndex.same_shard (fun k _ => h.files k) (fun k _ => h.tombstones k)

/-- Shards that are those of an index merge to it. -/
theorem DeviceIndex.merge_is {shards : Fin numShards → ShardData} (h : ∀ i, (shards i).Same (a.shardData i)) :
    (merge shards).Is a.files a.tombstones := by
  have hown : Sorted shards := by
    intro i k hk
    obtain ⟨h1, h2⟩ := (h i).lookup k
    obtain ⟨h3, h4⟩ := a.lookup_shardData i k
    rw [if_neg hk] at h3 h4
    exact ⟨h1.trans h3, h2.trans h4⟩
  refine ⟨fun k => ?_, fun k => ?_⟩
  · rw [(lookup_merge hown k).1, ((h _).lookup k).1, (a.lookup_shardData _ k).1, if_pos rfl]
  · rw [(lookup_merge hown k).2, ((h _).lookup k).2, (a.lookup_shardData _ k).2, if_pos rfl]

end Indexes

/-! ## Superblocks -/

section Superblocks

variable [Crates] {s : Store} {sb : Superblock} {d : Disk}

omit [Crates] in
theorem Describes.withSlots (h : Describes sb s) (slots : Fin numShards → ShardSlotMeta) : Describes (sb.withSlots slots) s :=
  ⟨h.layout, h.magic, h.version, h.blockAlignment, h.maxKeyLength, h.compression, h.flags⟩

omit [Crates] in
theorem Describes.next (h : Describes sb s) (txn : UInt64) : Describes (sb.next txn) s :=
  ⟨h.layout, h.magic, h.version, h.blockAlignment, h.maxKeyLength, h.compression, h.flags⟩

theorem Describes.stored (h : Describes sb s) : Describes sb.stored s :=
  ⟨h.layout, h.magic, h.version, h.blockAlignment, h.maxKeyLength, h.compression, h.flags⟩

theorem Describes.flushed (h : Describes s.superblock s) : Describes s.flushedSuperblock.stored s :=
  ((h.withSlots _).next _).stored

/-- A superblock that can be read at a place is of no later transaction. -/
def NotAfter (d : Disk) (off : Nat) (txn : UInt64) : Prop := ∀ sb, superblockAt d off = .ok sb → sb.txnId ≤ txn

theorem NotAfter.mono {off : Nat} {txn txn' : UInt64} (h : NotAfter d off txn) (hle : txn ≤ txn') : NotAfter d off txn' :=
  fun sb hsb => UInt64.le_trans (h sb hsb) hle

/-- The superblock that is chosen is the latest. -/
theorem notAfter_of_chosen (h : chosenSuperblock d = .ok sb) : NotAfter d superblockSize sb.txnId := by
  intro b hb
  unfold chosenSuperblock chooseSuperblock at h
  rw [hb] at h
  split at h
  · next a b' _ hb' =>
    obtain rfl := Except.ok.inj hb'
    split at h
    · next hle =>
      obtain rfl := Except.ok.inj h
      exact hle
    · obtain rfl := Except.ok.inj h
      exact UInt64.le_refl _
  · next hb' => cases hb'
  · next hb' =>
    obtain rfl := Except.ok.inj hb'
    obtain rfl := Except.ok.inj h
    exact UInt64.le_refl _
  · next hb' => cases hb'

/-- A primary that is no older than the backup is chosen. -/
theorem chosen_of_primary (hprimary : superblockAt d 0 = .ok sb) (hbackup : NotAfter d superblockSize sb.txnId) :
    chosenSuperblock d = .ok sb := by
  unfold chosenSuperblock chooseSuperblock
  rw [hprimary]
  cases hb : superblockAt d superblockSize with
  | ok b => exact if_pos (hbackup b hb)
  | error e => rfl

theorem superblockAt_congr {e : Disk} {off : Nat} (h : ∀ a, off ≤ a → a < off + superblockSize → e.byte a = d.byte a) :
    superblockAt e off = superblockAt d off := by
  unfold superblockAt
  rw [Disk.read_congr h]

theorem chosenSuperblock_congr {e : Disk} (h : ∀ a, a < dataStart → e.byte a = d.byte a) : chosenSuperblock e = chosenSuperblock d := by
  have hstart : dataStart = superblockSize + superblockSize := rfl
  unfold chosenSuperblock
  rw [superblockAt_congr fun a _ h2 => h a (by omega), superblockAt_congr fun a _ h2 => h a (by omega)]

omit [Crates] in
/-- A superblock write reaches its own block only. -/
theorem SuperblockWrite.block {off : Nat} {img : Bytes} {b : Bool} {e : Disk.Event} (h : SuperblockWrite off img b e)
    (hlen : img.length = superblockSize) (hoff : off % blockAlignment = 0) {a : Nat} (ha : e.Reaches a) :
    a / blockAlignment = off / blockAlignment := by
  obtain ⟨landed, rfl, -⟩ := h
  simp only [Disk.Event.Reaches, hlen] at ha
  unfold superblockSize blockAlignment at *
  omega

end Superblocks

/-! ## Epochs -/

/-- An index, the device at the time, and the keys that have kept their extents since. -/
structure Epoch where
  index : DeviceIndex
  device : Disk
  spared : Key → Prop

def Epoch.of (s : Store) : Epoch := ⟨s.index, s.io.dev, fun _ => True⟩

section Epochs

variable [Crates] {s : Store} {E : Epoch} {l : Layout} {sb : Superblock} {d d' : Disk}

structure Epoch.On (E : Epoch) (l : Layout) (sb : Superblock) (d : Disk) : Prop where
  chosen : chosenSuperblock d = .ok sb
  slots : ∀ i, SlotOk l d (sb.shardSlots i) i (E.index.shardData i)
  extents : ∀ k info, E.spared k → E.index.files.lookup k = some info →
    d.read info.offset info.paddedSize = E.device.read info.offset info.paddedSize

theorem SlotOk.congr {slot : ShardSlotMeta} {i : Fin numShards} {data : ShardData} (h : SlotOk l d slot i data)
    (hb : ∀ a, l.slotOffset slot.activeSlot i ≤ a → a < l.slotOffset slot.activeSlot i + l.slotSize → d'.byte a = d.byte a) :
    SlotOk l d' slot i data := by
  obtain ⟨hactive, hfits, hholds⟩ := h
  refine ⟨hactive, hfits, ?_⟩
  unfold shardAt at *
  rwa [Disk.read_congr fun a h1 h2 => hb a h1 (by omega)]

/-- Only the superblocks, the active slots and the extents matter. -/
theorem Epoch.On.congr (h : E.On l sb d) (hsuper : ∀ a, a < dataStart → d'.byte a = d.byte a)
    (hslots : ∀ i a, l.slotOffset (sb.shardSlots i).activeSlot i ≤ a →
      a < l.slotOffset (sb.shardSlots i).activeSlot i + l.slotSize → d'.byte a = d.byte a)
    (hextents : ∀ k info, E.spared k → E.index.files.lookup k = some info → ∀ a, info.span.Has a → d'.byte a = d.byte a) :
    E.On l sb d' := by
  refine ⟨?_, fun i => (h.slots i).congr (hslots i), fun k info hk hl => ?_⟩
  · rw [chosenSuperblock_congr hsuper]
    exact h.chosen
  · rw [← h.extents k info hk hl]
    exact Disk.read_congr fun a h1 h2 => hextents k info hk hl a ⟨h1, h2⟩

/-- An open loads the index of the epoch. -/
theorem Epoch.On.loads (h : E.On l sb d) (hl : layoutOf d.size sb = .ok l) :
    ∃ index, committed d = .ok (sb, l, index) ∧ index.Is E.index.files E.index.tombstones := by
  choose shards hshards hsame using fun i => (h.slots i).holds
  exact ⟨merge shards, committed_of_shards h.chosen hl hshards, DeviceIndex.merge_is hsame⟩

/-- Fewer keys may be asked for. -/
theorem Epoch.On.restrict (h : E.On l sb d) {P : Key → Prop} (hP : ∀ k, P k → E.spared k) :
    Epoch.On ⟨E.index, E.device, P⟩ l sb d :=
  ⟨h.chosen, h.slots, fun k info hk => h.extents k info (hP k hk)⟩

/-! ## Shard writes -/

/-- A shard write misses every slot in use. -/
theorem ShardWrite.misses_active (g : Geometry s) {e : Disk.Event} (he : ShardWrite s e) {i : Fin numShards}
    (hactive : (s.superblock.shardSlots i).activeSlot = 0 ∨ (s.superblock.shardSlots i).activeSlot = 1) :
    Misses (s.slotOffset (s.superblock.shardSlots i).activeSlot i)
      (s.slotOffset (s.superblock.shardSlots i).activeSlot i + s.shardSlotSize) e := by
  obtain ⟨j, -, -, hin⟩ := he
  intro a h1 h2 hr
  refine Span.Apart.not_both (g.slots_apart (a := (s.newSlot j).activeSlot) (b := (s.superblock.shardSlots i).activeSlot)
    (i := j) (j := i) ?_) (Inside.reaches hin hr) ⟨h1, h2⟩
  rintro hflip rfl
  -- A shard is written to its other slot.
  rcases hactive with h | h <;> simp [Store.newSlot, h] at hflip

/-- The device as a flush finds it: the epoch of before, through the superblock in memory. -/
structure Before (s : Store) (E : Epoch) (sb : Superblock) (d : Disk) : Prop where
  on : E.On s.layout sb d
  txn : sb.txnId = s.superblock.txnId
  slots : sb.shardSlots = s.superblock.shardSlots
  describes : Describes sb s

def Epoch.Within (E : Epoch) (dataEnd : Nat) : Prop :=
  ∀ k info, E.spared k → E.index.files.lookup k = some info → dataStart ≤ info.offset ∧ info.offset + info.paddedSize ≤ dataEnd

theorem Before.congr (h : Before s E sb d) (g : Geometry s) (hw : E.Within s.dataEnd)
    (hb : ∀ a, (∀ e, ShardWrite s e → ¬ e.Reaches a) → d'.byte a = d.byte a) : Before s E sb d' := by
  have hdata : ∀ a, a < s.dataEnd → d'.byte a = d.byte a :=
    fun a ha => hb a fun e he => he.misses_data g a (Nat.zero_le a) ha
  have hstart : dataStart ≤ s.dataEnd := by
    have := g.data
    unfold Store.dataEnd
    omega
  refine ⟨h.on.congr (fun a ha => hdata a (by omega)) (fun i a h1 h2 => hb a fun e he => ?_) ?_, h.txn, h.slots, h.describes⟩
  · rw [h.slots] at h1 h2
    have hactive := (h.on.slots i).active
    rw [h.slots] at hactive
    exact he.misses_active g hactive a h1 h2
  · intro k info hk hl a ha
    refine hdata a ?_
    have := (hw k info hk hl).2
    have := ha.2
    unfold ExtentInfo.span at this
    dsimp only at this
    omega

/-! ## The superblocks -/

/-- A shard that was written is in its slot. -/
theorem Written.slotOk (hl : Laid s) {i : Fin numShards} (h : Written s d i)
    (hactive : (s.superblock.shardSlots i).activeSlot = 0 ∨ (s.superblock.shardSlots i).activeSlot = 1) :
    SlotOk s.layout d (s.newSlot i) i (s.shardData i) := by
  obtain ⟨hfits, hread⟩ := h
  have hsize := hl.blob_size hfits
  have hpos : 0 < (s.blob i).length := List.length_pos_iff.mpr (Crates.serialize_ne_nil _)
  obtain ⟨shard, hfrom, hsame⟩ := (s.shardData i).fromBytes_toBytes
  refine ⟨?_, ?_, shard, ?_, hsame⟩
  · rcases hactive with h | h <;> simp [Store.newSlot, h]
  · show (UInt32.ofNat (s.blob i).length).toNat ≤ s.shardSlotSize
    rw [hsize]
    exact hfits
  · have hne : ¬ (s.newSlot i).size = 0 := by
      intro h0
      change UInt32.ofNat (s.blob i).length = 0 at h0
      rw [h0] at hsize
      simp at hsize
      omega
    have hlen : (s.newSlot i).size.toNat = (s.blob i).length := hsize
    unfold shardAt
    rw [if_neg hne, hlen]
    show ShardData.fromBytes (d.read (s.slotOffset (s.newSlot i).activeSlot i) (s.blob i).length) _ = _
    rw [hread]
    exact hfrom

structure Staging (s : Store) (E : Epoch) (sb : Superblock) (d : Disk) : Prop where
  before : Before s E sb d
  written : ∀ i, s.shardDirty i = true → Written s d i
  clean : ∀ i, s.shardDirty i = false → (E.index.shardData i).Same (s.shardData i)
  within : (Epoch.of s).Within s.dataEnd
  extents : ∀ k info, s.files.lookup k = some info → d.read info.offset info.paddedSize = s.io.dev.read info.offset info.paddedSize

/-- The slots that the new superblock names hold the shards of the store. -/
theorem Staging.slotOk (h : Staging s E sb d) (hl : Laid s) (i : Fin numShards) :
    SlotOk s.layout d (s.flushedSuperblock.stored.shardSlots i) i (s.shardData i) := by
  have hslots := h.before.slots
  have hactive := (h.before.on.slots i).active
  rw [hslots] at hactive
  show SlotOk s.layout d (s.slotsAfter (List.finRange numShards) i) i (s.shardData i)
  unfold Store.slotsAfter
  cases hd : s.shardDirty i with
  | true =>
    rw [if_pos ⟨List.mem_finRange i, rfl⟩]
    exact (h.written i hd).slotOk hl hactive
  | false =>
    rw [if_neg (by simp)]
    have hslot := (h.before.on.slots i).same (h.clean i hd)
    rwa [hslots] at hslot

/-- The primary superblock is the new one, and the backup is not newer. -/
structure Switched (s : Store) (d : Disk) : Prop where
  on : (Epoch.of s).On s.layout s.flushedSuperblock.stored d
  primary : superblockAt d 0 = .ok s.flushedSuperblock.stored

omit [Crates] in
/-- A superblock write leaves what is beyond the superblocks. -/
theorem SuperblockWrite.beyond {off : Nat} {img : Bytes} {b : Bool} {e : Disk.Event} (h : SuperblockWrite off img b e)
    (hlen : img.length = superblockSize) (hoff : off + superblockSize ≤ dataStart) {a : Nat} (ha : dataStart ≤ a) :
    (d.apply e).byte a = d.byte a :=
  Disk.apply_byte_of_not_reaches (h.misses hlen (.inl hoff) a ha (Nat.lt_succ_self a))

omit [Crates] in
theorem Layout.dataStart_le_slot (g : Geometry s) (slot : UInt8) (i : Fin numShards) : dataStart ≤ s.layout.slotOffset slot i := by
  have h1 := (g.slot_bounds slot i).1
  have h2 := g.data
  show dataStart ≤ s.slotOffset slot i
  omega

/-- With the primary written, an open finds the epoch of the flush. -/
theorem Staging.switch (h : Staging s E sb d) (hl : Laid s) (htxn : s.superblock.txnId < s.superblock.txnId + 1) {e : Disk.Event}
    (he : SuperblockWrite 0 s.flushedSuperblock.bytes true e) : Switched s (d.apply e) := by
  have g := hl.geometry
  have hlen := Superblock.length_bytes s.flushedSuperblock
  have hprimary : superblockAt (d.apply e) 0 = .ok s.flushedSuperblock.stored :=
    he.lands.reads ((hl.superblock.withSlots _).next _)
  have hbackup : NotAfter (d.apply e) superblockSize s.flushedSuperblock.stored.txnId := by
    have hold := notAfter_of_chosen h.before.on.chosen
    rw [h.before.txn] at hold
    intro b hb
    rw [superblockAt_congr fun a h1 _ => Disk.apply_byte_of_not_reaches
      (he.misses hlen (.inl (Nat.le_refl _)) a (by omega) (Nat.lt_succ_self a))] at hb
    exact UInt64.le_trans (hold b hb) (UInt64.le_of_lt htxn)
  refine ⟨⟨chosen_of_primary hprimary hbackup, fun i => (h.slotOk hl i).congr fun a h1 _ => ?_, fun k info _ hk => ?_⟩, hprimary⟩
  · exact he.beyond hlen (by decide) (Nat.le_trans (Layout.dataStart_le_slot g _ i) h1)
  · show _ = s.io.dev.read info.offset info.paddedSize
    rw [← h.extents k info hk]
    exact Disk.read_congr fun a h1 _ => he.beyond hlen (by decide) (Nat.le_trans (h.within k info trivial hk).1 h1)

/-- The backup follows. -/
theorem Switched.backup (h : Switched s d) (hl : Laid s) (hw : (Epoch.of s).Within s.dataEnd) {e : Disk.Event}
    (he : SuperblockWrite superblockSize s.flushedSuperblock.bytes true e) : Switched s (d.apply e) := by
  have g := hl.geometry
  have hlen := Superblock.length_bytes s.flushedSuperblock
  have hbackup : superblockAt (d.apply e) superblockSize = .ok s.flushedSuperblock.stored :=
    he.lands.reads ((hl.superblock.withSlots _).next _)
  have hprimary : superblockAt (d.apply e) 0 = .ok s.flushedSuperblock.stored := by
    rw [superblockAt_congr fun a _ h2 => Disk.apply_byte_of_not_reaches
      (he.misses hlen (.inr (Nat.le_refl _)) a (Nat.zero_le a) (by omega))]
    exact h.primary
  refine ⟨⟨chosenSuperblock_of_both hprimary hbackup, fun i => (h.on.slots i).congr fun a h1 _ => ?_, fun k info hk hk' => ?_⟩, hprimary⟩
  · exact he.beyond hlen (by decide) (Nat.le_trans (Layout.dataStart_le_slot g _ i) h1)
  · rw [← h.on.extents k info hk hk']
    exact Disk.read_congr fun a h1 _ => he.beyond hlen (by decide) (Nat.le_trans (hw k info hk hk').1 h1)

/-! ## A flush that is cut short -/

omit [Crates] in
/-- One write of a superblock, synced or not. -/
theorem SuperblockWrite.leaves {off : Nat} {img : Bytes} {b : Bool} {e : Disk.Event} (h : SuperblockWrite off img b e)
    (hlen : img.length = superblockSize) (hoff : off % blockAlignment = 0) {c : Cached}
    (hd : (Cached.apply ⟨c.durable, []⟩ e).Leaves blockAlignment d) : d = c.durable ∨ b = true ∧ d = c.durable.apply e := by
  rcases hd.single fun a ha => h.block hlen hoff ha with rfl | rfl
  · exact .inl rfl
  · cases b with
    | true => exact .inr ⟨rfl, rfl⟩
    | false => exact .inl (h.lost hlen)

/-- Wherever the superblock writes stop. -/
theorem SuperblockTrace.leaves {tr : List Disk.Event} {d0 : Disk} (htr : SuperblockTrace s.flushedSuperblock.bytes (.sync :: tr))
    (hst : Staging s E sb d0) (hl : Laid s) (htxn : s.superblock.txnId < s.superblock.txnId + 1)
    (hd : (Cached.run ⟨d0, []⟩ tr).Leaves blockAlignment d) : d = d0 ∨ Switched s d := by
  have hlen := Superblock.length_bytes s.flushedSuperblock
  have hs0 : (0 : Nat) % blockAlignment = 0 := by decide
  have hs1 : superblockSize % blockAlignment = 0 := by decide
  cases htr with
  | synced => exact .inl (hd.eq_of_synced rfl)
  | primary h =>
    rcases h.leaves hlen hs0 (c := ⟨d0, []⟩) hd with rfl | ⟨rfl, rfl⟩
    · exact .inl rfl
    · exact .inr (hst.switch hl htxn h)
  | primarySynced h =>
    rw [Cached.run_cons, Cached.run_cons, Cached.apply_synced] at hd
    rw [hd.eq_of_synced rfl]
    exact .inr (hst.switch hl htxn h)
  | @backup e e' b h h' =>
    have hsw := hst.switch hl htxn h
    rw [Cached.run_cons, Cached.run_cons, Cached.apply_synced] at hd
    rcases h'.leaves hlen hs1 (c := ⟨d0.apply e, []⟩) hd with rfl | ⟨rfl, rfl⟩
    · exact .inr hsw
    · exact .inr (hsw.backup hl hst.within h')
  | done h h' =>
    rw [Cached.run_cons, Cached.run_cons, Cached.apply_synced, Cached.run_cons, Cached.run_cons, Cached.apply_synced] at hd
    rw [hd.eq_of_synced rfl]
    exact .inr ((hst.switch hl htxn h).backup hl hst.within h')

omit [Crates] in
theorem SuperblockTrace.take {img : Bytes} {tr : List Disk.Event} (h : SuperblockTrace img tr) (n : Nat) :
    SuperblockTrace img (tr.take n) := by
  cases h with
  | start => rw [List.take_nil]; exact .start
  | synced =>
    match n with
    | 0 => exact .start
    | _ + 1 => simpa using .synced
  | primary h =>
    match n with
    | 0 => exact .start
    | 1 => exact .synced
    | _ + 2 => simpa using .primary h
  | primarySynced h =>
    match n with
    | 0 => exact .start
    | 1 => exact .synced
    | 2 => exact .primary h
    | _ + 3 => simpa using .primarySynced h
  | backup h h' =>
    match n with
    | 0 => exact .start
    | 1 => exact .synced
    | 2 => exact .primary h
    | 3 => exact .primarySynced h
    | _ + 4 => simpa using .backup h h'
  | done h h' =>
    match n with
    | 0 => exact .start
    | 1 => exact .synced
    | 2 => exact .primary h
    | 3 => exact .primarySynced h
    | 4 => exact .backup h h'
    | _ + 5 => simpa using .done h h'

omit [Crates] in
theorem SuperblockTrace.sync_first {img : Bytes} {tr : List Disk.Event} (h : SuperblockTrace img tr) :
    tr = [] ∨ ∃ tr', tr = .sync :: tr' := by
  cases h with
  | start => exact .inl rfl
  | _ => exact .inr ⟨_, rfl⟩

/-- A flush runs as far as it runs. -/
theorem flush_ran (g : Geometry s) : ∃ ws tr, FlushRan s ws tr (flushIndex.exec s).2.io := by
  refine Prog.wp_state (P := fun s' => ∃ ws tr, FlushRan s ws tr s'.io) (Prog.wp_mono (wp_flushIndex g) ?_ ?_)
  · rintro _ s' ⟨ws, tr, io', n, hran, -, rfl⟩
    exact ⟨ws, tr, hran⟩
  · rintro _ s' ⟨ws, tr, io', sb, hran, rfl, -⟩
    exact ⟨ws, tr, hran⟩

/-- What a flush relies on: what a crash may leave when it begins. -/
structure FlushReady (c : Cached) (s : Store) (E : Epoch) : Prop where
  laid : Laid s
  device : c.device = s.io.dev
  txn : s.superblock.txnId < s.superblock.txnId + 1
  leaves : ∀ d, c.Leaves blockAlignment d → ∃ sb, Before s E sb d
  clean : ∀ i, s.shardDirty i = false → (E.index.shardData i).Same (s.shardData i)
  within : E.Within s.dataEnd
  own : (Epoch.of s).Within s.dataEnd

variable {c : Cached} {ws tr : List Disk.Event} {io' : DeviceIo}

/-- Shard writes leave the epoch of before where it is. -/
theorem FlushReady.shards (h : FlushReady c s E) (hws : ∀ e ∈ ws, ShardWrite s e) (hd : (c.run ws).Leaves blockAlignment d) :
    ∃ sb, Before s E sb d := by
  obtain ⟨d', hd', hsame⟩ := hd.of_run
  obtain ⟨sb, hb⟩ := h.leaves d' hd'
  exact ⟨sb, hb.congr h.laid.geometry h.within fun a ha => hsame a fun e he => ha e (hws e he)⟩

/-- The device when the shards are synced. -/
theorem FlushReady.staging (h : FlushReady c s E) (hran : FlushRan s ws tr io') (hne : tr ≠ []) :
    ∃ sb, Staging s E sb (s.io.dev.replay ws) := by
  have hleft : (c.run ws).Leaves blockAlignment (s.io.dev.replay ws) := by
    have := Cached.leaves_device blockAlignment (c.run ws)
    rwa [Cached.device_run, h.device] at this
  obtain ⟨sb, hb⟩ := h.shards hran.shards hleft
  refine ⟨sb, hb, hran.written hne, h.clean, h.own, fun k info hk => ?_⟩
  refine Disk.read_congr fun a h1 h2 => Disk.replay_frame fun e he => ?_
  exact (hran.shards e he).misses_data h.laid.geometry a (Nat.zero_le a) (Nat.lt_of_lt_of_le h2 (h.own k info trivial hk).2)

/-- A flush that is cut short at any of its events leaves the epoch of before or its own. -/
theorem FlushRan.leaves (hran : FlushRan s ws tr io') (h : FlushReady c s E) (n : Nat)
    (hd : (c.run ((ws ++ tr).take n)).Leaves blockAlignment d) : (∃ sb, Before s E sb d) ∨ Switched s d := by
  rw [List.take_append, Cached.run_append] at hd
  rcases (hran.trace.take (n - ws.length)).sync_first with hnil | ⟨rest, hcons⟩
  · rw [hnil, Cached.run_nil] at hd
    exact .inl (h.shards (fun e he => hran.shards e (List.mem_of_mem_take he)) hd)
  · -- Something of the trace has run, so all of the shards have.
    have hpos : ws.length < n := by
      by_contra hle
      rw [Nat.sub_eq_zero_of_le (Nat.le_of_not_lt hle)] at hcons
      cases hcons
    have htr : tr ≠ [] := by
      rintro rfl
      rw [List.take_nil] at hcons
      cases hcons
    obtain ⟨sb, hst⟩ := h.staging hran htr
    rw [hcons, Cached.run_cons, List.take_of_length_le (Nat.le_of_lt hpos), Cached.run_sync, h.device] at hd
    have htrace := hran.trace.take (n - ws.length)
    rw [hcons] at htrace
    rcases htrace.leaves hst h.laid h.txn hd with rfl | hsw
    · exact .inl ⟨sb, hst.before⟩
    · exact .inr hsw

/-- A flush that returned leaves its own epoch. -/
theorem FlushRan.leaves_done (hran : FlushRan s ws tr io') (h : FlushReady c s E) (hlen : tr.length = 5)
    (hd : (c.run (ws ++ tr)).Leaves blockAlignment d) : Switched s d := by
  have hne : tr ≠ [] := by
    rintro rfl
    cases hlen
  obtain ⟨sb, hst⟩ := h.staging hran hne
  have htrace := hran.trace
  cases htrace with
  | @done e e' h1 h2 =>
    rw [Cached.run_append, Cached.run_cons, Cached.run_sync, h.device, Cached.run_cons, Cached.run_cons, Cached.apply_synced,
      Cached.run_cons, Cached.run_cons, Cached.apply_synced] at hd
    rw [hd.eq_of_synced rfl]
    exact (hst.switch h.laid h.txn h1).backup h.laid hst.within h2
  | _ => cases hlen

end Epochs

end ObjStr.Raw
