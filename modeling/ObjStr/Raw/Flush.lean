/-
  ObjStr.Raw.Flush — what `flush_index` does to the device and to the store.

  `Laid` is what a format fixes about a store and nothing changes: the layout of the device,
  and a superblock that describes it. The slots of the index are apart from each other, from
  the superblocks and from the data area.

  A flush writes shards (`ShardWrite`: only the other slot of a dirty shard), and then the two
  superblocks with a sync around each (`SuperblockTrace`). Where it stops is where its log
  ends (`wp_flushIndex`).
-/

import ObjStr.Raw.Invariants
import ObjStr.Raw.Load

namespace ObjStr.Raw

open ObjStr.Lib DeviceIo

/-! ## Layout -/

def Store.layout (s : Store) : Layout := ⟨s.indexSlotCapacity, s.indexRegionA, s.indexRegionB, s.shardSlotSize⟩

/-- The superblock is one of this store: what does not change in it fits the store and its device. -/
structure Describes (sb : Superblock) (s : Store) : Prop where
  layout : layoutOf s.io.dev.size sb = .ok s.layout
  magic : sb.magic = superblockMagic
  version : sb.version = 4
  blockAlignment : sb.blockAlignment ≠ 0
  maxKeyLength : sb.maxKeyLength ≠ 0
  compression : Compression.fromU8 sb.compression = .ok s.compression
  flags : sb.flags = if s.io.direct then flagDirectIo else 0

/-- A store that is described so may be opened to write. -/
theorem Describes.unprotected {sb : Superblock} {s : Store} (h : Describes sb s) : sb.flags &&& flagWriteProtect = 0 := by
  rw [h.flags]
  cases s.io.direct <;> decide

structure Laid (s : Store) : Prop where
  superblock : Describes s.superblock s
  capacity : s.indexSlotCapacity % indexRegionSize = 0
  room : indexRegionSize ≤ s.indexSlotCapacity
  slotFits : s.shardSlotSize < 2 ^ 32
  sizeFits : s.io.dev.size ≤ u64Max
  wholeBlocks : s.io.direct = true → s.io.dev.size % Raw.blockAlignment = 0
  writable : s.io.readOnly = false
  readOnly : s.readOnly = false

/-- The regions of the index, in order. -/
structure Geometry (s : Store) : Prop where
  data : dataStart + blockAlignment ≤ s.indexRegionA
  regionB : s.indexRegionB = s.indexRegionA + numShards * s.shardSlotSize
  size : s.io.dev.size = s.indexRegionB + numShards * s.shardSlotSize
  aligned : s.shardSlotSize % blockAlignment = 0
  pos : 0 < s.shardSlotSize

/-- The layout that a superblock gives for a device has its regions in order. -/
theorem geometry_of_layout {s : Store} {sb : Superblock} (hl : layoutOf s.io.dev.size sb = .ok s.layout)
    (hcap : s.indexSlotCapacity % indexRegionSize = 0) (hroom : indexRegionSize ≤ s.indexSlotCapacity) : Geometry s := by
  unfold layoutOf Store.layout at hl
  generalize (if 0 < sb.indexSlotCapacity then sb.indexSlotCapacity.toNat else indexRegionSize) = cap at hl
  dsimp only at hl
  split at hl
  · exact absurd hl (by simp)
  · next hmin =>
    obtain ⟨h1, h2, h3, h4⟩ := Layout.mk.inj (Except.ok.inj hl)
    rw [← h1] at hcap hroom
    have e1 : indexRegionSize = 16777216 := by decide
    have e2 : numShards = 256 := rfl
    have e3 : dataStart = 8192 := by decide
    have e4 : superblockRegion = 8192 := by decide
    have e5 : blockAlignment = 4096 := rfl
    unfold minDeviceSize at hmin
    rw [e1] at hcap hroom
    rw [e4, e5] at hmin
    rw [e2] at h4
    refine ⟨?_, ?_, ?_, ?_, ?_⟩
    · rw [e3, e5, ← h2]; omega
    · rw [← h2, ← h3, ← h4, e2]; omega
    · rw [← h3, ← h4, e2]; omega
    · rw [← h4, e5]; omega
    · rw [← h4]; omega

theorem Laid.geometry {s : Store} (h : Laid s) : Geometry s := geometry_of_layout h.superblock.layout h.capacity h.room

def Store.slotSpan (s : Store) (slot : UInt8) (shard : Fin numShards) : Span := (s.slotOffset slot shard, s.shardSlotSize)

theorem Geometry.slot_bounds {s : Store} (g : Geometry s) (slot : UInt8) (i : Fin numShards) :
    s.indexRegionA ≤ s.slotOffset slot i ∧ s.slotOffset slot i + s.shardSlotSize ≤ s.io.dev.size := by
  have hi := Nat.mul_le_mul_right s.shardSlotSize (Nat.succ_le_of_lt i.isLt)
  rw [Nat.succ_mul] at hi
  have h1 := g.regionB
  have h2 := g.size
  unfold Store.slotOffset Raw.slotOffset
  split <;> omega

/-- Different slots do not overlap. -/
theorem Geometry.slots_apart {s : Store} (g : Geometry s) {a b : UInt8} {i j : Fin numShards}
    (h : (a = 0 ↔ b = 0) → i ≠ j) : Span.Apart (s.slotSpan a i) (s.slotSpan b j) := by
  have hi := Nat.mul_le_mul_right s.shardSlotSize (Nat.succ_le_of_lt i.isLt)
  have hj := Nat.mul_le_mul_right s.shardSlotSize (Nat.succ_le_of_lt j.isLt)
  rw [Nat.succ_mul] at hi hj
  have h1 := g.regionB
  have hij : i ≠ j → i.val * s.shardSlotSize + s.shardSlotSize ≤ j.val * s.shardSlotSize ∨
      j.val * s.shardSlotSize + s.shardSlotSize ≤ i.val * s.shardSlotSize := by
    intro hne
    rcases Nat.lt_or_gt_of_ne (fun he => hne (Fin.ext he)) with hlt | hgt
    · have := Nat.mul_le_mul_right s.shardSlotSize (Nat.succ_le_of_lt hlt)
      rw [Nat.succ_mul] at this
      exact Or.inl this
    · have := Nat.mul_le_mul_right s.shardSlotSize (Nat.succ_le_of_lt hgt)
      rw [Nat.succ_mul] at this
      exact Or.inr this
  unfold Span.Apart Store.slotSpan Store.slotOffset Raw.slotOffset
  by_cases ha : a = 0
  · by_cases hb : b = 0
    · have := hij (h (by simp [ha, hb]))
      simp only [ha, hb, if_true]
      omega
    · simp only [ha, hb, if_true, if_false]
      omega
  · by_cases hb : b = 0
    · simp only [ha, hb, if_true, if_false]
      omega
    · have := hij (h (by simp [ha, hb]))
      simp only [ha, hb, if_false]
      omega

/-! ## Shards -/

variable [Crates]

def Store.blob (s : Store) (i : Fin numShards) : Bytes := (s.shardData i).toBytes.1

def Store.newSlot (s : Store) (i : Fin numShards) : ShardSlotMeta :=
  ⟨1 - (s.superblock.shardSlots i).activeSlot, UInt32.ofNat (s.blob i).length, (s.shardData i).toBytes.2⟩

/-- A write into the other slot of a dirty shard. -/
def ShardWrite (s : Store) (e : Disk.Event) : Prop :=
  ∃ i, s.shardDirty i = true ∧ (∃ off data landed, e = .write off data landed) ∧
    Inside (s.slotSpan (s.newSlot i).activeSlot i) e

/-- The shard is in its new slot. -/
def Written (s : Store) (d : Disk) (i : Fin numShards) : Prop :=
  (s.blob i).length ≤ s.shardSlotSize ∧ d.read (s.slotOffset (s.newSlot i).activeSlot i) (s.blob i).length = s.blob i

def Store.slotsAfter (s : Store) (done : List (Fin numShards)) (i : Fin numShards) : ShardSlotMeta :=
  if i ∈ done ∧ s.shardDirty i = true then s.newSlot i else s.superblock.shardSlots i

/-- The store `s` after its shards `done` have been written. -/
structure Staged (s : Store) (done : List (Fin numShards)) (s' : Store) : Prop where
  eq : s' = { s with io := s'.io, superblock := s.superblock.withSlots (s.slotsAfter done) }
  wrote : Wrote (ShardWrite s) s.io s'.io
  written : ∀ i ∈ done, s.shardDirty i = true → Written s s'.io.dev i

omit [Crates] in
theorem alignLen_le {n m : Nat} (h : n ≤ m) (hm : m % blockAlignment = 0) : alignLen n ≤ m := by
  unfold alignLen alignUp blockAlignment at *
  omega

omit [Crates] in
/-- A write that starts a slot and fits it stays in it. -/
theorem inside_slot {s : Store} (g : Geometry s) {slot : UInt8} {i : Fin numShards} {io : DeviceIo} {data : Bytes}
    {landed : Nat → Bool} (h : data.length ≤ s.shardSlotSize) :
    Inside (s.slotSpan slot i) (.write (s.slotOffset slot i) (io.padded data) landed) := by
  have h1 := (length_padded io data).2
  have h2 : alignLen data.length ≤ s.shardSlotSize := alignLen_le h g.aligned
  simp only [Inside, Store.slotSpan]
  omega

theorem slotsAfter_append {s : Store} {done : List (Fin numShards)} {i : Fin numShards} (h : s.shardDirty i = true) :
    s.slotsAfter (done ++ [i]) = Function.update (s.slotsAfter done) i (s.newSlot i) := by
  funext j
  by_cases hj : j = i
  · subst hj
    simp [Store.slotsAfter, h]
  · simp [Store.slotsAfter, hj]

theorem slotsAfter_append_clean {s : Store} {done : List (Fin numShards)} {i : Fin numShards} (h : s.shardDirty i = false) :
    s.slotsAfter (done ++ [i]) = s.slotsAfter done := by
  funext j
  by_cases hj : j = i
  · subst hj
    simp [Store.slotsAfter, h]
  · simp [Store.slotsAfter, hj]

/-- Writing one shard leaves the shards already written. -/
theorem Written.other {s : Store} (g : Geometry s) {io io' : DeviceIo} {i j : Fin numShards} (h : Written s io.dev j)
    (hij : i ≠ j) (hw : Wrote (Inside (s.slotSpan (s.newSlot i).activeSlot i)) io io') : Written s io'.dev j := by
  refine ⟨h.1, ?_⟩
  have hap := g.slots_apart (a := (s.newSlot i).activeSlot) (b := (s.newSlot j).activeSlot) (i := i) (j := j) fun _ => hij
  rw [hw.read_eq, h.2]
  intro e a he h1 h2 hr
  have hin := Inside.reaches he hr
  have hlen := h.1
  refine Span.Apart.not_both hap hin ?_
  unfold Span.Has Store.slotSpan
  dsimp only
  omega

theorem wp_flushShard {s s1 : Store} (g : Geometry s) {done : List (Fin numShards)} {i : Fin numShards} {n : Nat}
    (hst : Staged s done s1) (hnew : i ∉ done) :
    Prog.wp (flushShard n i) (fun _ s' => Staged s (done ++ [i]) s')
      (fun _ s' => ∃ done', Staged s done' s') s1 := by
  have hdirty : s1.shardDirty = s.shardDirty := by rw [hst.eq]
  have hslot : s1.superblock.shardSlots i = s.superblock.shardSlots i := by
    rw [hst.eq]
    simp [Superblock.withSlots, Store.slotsAfter, hnew]
  have hdata : s1.shardData i = s.shardData i := by rw [hst.eq]; rfl
  have hoff : ∀ slot, s1.slotOffset slot i = s.slotOffset slot i := by intro slot; rw [hst.eq]; rfl
  have hsize : s1.shardSlotSize = s.shardSlotSize := by rw [hst.eq]
  unfold flushShard
  rw [Prog.wp_bind, Prog.wp_get, hdirty]
  split
  · next hclean =>
    rw [Prog.wp_pure]
    refine ⟨?_, hst.wrote, ?_⟩
    · rw [slotsAfter_append_clean hclean]
      exact hst.eq
    · intro j hj hdj
      rcases List.mem_append.mp hj with hj | hj
      · exact hst.written j hj hdj
      · rw [List.mem_singleton.mp hj, hclean] at hdj
        exact absurd hdj (by simp)
  · next hd =>
    have hd : s.shardDirty i = true := by simpa using hd
    rw [Prog.wp_bind, Prog.wp_failIf]
    refine ⟨fun _ => ⟨done, hst⟩, fun hfit => ?_⟩
    rw [hdata, hsize] at hfit
    have hfit : (s.blob i).length ≤ s.shardSlotSize := Nat.le_of_not_lt hfit
    rw [Prog.wp_bind, wp_onDevice, hslot, hoff, hdata]
    refine Prog.wp_mono (wp_pwrite (s.slotOffset (s.newSlot i).activeSlot i) (s.blob i)) ?_ ?_
    · rintro _ io' ⟨-, hdone⟩
      rw [Prog.wp_bind, Prog.wp_modify, Prog.wp_pure]
      have hback := hdone.wrote.2
      obtain ⟨io1, ha, rfl⟩ := hdone
      have hin := @inside_slot s g (s.newSlot i).activeSlot i s1.io (s.blob i) (fun _ => true) hfit
      refine ⟨?_, hst.wrote.trans (ha.wrote_push ⟨i, hd, ⟨_, _, _, rfl⟩, hin⟩), ?_⟩
      · rw [slotsAfter_append hd]
        unfold Store.setSlot Store.withIo
        rw [hst.eq]
        rfl
      · intro j hj hdj
        rcases List.mem_append.mp hj with hj | hj
        · exact (hst.written j hj hdj).other g (i := i) (fun he => hnew (by rw [he]; exact hj)) (ha.wrote_push hin)
        · rw [List.mem_singleton.mp hj]
          exact ⟨hfit, hback⟩
    · rintro _ io' ⟨hfail, -⟩
      obtain ⟨io1, ha, hio⟩ := hfail
      have hw : Wrote (Inside (s.slotSpan (s.newSlot i).activeSlot i)) s1.io io' := by
        rcases hio with rfl | ⟨landed, rfl⟩
        · exact ha.wrote
        · exact ha.wrote_push (inside_slot g hfit)
      have hw' : Wrote (ShardWrite s) s1.io io' := by
        rcases hio with rfl | ⟨landed, rfl⟩
        · exact ha.wrote
        · exact ha.wrote_push ⟨i, hd, ⟨_, _, _, rfl⟩, inside_slot g hfit⟩
      refine ⟨done, ?_, hst.wrote.trans hw', ?_⟩
      · unfold Store.withIo
        rw [hst.eq]
      · intro j hj hdj
        exact (hst.written j hj hdj).other g (i := i) (fun he => hnew (by rw [he]; exact hj)) hw

theorem staged_nil (s : Store) : Staged s [] s := by
  refine ⟨?_, Wrote.refl, by simp⟩
  have : s.slotsAfter [] = s.superblock.shardSlots := by funext i; simp [Store.slotsAfter]
  rw [this]
  rfl

/-- The shard writes of a flush. -/
theorem wp_flushShards {s : Store} (g : Geometry s) :
    Prog.wp ((List.finRange numShards).foldlM flushShard 0) (fun _ s' => Staged s (List.finRange numShards) s')
      (fun _ s' => ∃ done, Staged s done s') s := by
  refine Prog.wp_foldlM (fun done _ s' => Staged s done s') _ (staged_nil s) ?_
  intro pre i post n s1 hl hst
  refine wp_flushShard g hst ?_
  have hnd := List.nodup_finRange numShards
  rw [hl] at hnd
  exact fun hm => (List.nodup_append.mp hnd).2.2 i hm i (by simp) rfl

/-! ## Superblocks -/

/-- A write of a superblock; `b` says whether it reached the device. -/
def SuperblockWrite (off : Nat) (img : Bytes) (b : Bool) (e : Disk.Event) : Prop :=
  ∃ landed, e = .write off img landed ∧ ∀ a, off ≤ a → a < off + superblockSize → landed a = b

/-- The events of a flush after its shard writes, as far as it got. -/
inductive SuperblockTrace (img : Bytes) : List Disk.Event → Prop
  | start : SuperblockTrace img []
  | synced : SuperblockTrace img [.sync]
  | primary {e : Disk.Event} {b : Bool} (h : SuperblockWrite 0 img b e) : SuperblockTrace img [.sync, e]
  | primarySynced {e : Disk.Event} (h : SuperblockWrite 0 img true e) : SuperblockTrace img [.sync, e, .sync]
  | backup {e e' : Disk.Event} {b : Bool} (h : SuperblockWrite 0 img true e) (h' : SuperblockWrite superblockSize img b e') :
      SuperblockTrace img [.sync, e, .sync, e']
  | done {e e' : Disk.Event} (h : SuperblockWrite 0 img true e) (h' : SuperblockWrite superblockSize img true e') :
      SuperblockTrace img [.sync, e, .sync, e', .sync]

omit [Crates] in
theorem padded_of_block {io : DeviceIo} {data : Bytes} (h : data.length = superblockSize) : io.padded data = data := by
  unfold padded
  split
  · rw [h, show alignLen superblockSize = superblockSize by decide, Nat.sub_self, List.replicate_zero, List.append_nil]
  · rfl

omit [Crates] in
/-- A superblock is one block: a write of it lands or does not. -/
theorem wp_pwriteSuperblock {io : DeviceIo} {off : Nat} {img : Bytes} (hlen : img.length = superblockSize)
    (hoff : off % blockAlignment = 0) :
    Prog.wp (pwrite off img) (fun _ io' => ∃ e, SuperblockWrite off img true e ∧ Logged io [e] io')
      (fun _ io' => Logged io [] io' ∨ ∃ e b, SuperblockWrite off img b e ∧ Logged io [e] io') io := by
  refine Prog.wp_mono (wp_pwrite off img) ?_ ?_
  · rintro _ io' ⟨-, io1, ha, rfl⟩
    rw [padded_of_block hlen]
    exact ⟨_, ⟨_, rfl, fun _ _ _ => rfl⟩, ha.logged_push _⟩
  · rintro _ io' ⟨⟨io1, ha, rfl | ⟨landed, rfl⟩⟩, -⟩
    · exact Or.inl ha.logged
    · rw [padded_of_block hlen]
      refine Or.inr ⟨_, landed (off / blockAlignment), ⟨_, rfl, ?_⟩, ha.logged_push _⟩
      intro a h1 h2
      have : a / blockAlignment = off / blockAlignment := by
        unfold blockAlignment superblockSize at *
        omega
      rw [this]

def Superblock.bytes (sb : Superblock) : Bytes := sb.image sb.checksum

theorem Superblock.length_bytes (sb : Superblock) : sb.bytes.length = superblockSize := length_image _ _

theorem wp_writeSuperblocks {io : DeviceIo} (sb : Superblock) :
    Prog.wp (writeSuperblocks sb)
      (fun _ io' => ∃ tr, SuperblockTrace sb.bytes (.sync :: tr) ∧ tr.length = 4 ∧ Logged io tr io')
      (fun _ io' => ∃ tr, SuperblockTrace sb.bytes (.sync :: tr) ∧ Logged io tr io') io := by
  unfold writeSuperblocks
  rw [toBytes_eq, Prog.wp_bind, wp_ofExcept, ← Superblock.bytes]
  dsimp only
  rw [Prog.wp_bind]
  refine Prog.wp_mono (wp_pwriteSuperblock sb.length_bytes (by decide)) ?_ ?_
  · rintro _ io1 ⟨e, he, h1⟩
    rw [Prog.wp_bind]
    refine Prog.wp_mono wp_sync ?_ ?_
    · rintro _ io2 ⟨-, io2', ha2, rfl⟩
      have h2 := h1.trans (ha2.logged_push .sync)
      rw [Prog.wp_bind]
      refine Prog.wp_mono (wp_pwriteSuperblock sb.length_bytes (by decide)) ?_ ?_
      · rintro _ io3 ⟨e', he', h3⟩
        refine Prog.wp_mono wp_sync ?_ ?_
        · rintro _ io4 ⟨-, io4', ha4, rfl⟩
          exact ⟨_, .done he he', rfl, (h2.trans h3).trans (ha4.logged_push .sync)⟩
        · rintro _ io4 ⟨ha4, -⟩
          refine ⟨_, .backup he he', ?_⟩
          simpa using (h2.trans h3).trans ha4.logged
      · rintro _ io3 (h3 | ⟨e', b, he', h3⟩)
        · refine ⟨_, .primarySynced he, ?_⟩
          simpa using h2.trans h3
        · exact ⟨_, .backup he he', h2.trans h3⟩
    · rintro _ io2 ⟨ha2, -⟩
      refine ⟨_, .primary he, ?_⟩
      simpa using h1.trans ha2.logged
  · rintro _ io1 (h1 | ⟨e, b, he, h1⟩)
    · exact ⟨_, .synced, h1⟩
    · exact ⟨_, .primary he, h1⟩

/-! ## Flush -/

theorem wp_commitFlush {s : Store} (txn : UInt64) (bytes : Nat) :
    Prog.wp (commitFlush txn bytes)
      (fun _ s' => ∃ tr io', SuperblockTrace (s.superblock.next txn).bytes tr ∧ tr.length = 5 ∧ Logged s.io tr io' ∧
        s' = Store.markClean ((s.nextTxn txn).withIo io') bytes)
      (fun _ s' => (∃ io', Aged s.io io' ∧ s' = s.withIo io') ∨
        ∃ tr io', SuperblockTrace (s.superblock.next txn).bytes tr ∧ tr ≠ [] ∧ Logged s.io tr io' ∧
          s' = (s.nextTxn txn).withIo io') s := by
  unfold commitFlush
  rw [Prog.wp_bind, wp_onDevice]
  refine wp_sync_of ?_ (fun _ io1 ha1 => Or.inl ⟨io1, ha1, rfl⟩)
  intro io1 ha1
  have hlog1 := ha1.logged_push .sync
  rw [Prog.wp_bind, Prog.wp_modify, Prog.wp_bind, Prog.wp_get, Prog.wp_bind, wp_onDevice]
  refine Prog.wp_mono (wp_writeSuperblocks (s.superblock.next txn)) ?_ ?_
  · rintro _ io2 ⟨tr, htr, hlen, hlog2⟩
    exact ⟨.sync :: tr, io2, htr, by rw [List.length_cons, hlen], hlog1.trans hlog2, rfl⟩
  · rintro _ io2 ⟨tr, htr, hlog2⟩
    exact Or.inr ⟨.sync :: tr, io2, htr, List.cons_ne_nil _ _, hlog1.trans hlog2, rfl⟩

def Store.flushedSuperblock (s : Store) : Superblock :=
  (s.superblock.withSlots (s.slotsAfter (List.finRange numShards))).next (s.superblock.txnId + 1)

structure FlushRan (s : Store) (ws tr : List Disk.Event) (io' : DeviceIo) : Prop where
  logged : Logged s.io (ws ++ tr) io'
  shards : ∀ e ∈ ws, ShardWrite s e
  trace : SuperblockTrace s.flushedSuperblock.bytes tr
  written : tr ≠ [] → ∀ i, s.shardDirty i = true → Written s (s.io.dev.replay ws) i

def Store.flushed (s : Store) (io : DeviceIo) (bytes : Nat) : Store :=
  { s with io := io, superblock := s.flushedSuperblock, shardDirty := fun _ => false, dirty := false,
           lastFlushBytes := bytes }

def FlushFailed (s : Store) (s' : Store) : Prop :=
  ∃ ws tr io' sb, FlushRan s ws tr io' ∧ s' = { s with io := io', superblock := sb } ∧
    (tr = [] ∧ (∃ done, sb = s.superblock.withSlots (s.slotsAfter done)) ∨ tr ≠ [] ∧ sb = s.flushedSuperblock)

theorem Staged.failed {s s' : Store} {done : List (Fin numShards)} (h : Staged s done s') : FlushFailed s s' := by
  obtain ⟨ws, hlog, hws⟩ := h.wrote.logged
  exact ⟨ws, [], s'.io, _, ⟨by simpa using hlog, hws, .start, by simp⟩, h.eq, Or.inl ⟨rfl, done, rfl⟩⟩

theorem Staged.aged {s s' : Store} {done : List (Fin numShards)} {io : DeviceIo} (h : Staged s done s')
    (ha : Aged s'.io io) : Staged s done (s'.withIo io) := by
  refine ⟨?_, h.wrote.trans ha.wrote, ?_⟩
  · unfold Store.withIo
    rw [h.eq]
  · intro i hi hd
    show Written s io.dev i
    rw [ha.dev_eq]
    exact h.written i hi hd

theorem Staged.superblock {s s' : Store} (h : Staged s (List.finRange numShards) s') :
    s'.superblock.next (s.superblock.txnId + 1) = s.flushedSuperblock := by
  unfold Store.flushedSuperblock
  rw [h.eq]

theorem Staged.next {s s' : Store} (h : Staged s (List.finRange numShards) s') (io : DeviceIo) :
    (s'.nextTxn (s.superblock.txnId + 1)).withIo io = { s with io := io, superblock := s.flushedSuperblock } := by
  rw [← h.superblock]
  unfold Store.nextTxn Store.withIo
  rw [h.eq]

/-- What a flush writes after its shards. -/
theorem Staged.ran {s s' : Store} (h : Staged s (List.finRange numShards) s') {tr : List Disk.Event} {io : DeviceIo}
    (htr : SuperblockTrace (s'.superblock.next (s.superblock.txnId + 1)).bytes tr) (hlog : Logged s'.io tr io) :
    ∃ ws, FlushRan s ws tr io := by
  obtain ⟨ws, hl, hws⟩ := h.wrote.logged
  rw [h.superblock] at htr
  refine ⟨ws, hl.trans hlog, hws, htr, fun _ i hi => ?_⟩
  rw [← hl.dev_eq]
  exact h.written i (List.mem_finRange i) hi

theorem wp_flushIndex {s : Store} (g : Geometry s) :
    Prog.wp flushIndex (fun _ s' => ∃ ws tr io' n, FlushRan s ws tr io' ∧ tr.length = 5 ∧ s' = s.flushed io' n)
      (fun _ s' => FlushFailed s s') s := by
  unfold flushIndex
  rw [Prog.wp_bind, Prog.wp_get, Prog.wp_bind, Prog.wp_failIf]
  refine ⟨fun _ => (staged_nil s).failed, fun _ => ?_⟩
  rw [Prog.wp_bind]
  refine Prog.wp_mono (wp_flushShards g) ?_ (fun _ _ ⟨done, hst⟩ => hst.failed)
  intro n s1 hst
  refine Prog.wp_mono (wp_commitFlush _ _) ?_ ?_
  · rintro _ s' ⟨tr, io', htr, hlen, hlog, rfl⟩
    obtain ⟨ws, hran⟩ := hst.ran htr hlog
    rw [hst.next]
    exact ⟨ws, tr, io', _, hran, hlen, rfl⟩
  · rintro _ s' (⟨io', ha, rfl⟩ | ⟨tr, io', htr, hne, hlog, rfl⟩)
    · exact (hst.aged ha).failed
    · obtain ⟨ws, hran⟩ := hst.ran htr hlog
      rw [hst.next]
      exact ⟨ws, tr, io', _, hran, rfl, Or.inr ⟨hne, rfl⟩⟩

end ObjStr.Raw
