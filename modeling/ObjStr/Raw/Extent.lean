/-
  ObjStr.Raw.Extent — payloads in CRC-protected 4 KB blocks (`extent.rs`).

  A block is a CRC and 4092 bytes of payload, the last one zero-padded. Payloads are written
  in batches of 256 blocks, from one buffer (`encodeAndWriteBatched`) or from chunks
  (`StreamingBlockWriter`), and read back in batches (`readAndDecodeBatched`,
  `StreamingBlockReader`) or by range (`decodeBlockRange`).

  Proved: both writers leave the same bytes, `encodeBlocks` of the payload, and nothing
  outside them; every reader computes `decodeBlocks` of the extent's bytes; and
  `decodeBlocks` of `encodeBlocks` is the payload.
-/

import ObjStr.Lib.Wire
import ObjStr.Raw.Io

namespace ObjStr.Raw

open ObjStr.Lib

/-! ## Blocks -/

def blockCrcSize : Nat := 4
def blockDataSize : Nat := blockAlignment - blockCrcSize
/-- Blocks per device call (1 MB). -/
def batchBlocks : Nat := 256

def numBlocks (payloadSize : Nat) : Nat :=
  if payloadSize = 0 then 0 else (payloadSize + blockDataSize - 1) / blockDataSize

def paddedExtentSize (payloadSize : Nat) : Except RawStoreError Nat :=
  if numBlocks payloadSize * blockAlignment ≤ u64Max then .ok (numBlocks payloadSize * blockAlignment)
  else .error (.extentInvalid "padded_extent_size: block count overflow")

/-- The payload bytes of block `i`. -/
def blockPart (payload : Bytes) (i : Nat) : Bytes := (payload.drop (i * blockDataSize)).take blockDataSize

variable [Crates]

/-- A block: the CRC of the padded data region, then the region. -/
def encodeBlock (data : Bytes) : Bytes :=
  leBytes blockCrcSize (crc32c (padTo blockDataSize data)).toNat ++ padTo blockDataSize data

/-- The blocks `i ≤ … < j` of a payload. -/
def encodeRange (payload : Bytes) (i j : Nat) : Bytes :=
  (List.range' i (j - i)).flatMap fun k => encodeBlock (blockPart payload k)

def encodeBlocks (payload : Bytes) : Bytes := encodeRange payload 0 (numBlocks payload.length)

def verifyBlockCrc (block : Bytes) (label : Nat) : Except RawStoreError Bytes :=
  let storedCrc := UInt32.ofNat (leNat (block.take blockCrcSize))
  let data := block.drop blockCrcSize
  let actualCrc := crc32c data
  if storedCrc = actualCrc then .ok data else .error (.dataCorruption ("block " ++ toString label) storedCrc actualCrc)

/-- Block `i` of a raw buffer. -/
def rawBlock (raw : Bytes) (i : Nat) : Bytes := (raw.drop (i * blockAlignment)).take blockAlignment

/-- One round of the decoding loops: check block `i` of `raw` and take what the content still lacks. -/
def decodeStep (raw : Bytes) (firstBlock expectedLen : Nat) (content : Bytes) (i : Nat) : Except RawStoreError Bytes := do
  let data ← verifyBlockCrc (rawBlock raw i) (firstBlock + i)
  pure (content ++ data.take (min (expectedLen - content.length) blockDataSize))

def decodeBlocks (raw : Bytes) (expectedContentLen : Nat) : Except RawStoreError Bytes :=
  (List.range (raw.length / blockAlignment)).foldlM (decodeStep raw 0 expectedContentLen) []

/-- Decode blocks from `firstBlockIdx` on and extract the content bytes of `[start, stop)`. -/
def decodeBlockRange (raw : Bytes) (firstBlockIdx start stop : Nat) : Except RawStoreError Bytes :=
  (List.range (raw.length / blockAlignment)).foldlM (fun result i => do
    let data ← verifyBlockCrc (rawBlock raw i) (firstBlockIdx + i)
    let blockContentStart := (firstBlockIdx + i) * blockDataSize
    let blockContentEnd := blockContentStart + blockDataSize
    let overlapStart := max start blockContentStart
    let overlapEnd := min stop blockContentEnd
    if overlapStart < overlapEnd then
      pure (result ++ (data.drop (overlapStart - blockContentStart)).take (overlapEnd - overlapStart))
    else pure result) []

/-! ## Writers -/

/-- The number of rounds of the loop `block_idx = 0, 256, …`. -/
def batchCount (n : Nat) : Nat := (n + batchBlocks - 1) / batchBlocks

/-- `batch_end` of the round that starts at `block_idx`. -/
def batchEnd (blockIdx n : Nat) : Nat := min (blockIdx + batchBlocks) n

def encodeAndWriteBatched (extentOffset : Nat) (payload : Bytes) : IoM Unit :=
  let n := numBlocks payload.length
  (List.range (batchCount n)).forM fun b =>
    let blockIdx := b * batchBlocks
    DeviceIo.pwrite (extentOffset + blockIdx * blockAlignment) (encodeRange payload blockIdx (batchEnd blockIdx n))

structure StreamingBlockWriter where
  extentOffset : Nat
  /-- Encoded blocks waiting to be written. -/
  batch : Bytes
  blocksInBatch : Nat
  /-- Payload bytes of the block being filled. -/
  part : Bytes
  blocksWritten : Nat

namespace StreamingBlockWriter

def new (extentOffset : Nat) : StreamingBlockWriter := ⟨extentOffset, [], 0, [], 0⟩

def flushBatch (w : StreamingBlockWriter) : IoM StreamingBlockWriter := do
  DeviceIo.pwrite (w.extentOffset + w.blocksWritten * blockAlignment) w.batch
  pure { w with blocksWritten := w.blocksWritten + w.blocksInBatch, batch := [], blocksInBatch := 0 }

def sealBlock (w : StreamingBlockWriter) : IoM StreamingBlockWriter :=
  let w : StreamingBlockWriter := { w with
    batch := w.batch ++ leBytes blockCrcSize (crc32c w.part).toNat ++ w.part, part := [], blocksInBatch := w.blocksInBatch + 1 }
  if w.blocksInBatch = batchBlocks then w.flushBatch else pure w

def sealIfFull (w : StreamingBlockWriter) : IoM StreamingBlockWriter :=
  if w.part.length = blockDataSize then w.sealBlock else pure w

/-- The loop of `write_chunk`; each round takes at least one byte. -/
def writeLoop : Nat → StreamingBlockWriter → Bytes → IoM StreamingBlockWriter
  | 0, w, _ => pure w
  | fuel + 1, w, data =>
    if data = [] then pure w
    else do
      let space := blockDataSize - w.part.length
      let w ← sealIfFull { w with part := w.part ++ data.take (min data.length space) }
      writeLoop fuel w (data.drop (min data.length space))

def writeChunk (w : StreamingBlockWriter) (data : Bytes) : IoM StreamingBlockWriter := writeLoop data.length w data

def sealLast (w : StreamingBlockWriter) : IoM StreamingBlockWriter :=
  if w.part ≠ [] then sealBlock { w with part := padTo blockDataSize w.part } else pure w

/-- Write what is left: the last block, then the batch. -/
def finish (w : StreamingBlockWriter) : IoM StreamingBlockWriter := do
  let w ← w.sealLast
  if 0 < w.blocksInBatch then w.flushBatch else pure w

end StreamingBlockWriter

/-! ## Readers -/

def ofExcept {σ α : Type} (r : Except RawStoreError α) : Prog σ RawStoreError α := fun s => (r, s)

omit [Crates] in
theorem wp_ofExcept {σ α : Type} {r : Except RawStoreError α} {Q : α → σ → Prop} {E : RawStoreError → σ → Prop} {s : σ} :
    Prog.wp (ofExcept r) Q E s ↔ match r with | .ok a => Q a s | .error e => E e s := by
  cases r <;> rfl

def readAndDecodeBatched (extentOffset payloadSize : Nat) : IoM Bytes :=
  let n := numBlocks payloadSize
  (List.range (batchCount n)).foldlM (fun payload b => do
    let blockIdx := b * batchBlocks
    let count := batchEnd blockIdx n - blockIdx
    let raw ← DeviceIo.pread (extentOffset + blockIdx * blockAlignment) (count * blockAlignment)
    ofExcept ((List.range count).foldlM (decodeStep raw blockIdx payloadSize) payload)) []

structure StreamingBlockReader where
  extentOffset : Nat
  totalBlocks : Nat
  payloadLen : Nat
  /-- Next block to read. -/
  blockIdx : Nat
  payloadConsumed : Nat

namespace StreamingBlockReader

def new (extentOffset payloadSize : Nat) : StreamingBlockReader := ⟨extentOffset, numBlocks payloadSize, payloadSize, 0, 0⟩

def nextChunk (r : StreamingBlockReader) : IoM (Option Bytes × StreamingBlockReader) :=
  if r.totalBlocks ≤ r.blockIdx then pure (none, r)
  else do
    let stop := batchEnd r.blockIdx r.totalBlocks
    let count := stop - r.blockIdx
    let raw ← DeviceIo.pread (r.extentOffset + r.blockIdx * blockAlignment) (count * blockAlignment)
    let chunk ← ofExcept ((List.range count).foldlM (decodeStep raw r.blockIdx (r.payloadLen - r.payloadConsumed)) [])
    pure (some chunk, { r with blockIdx := stop, payloadConsumed := r.payloadConsumed + chunk.length })

end StreamingBlockReader

/-! ## Encoding -/

omit [Crates] in
theorem length_blockPart_le (payload : Bytes) (i : Nat) : (blockPart payload i).length ≤ blockDataSize := by
  simp [blockPart]

theorem length_encodeBlock {data : Bytes} (h : data.length ≤ blockDataSize) : (encodeBlock data).length = blockAlignment := by
  simp only [encodeBlock, List.length_append, length_leBytes, length_padTo h]
  rfl

@[simp] theorem length_encodeRange (payload : Bytes) (i j : Nat) :
    (encodeRange payload i j).length = (j - i) * blockAlignment := by
  unfold encodeRange
  rw [List.length_flatMap, List.map_congr_left (fun k _ => length_encodeBlock (length_blockPart_le payload k)),
    List.map_const', List.length_range', List.sum_replicate_nat]

@[simp] theorem length_encodeBlocks (payload : Bytes) :
    (encodeBlocks payload).length = numBlocks payload.length * blockAlignment := by simp [encodeBlocks]

theorem encodeRange_append (payload : Bytes) {i j k : Nat} (h1 : i ≤ j) (h2 : j ≤ k) :
    encodeRange payload i j ++ encodeRange payload j k = encodeRange payload i k := by
  obtain ⟨m, rfl⟩ := Nat.exists_eq_add_of_le h1
  obtain ⟨l, rfl⟩ := Nat.exists_eq_add_of_le h2
  unfold encodeRange
  rw [← List.flatMap_append, Nat.add_sub_cancel_left, Nat.add_sub_cancel_left, List.range'_append_1, Nat.add_assoc,
    Nat.add_sub_cancel_left]

@[simp] theorem encodeRange_self (payload : Bytes) (i : Nat) : encodeRange payload i i = [] := by simp [encodeRange]

theorem encodeRange_succ (payload : Bytes) {i j : Nat} (h : i ≤ j) :
    encodeRange payload i (j + 1) = encodeRange payload i j ++ encodeBlock (blockPart payload j) := by
  rw [← encodeRange_append payload h (Nat.le_succ j)]
  simp [encodeRange]

/-- Full blocks do not change when the payload grows. -/
theorem encodeRange_grow (p q : Bytes) {i j : Nat} (h : j * blockDataSize ≤ p.length) :
    encodeRange (p ++ q) i j = encodeRange p i j := by
  unfold encodeRange
  apply List.flatMap_congr
  intro k hk
  have hk := List.mem_range'_1.mp hk
  have h2 : (k + 1) * blockDataSize ≤ p.length := Nat.le_trans (Nat.mul_le_mul_right _ (by omega)) h
  have h3 : (k + 1) * blockDataSize = k * blockDataSize + blockDataSize := Nat.succ_mul _ _
  congr 1
  unfold blockPart
  rw [List.drop_append_of_le_length (by omega), List.take_append_of_le_length (by simp; omega)]

/-! ## Writing -/

open DeviceIo

def extentSpan (off n : Nat) : Span := (off, n * blockAlignment)

omit [Crates] in
theorem alignLen_mul (n : Nat) : alignLen (n * blockAlignment) = n * blockAlignment := by
  unfold alignLen alignUp blockAlignment
  omega

omit [Crates] in
theorem DeviceIo.Calm.batch {io : DeviceIo} {off n k m : Nat} (h : Calm io off (n * blockAlignment)) (hle : k + m ≤ n) :
    Calm io (off + k * blockAlignment) (m * blockAlignment) := by
  have h1 := Nat.mul_le_mul_right blockAlignment hle
  obtain ⟨h2, h3, h4⟩ := h
  have hext : ∀ j, io.extent (j * blockAlignment) = j * blockAlignment := fun j => by
    unfold extent
    split
    · exact alignLen_mul j
    · rfl
  rw [hext] at h4
  refine ⟨h2, fun hd => ?_, ?_⟩
  · have := h3 hd
    unfold blockAlignment at *
    omega
  · rw [hext]
    rw [Nat.add_mul] at h1
    omega

structure DeviceIo.Ready (io : DeviceIo) (off n : Nat) : Prop where
  calm : Calm io off (n * blockAlignment)
  writable : io.readOnly = false

omit [Crates] in
theorem DeviceIo.Ready.of_wrote {P : Disk.Event → Prop} {io io' : DeviceIo} {off n : Nat} (h : Ready io off n)
    (hw : Wrote P io io') (hs : io.script = [] → io'.script = []) : Ready io' off n := by
  obtain ⟨⟨h1, h2, h3⟩, h4⟩ := h
  refine ⟨⟨hs h1, fun hd => h2 (by rw [← hw.direct_eq]; exact hd), ?_⟩, by rw [hw.readOnly_eq]; exact h4⟩
  unfold extent at h3 ⊢
  rw [hw.direct_eq, hw.size_eq]
  exact h3

omit [Crates] in
/-- A batch at its place in the extent: written whole, or not finished because a call failed. -/
theorem wp_pwrite_blocks {io : DeviceIo} {off k m n : Nat} {data : Bytes} (hlen : data.length = m * blockAlignment)
    (hle : k + m ≤ n) (hm : 0 < m) :
    Prog.wp (pwrite (off + k * blockAlignment) data)
      (fun _ io' => Wrote (Inside (extentSpan off n)) io io' ∧
        Wrote (Inside (off + k * blockAlignment, m * blockAlignment)) io io' ∧
        io'.dev.read (off + k * blockAlignment) (m * blockAlignment) = data ∧ (io.script = [] → io'.script = []))
      (fun _ io' => Wrote (Inside (extentSpan off n)) io io' ∧ ¬ Ready io off n) io := by
  have hspan : ∀ e, Inside (off + k * blockAlignment, alignLen data.length) e → Inside (extentSpan off n) e := by
    intro e he
    cases e with
    | sync => trivial
    | write o d l =>
      have := Nat.mul_le_mul_right blockAlignment hle
      simp only [Inside, extentSpan, hlen, alignLen_mul, Nat.add_mul] at *
      omega
  refine Prog.wp_mono (wp_pwrite _ _) ?_ ?_
  · rintro _ io' ⟨-, h⟩
    obtain ⟨h1, h2⟩ := h.wrote
    refine ⟨h1.mono hspan, ?_, by rw [← hlen]; exact h2, ?_⟩
    · rwa [hlen, alignLen_mul] at h1
    · obtain ⟨io1, ha, rfl⟩ := h
      exact ha.script_nil
  · rintro _ io' ⟨h, hcalm⟩
    refine ⟨h.wrote.mono hspan, fun hr => hcalm ⟨?_, hr.writable, ?_⟩⟩
    · rw [hlen]
      exact hr.calm.batch hle
    · intro hnil
      have hz := congrArg List.length hnil
      have hpos : 0 < m * blockAlignment := Nat.mul_pos hm (by decide)
      rw [hlen, List.length_nil] at hz
      omega

omit [Crates] in
/-- A batch does not touch the blocks before it. -/
theorem read_before_batch {io io' : DeviceIo} {off k m : Nat}
    (h : Wrote (Inside (off + k * blockAlignment, m * blockAlignment)) io io') :
    io'.dev.read off (k * blockAlignment) = io.dev.read off (k * blockAlignment) := by
  apply h.read_eq
  intro e a he h1 h2 hr
  have := Inside.reaches he hr
  simp only [Span.Has] at this
  omega

theorem wp_encodeAndWriteBatched (io : DeviceIo) (off : Nat) (payload : Bytes) :
    Prog.wp (encodeAndWriteBatched off payload)
      (fun _ io' => Wrote (Inside (extentSpan off (numBlocks payload.length))) io io' ∧
        io'.dev.read off (numBlocks payload.length * blockAlignment) = encodeBlocks payload ∧
        (io.script = [] → io'.script = []))
      (fun _ io' => Wrote (Inside (extentSpan off (numBlocks payload.length))) io io' ∧
        ¬ Ready io off (numBlocks payload.length)) io := by
  unfold encodeAndWriteBatched encodeBlocks
  generalize numBlocks payload.length = n
  refine Prog.wp_forM_steps (c := batchBlocks) (by decide)
    (fun k io' => Wrote (Inside (extentSpan off n)) io io' ∧
      io'.dev.read off (k * blockAlignment) = encodeRange payload 0 k ∧ (io.script = [] → io'.script = []))
    ⟨Wrote.refl, by simp [Disk.read], id⟩ ?_
  rintro k io1 hk ⟨hw, hr, hs⟩
  have hle : k * batchBlocks ≤ batchEnd (k * batchBlocks) n := by unfold batchEnd; omega
  have hbn : batchEnd (k * batchBlocks) n ≤ n := by unfold batchEnd; omega
  have hlt : k * batchBlocks < batchEnd (k * batchBlocks) n := by unfold batchEnd batchBlocks at *; omega
  rw [show min (k * batchBlocks + batchBlocks) n = batchEnd (k * batchBlocks) n from rfl]
  dsimp only
  generalize batchEnd (k * batchBlocks) n = stop at *
  generalize k * batchBlocks = start at *
  refine Prog.wp_mono (wp_pwrite_blocks (m := stop - start) (n := n) (by simp) (by omega) (by omega)) ?_ ?_
  · rintro _ io2 ⟨h1, h2, h3, h4⟩
    refine ⟨hw.trans h1, ?_, fun hnil => h4 (hs hnil)⟩
    rw [show stop * blockAlignment = start * blockAlignment + (stop - start) * blockAlignment by
      rw [← Nat.add_mul]; congr 1; omega, Disk.read_append, read_before_batch h2, hr, h3,
      encodeRange_append payload (Nat.zero_le _) hle]
  · rintro _ io2 ⟨h, hnot⟩
    exact ⟨hw.trans h, fun hready => hnot (hready.of_wrote hw hs)⟩

/-! ## Streaming -/

namespace StreamingBlockWriter

/-- The writer has been fed `p`: full blocks are on the device or in the batch, the rest is pending. -/
structure Fed (off n : Nat) (io0 : DeviceIo) (p : Bytes) (w : StreamingBlockWriter) (io : DeviceIo) : Prop where
  offset_eq : w.extentOffset = off
  count_eq : w.blocksWritten + w.blocksInBatch = p.length / blockDataSize
  room : w.blocksInBatch < batchBlocks
  part_eq : w.part = p.drop (p.length / blockDataSize * blockDataSize)
  batch_eq : w.batch = encodeRange p w.blocksWritten (w.blocksWritten + w.blocksInBatch)
  wrote : Wrote (Inside (extentSpan off n)) io0 io
  read_eq : io.dev.read off (w.blocksWritten * blockAlignment) = encodeRange p 0 w.blocksWritten
  script_nil : io0.script = [] → io.script = []

theorem fed_new (off n : Nat) (io : DeviceIo) : Fed off n io [] (new off) io :=
  ⟨rfl, rfl, Nat.zero_lt_succ _, rfl, rfl, Wrote.refl, by simp [Disk.read, new], id⟩

/-- What the batch and the written blocks hold, whatever the pending part is. -/
structure Blocks (off n : Nat) (io0 : DeviceIo) (p : Bytes) (w : StreamingBlockWriter) (io : DeviceIo) (total : Nat) :
    Prop where
  offset_eq : w.extentOffset = off
  count_eq : w.blocksWritten + w.blocksInBatch = total
  batch_eq : w.batch = encodeRange p w.blocksWritten total
  wrote : Wrote (Inside (extentSpan off n)) io0 io
  read_eq : io.dev.read off (w.blocksWritten * blockAlignment) = encodeRange p 0 w.blocksWritten
  script_nil : io0.script = [] → io.script = []

theorem wp_flushBatch {off n total : Nat} {io0 io : DeviceIo} {p : Bytes} {w : StreamingBlockWriter}
    (h : Blocks off n io0 p w io total) (hn : total ≤ n) (hpos : 0 < w.blocksInBatch) :
    Prog.wp w.flushBatch
      (fun w' io' => Blocks off n io0 p w' io' total ∧ w'.part = w.part ∧ w'.blocksInBatch = 0)
      (fun _ io' => Wrote (Inside (extentSpan off n)) io0 io' ∧ ¬ Ready io0 off n) io := by
  obtain ⟨h1, h2, h3, h4, h5, h6⟩ := h
  unfold flushBatch
  rw [Prog.wp_bind, h1]
  refine Prog.wp_mono (wp_pwrite_blocks (m := w.blocksInBatch) (n := n) ?_ (by omega) hpos) ?_ ?_
  · rw [h3, length_encodeRange]
    congr 1
    omega
  · rintro _ io' ⟨hw, hb, hr, hs⟩
    refine ⟨⟨rfl, by simp only; omega, ?_, h4.trans hw, ?_, fun hnil => hs (h6 hnil)⟩, rfl, rfl⟩
    · simp only
      rw [show w.blocksWritten + w.blocksInBatch = total from h2, encodeRange_self]
    · simp only
      rw [Nat.add_mul, Disk.read_append, read_before_batch hb, hr, h5, h3,
        encodeRange_append p (Nat.zero_le _) (by omega), h2]
  · rintro _ io' ⟨hw, hnot⟩
    exact ⟨h4.trans hw, fun hready => hnot (hready.of_wrote h4 h6)⟩

/-- A full pending block goes to the batch. -/
theorem wp_sealBlock {off n total : Nat} {io0 io : DeviceIo} {p : Bytes} {w : StreamingBlockWriter}
    (h : Blocks off n io0 p w io total) (hn : total + 1 ≤ n) (hroom : w.blocksInBatch < batchBlocks)
    (hpart : padTo blockDataSize (blockPart p total) = w.part) :
    Prog.wp w.sealBlock
      (fun w' io' => Blocks off n io0 p w' io' (total + 1) ∧ w'.part = [] ∧ w'.blocksInBatch < batchBlocks)
      (fun _ io' => Wrote (Inside (extentSpan off n)) io0 io' ∧ ¬ Ready io0 off n) io := by
  have hblocks : Blocks off n io0 p { w with
      batch := w.batch ++ leBytes blockCrcSize (crc32c w.part).toNat ++ w.part, part := [],
      blocksInBatch := w.blocksInBatch + 1 } io (total + 1) := by
    obtain ⟨h1, h2, h3, h4, h5, h6⟩ := h
    refine ⟨h1, by simp only; omega, ?_, h4, h5, h6⟩
    rw [encodeRange_succ p (by simp only; omega), h3, encodeBlock, hpart, List.append_assoc]
  unfold sealBlock
  simp only
  split
  · refine Prog.wp_mono (wp_flushBatch hblocks hn (Nat.succ_pos _)) ?_ (fun _ _ h => h)
    rintro w' io' ⟨hb, hp, hz⟩
    exact ⟨hb, hp, by rw [hz]; decide⟩
  · next hne => exact ⟨hblocks, rfl, by simp only at *; omega⟩

theorem Fed.blocks {off n : Nat} {io0 io : DeviceIo} {p : Bytes} {w : StreamingBlockWriter} (h : Fed off n io0 p w io) :
    Blocks off n io0 p w io (p.length / blockDataSize) :=
  ⟨h.offset_eq, h.count_eq, by rw [h.batch_eq, h.count_eq], h.wrote, h.read_eq, h.script_nil⟩

omit [Crates] in
theorem numBlocks_mono {m k : Nat} (h : m ≤ k) : numBlocks m ≤ numBlocks k := by
  unfold numBlocks
  split
  · omega
  · split
    · omega
    · exact Nat.div_le_div_right (by omega)

omit [Crates] in
theorem div_le_numBlocks (m : Nat) : m / blockDataSize ≤ numBlocks m := by
  unfold numBlocks blockDataSize blockAlignment blockCrcSize
  split <;> omega

/-- One round: the bytes that fit into the pending block. -/
theorem wp_round {off n : Nat} {io0 io : DeviceIo} {p q : Bytes} {w : StreamingBlockWriter} (h : Fed off n io0 p w io)
    (hn : numBlocks (p ++ q).length ≤ n) (hq : q.length ≤ blockDataSize - w.part.length) :
    Prog.wp (sealIfFull { w with part := w.part ++ q })
      (fun w' io' => Fed off n io0 (p ++ q) w' io')
      (fun _ io' => Wrote (Inside (extentSpan off n)) io0 io' ∧ ¬ Ready io0 off n) io := by
  have hpl : w.part.length = p.length % blockDataSize := by
    rw [h.part_eq, List.length_drop]
    have := Nat.div_add_mod p.length blockDataSize
    rw [Nat.mul_comm] at this
    omega
  have hlt : p.length % blockDataSize < blockDataSize := Nat.mod_lt _ (by decide)
  have hdm := Nat.div_add_mod p.length blockDataSize
  rw [Nat.mul_comm] at hdm
  have hle : p.length / blockDataSize * blockDataSize ≤ p.length := by omega
  have hdrop : (p ++ q).drop (p.length / blockDataSize * blockDataSize) = w.part ++ q := by
    rw [List.drop_append_of_le_length hle, h.part_eq]
  -- the blocks so far, over the longer payload
  have hgrow : Blocks off n io0 (p ++ q) { w with part := w.part ++ q } io (p.length / blockDataSize) := by
    obtain ⟨h1, h2, h3, h4, h5, h6⟩ := h.blocks
    refine ⟨h1, h2, ?_, h4, ?_, h6⟩
    · rw [h3, encodeRange_grow p q hle]
    · rw [encodeRange_grow p q (Nat.le_trans (Nat.mul_le_mul_right _ (by simp only; omega)) hle)]
      exact h5
  unfold sealIfFull
  split
  · next hfull =>
    have hlen : (p ++ q).length = (p.length / blockDataSize + 1) * blockDataSize := by
      simp only [List.length_append] at hfull ⊢
      rw [Nat.succ_mul]; omega
    have hdiv : (p ++ q).length / blockDataSize = p.length / blockDataSize + 1 := by
      rw [hlen, Nat.mul_div_cancel _ (by decide)]
    refine Prog.wp_mono (wp_sealBlock hgrow ?_ h.room ?_) ?_ (fun _ _ h => h)
    · have := div_le_numBlocks (p ++ q).length
      omega
    · simp only [blockPart]
      rw [hdrop, List.take_of_length_le (Nat.le_of_eq hfull)]
      simp [padTo, hfull]
    · rintro w' io' ⟨⟨h1, h2, h3, h4, h5, h6⟩, hp, hr⟩
      refine ⟨h1, by rw [hdiv, h2], hr, ?_, by rw [h3, h2], h4, h5, h6⟩
      rw [hp, hdiv, List.drop_eq_nil_of_le (by omega)]
  · next hnot =>
    simp only [List.length_append] at hnot
    have hdiv : (p ++ q).length / blockDataSize = p.length / blockDataSize := by
      rw [List.length_append]
      refine Nat.div_eq_of_lt_le (by omega) ?_
      rw [Nat.succ_mul]; omega
    obtain ⟨h1, h2, h3, h4, h5, h6⟩ := hgrow
    exact ⟨h1, by rw [hdiv]; exact h2, h.room, by rw [hdiv, hdrop], by rw [h3]; simp only; rw [h.count_eq], h4, h5, h6⟩

theorem wp_writeLoop {off n fuel : Nat} {io0 io : DeviceIo} {p data : Bytes} {w : StreamingBlockWriter}
    (h : Fed off n io0 p w io) (hfuel : data.length ≤ fuel) (hn : numBlocks (p ++ data).length ≤ n) :
    Prog.wp (writeLoop fuel w data)
      (fun w' io' => Fed off n io0 (p ++ data) w' io')
      (fun _ io' => Wrote (Inside (extentSpan off n)) io0 io' ∧ ¬ Ready io0 off n) io := by
  induction fuel generalizing p data w io with
  | zero =>
    have : data = [] := List.eq_nil_of_length_eq_zero (by omega)
    subst this
    simpa [writeLoop] using h
  | succ fuel ih =>
    unfold writeLoop
    split
    · next hnil => subst hnil; simpa using h
    · next hne =>
      have hpos : 0 < data.length := List.length_pos_iff.mpr hne
      have hspace : 0 < blockDataSize - w.part.length := by
        rw [h.part_eq, List.length_drop]
        have h1 := Nat.div_add_mod p.length blockDataSize
        have h2 : p.length % blockDataSize < blockDataSize := Nat.mod_lt _ (by decide)
        rw [Nat.mul_comm] at h1
        omega
      generalize hk : min data.length (blockDataSize - w.part.length) = k
      have hk1 : 0 < k ∧ k ≤ data.length ∧ k ≤ blockDataSize - w.part.length := by omega
      have hsplit : p ++ data = (p ++ data.take k) ++ data.drop k := by rw [List.append_assoc, List.take_append_drop]
      simp only [hk, Prog.wp_bind]
      refine Prog.wp_mono (wp_round (q := data.take k) h ?_ ?_) ?_ (fun _ _ h => h)
      · refine Nat.le_trans (numBlocks_mono ?_) hn
        simp
      · rw [List.length_take]; omega
      · intro w' io' h'
        have hfuel' : (data.drop k).length ≤ fuel := by rw [List.length_drop]; omega
        have := ih h' hfuel' (by rw [← hsplit]; exact hn)
        rwa [← hsplit] at this

theorem wp_writeChunk {off n : Nat} {io0 io : DeviceIo} {p data : Bytes} {w : StreamingBlockWriter}
    (h : Fed off n io0 p w io) (hn : numBlocks (p ++ data).length ≤ n) :
    Prog.wp (w.writeChunk data)
      (fun w' io' => Fed off n io0 (p ++ data) w' io')
      (fun _ io' => Wrote (Inside (extentSpan off n)) io0 io' ∧ ¬ Ready io0 off n) io :=
  wp_writeLoop h (Nat.le_refl _) hn

theorem wp_finish {off n : Nat} {io0 io : DeviceIo} {p : Bytes} {w : StreamingBlockWriter} (h : Fed off n io0 p w io)
    (hn : numBlocks p.length ≤ n) :
    Prog.wp w.finish
      (fun _ io' => Wrote (Inside (extentSpan off n)) io0 io' ∧
        io'.dev.read off (numBlocks p.length * blockAlignment) = encodeBlocks p ∧ (io0.script = [] → io'.script = []))
      (fun _ io' => Wrote (Inside (extentSpan off n)) io0 io' ∧ ¬ Ready io0 off n) io := by
  -- the batch once every block of `p` is written or in it
  have hlast : ∀ w' io', Blocks off n io0 p w' io' (numBlocks p.length) →
      Prog.wp (if 0 < w'.blocksInBatch then w'.flushBatch else pure w') (fun _ io' =>
        Wrote (Inside (extentSpan off n)) io0 io' ∧ io'.dev.read off (numBlocks p.length * blockAlignment) = encodeBlocks p ∧
          (io0.script = [] → io'.script = []))
      (fun _ io' => Wrote (Inside (extentSpan off n)) io0 io' ∧ ¬ Ready io0 off n) io' := by
    intro w' io' hb
    split
    · next hpos =>
      refine Prog.wp_mono (wp_flushBatch hb hn hpos) ?_ (fun _ _ h => h)
      rintro w2 io2 ⟨⟨h1, h2, h3, h4, h5, h6⟩, -, hz⟩
      rw [hz, Nat.add_zero] at h2
      rw [h2] at h5
      exact ⟨h4, h5, h6⟩
    · obtain ⟨h1, h2, h3, h4, h5, h6⟩ := hb
      rw [show w'.blocksWritten = numBlocks p.length by omega] at h5
      exact ⟨h4, h5, h6⟩
  have hdm := Nat.div_add_mod p.length blockDataSize
  rw [Nat.mul_comm] at hdm
  have hlt : p.length % blockDataSize < blockDataSize := Nat.mod_lt _ (by decide)
  have hpl : w.part.length = p.length % blockDataSize := by rw [h.part_eq, List.length_drop]; omega
  unfold finish sealLast
  rw [Prog.wp_bind]
  split
  · next hne =>
    have hpos : 0 < w.part.length := List.length_pos_iff.mpr hne
    have hnb : numBlocks p.length = p.length / blockDataSize + 1 := by
      rw [hpl] at hpos
      have hp0 : p.length ≠ 0 := by intro h0; rw [h0, Nat.zero_mod] at hpos; omega
      unfold numBlocks
      rw [if_neg hp0]
      unfold blockDataSize blockAlignment blockCrcSize at *
      omega
    have hb : Blocks off n io0 p { w with part := padTo blockDataSize w.part } io (p.length / blockDataSize) :=
      ⟨h.offset_eq, h.count_eq, h.blocks.batch_eq, h.wrote, h.read_eq, h.script_nil⟩
    refine Prog.wp_mono (wp_sealBlock hb (by omega) h.room ?_) ?_ (fun _ _ h => h)
    · simp only [blockPart]
      rw [← h.part_eq, List.take_of_length_le (by omega)]
    · rintro w' io' ⟨hb', -, -⟩
      rw [← hnb] at hb'
      exact hlast w' io' hb'
  · next hnil =>
    simp only [ne_eq, not_not] at hnil
    rw [hnil] at hpl
    have hnb : numBlocks p.length = p.length / blockDataSize := by
      simp only [List.length_nil] at hpl
      unfold numBlocks
      unfold blockDataSize blockAlignment blockCrcSize at *
      split <;> omega
    have hb := h.blocks
    rw [← hnb] at hb
    exact hlast w io hb

end StreamingBlockWriter

/-! ## Decoding -/

omit [Crates] in
/-- A block of a raw buffer read from the device. -/
theorem rawBlock_read (d : Disk) (off : Nat) {m i : Nat} (h : i < m) :
    rawBlock (d.read off (m * blockAlignment)) i = d.read (off + i * blockAlignment) blockAlignment := by
  have h1 : (i + 1) * blockAlignment ≤ m * blockAlignment := Nat.mul_le_mul_right _ h
  rw [Nat.succ_mul] at h1
  exact Disk.read_drop_take d off (m * blockAlignment) (i * blockAlignment) blockAlignment h1

/-- A block decodes the same whether it was read in its batch or with the whole extent. -/
theorem decodeStep_batch (d : Disk) (off : Nat) {n first m i : Nat} (hi : i < m) (hm : first + m ≤ n) (len : Nat) (c : Bytes) :
    decodeStep (d.read (off + first * blockAlignment) (m * blockAlignment)) first len c i =
      decodeStep (d.read off (n * blockAlignment)) 0 len c (first + i) := by
  unfold decodeStep
  rw [rawBlock_read d _ hi, rawBlock_read d _ (show first + i < n by omega), Nat.zero_add, Nat.add_mul, Nat.add_assoc]

/-- The first `k` blocks of a raw buffer, decoded. -/
def decodeFirst (raw : Bytes) (len k : Nat) : Except RawStoreError Bytes :=
  (List.range k).foldlM (decodeStep raw 0 len) []

def RawStoreError.OfDecode : RawStoreError → Prop
  | .dataCorruption _ _ _ => True
  | _ => False

theorem verifyBlockCrc_error {block : Bytes} {label : Nat} {e : RawStoreError} (h : verifyBlockCrc block label = .error e) :
    e.OfDecode := by
  unfold verifyBlockCrc at h
  dsimp only at h
  split at h
  · cases h
  · cases h
    trivial

/-- Blocks fail to decode only by their checksums. -/
theorem foldlM_decodeStep_error {raw : Bytes} {first len : Nat} {l : List Nat} {content : Bytes} {e : RawStoreError}
    (h : l.foldlM (decodeStep raw first len) content = .error e) : e.OfDecode := by
  refine foldlM_error (fun content i e he => ?_) h
  unfold decodeStep at he
  cases hv : verifyBlockCrc (rawBlock raw i) (first + i) with
  | error e' =>
    rw [hv] at he
    cases he
    exact verifyBlockCrc_error hv
  | ok data =>
    rw [hv] at he
    cases he

theorem decodeBlocks_read (d : Disk) (off n len : Nat) :
    decodeBlocks (d.read off (n * blockAlignment)) len = decodeFirst (d.read off (n * blockAlignment)) len n := by
  unfold decodeBlocks decodeFirst
  rw [Disk.length_read, Nat.mul_div_cancel _ (by decide)]

omit [Crates] in
theorem foldlM_congr_mem {β : Type} {f g : β → Nat → Except RawStoreError β} {l : List Nat} {b : β}
    (h : ∀ i ∈ l, ∀ b, f b i = g b i) : l.foldlM f b = l.foldlM g b := by
  induction l generalizing b with
  | nil => rfl
  | cons x l ih =>
    rw [List.foldlM_cons, List.foldlM_cons, h x (by simp)]
    congr 1
    funext b'
    exact ih fun i hi => h i (by simp [hi])

/-- Decoding a batch continues the decoding of the extent. -/
theorem decode_batch (d : Disk) (off : Nat) {n first m : Nat} (hm : first + m ≤ n) (len : Nat) {c : Bytes}
    (hc : decodeFirst (d.read off (n * blockAlignment)) len first = .ok c) :
    (List.range m).foldlM (decodeStep (d.read (off + first * blockAlignment) (m * blockAlignment)) first len) c =
      decodeFirst (d.read off (n * blockAlignment)) len (first + m) := by
  rw [foldlM_congr_mem fun i hi b => decodeStep_batch d off (List.mem_range.mp hi) hm len b]
  unfold decodeFirst at *
  rw [List.range_add, List.foldlM_append, hc]
  exact List.foldlM_map.symm

/-- An error in the first blocks is the extent's error. -/
theorem decodeFirst_error (raw : Bytes) (len : Nat) {k n : Nat} (h : k ≤ n) {e : RawStoreError}
    (he : decodeFirst raw len k = .error e) : decodeFirst raw len n = .error e := by
  obtain ⟨m, rfl⟩ := Nat.exists_eq_add_of_le h
  unfold decodeFirst at *
  rw [List.range_add, List.foldlM_append, he]
  rfl

/-- The batched reader computes `decodeBlocks` of the extent's bytes. -/
theorem wp_readAndDecodeBatched (io : DeviceIo) (off size : Nat) :
    Prog.wp (readAndDecodeBatched off size)
      (fun r io' => Aged io io' ∧ decodeBlocks (io.dev.read off (numBlocks size * blockAlignment)) size = .ok r)
      (fun e io' => Aged io io' ∧ (Calm io off (numBlocks size * blockAlignment) →
        decodeBlocks (io.dev.read off (numBlocks size * blockAlignment)) size = .error e)) io := by
  simp only [decodeBlocks_read]
  unfold readAndDecodeBatched
  generalize numBlocks size = n
  refine Prog.wp_foldlM_steps (c := batchBlocks) (by decide)
    (fun k c io' => Aged io io' ∧ decodeFirst (io.dev.read off (n * blockAlignment)) size k = .ok c)
    ⟨Aged.refl, by simp [decodeFirst]; rfl⟩ ?_
  rintro k c io1 hk ⟨ha, hc⟩
  have hle : k * batchBlocks ≤ batchEnd (k * batchBlocks) n := by unfold batchEnd; omega
  have hbn : batchEnd (k * batchBlocks) n ≤ n := by unfold batchEnd; omega
  rw [show min (k * batchBlocks + batchBlocks) n = batchEnd (k * batchBlocks) n from rfl]
  dsimp only
  generalize batchEnd (k * batchBlocks) n = stop at *
  generalize k * batchBlocks = start at *
  rw [Prog.wp_bind]
  refine Prog.wp_mono (wp_pread _ _) ?_ ?_
  · rintro raw io2 ⟨rfl, ha2⟩
    rw [ha.dev_eq, decode_batch io.dev off (n := n) (by omega) size hc, show start + (stop - start) = stop by omega]
    rw [wp_ofExcept]
    cases hd : decodeFirst (io.dev.read off (n * blockAlignment)) size stop with
    | ok c' => exact ⟨ha.trans ha2, rfl⟩
    | error e => exact ⟨ha.trans ha2, fun _ => decodeFirst_error _ _ hbn hd⟩
  · rintro e io2 ⟨ha2, hc2⟩
    exact ⟨ha.trans ha2, fun hcalm => absurd ((hcalm.aged ha).batch (by omega)) hc2⟩

/-! ## Round trip -/

theorem verifyBlockCrc_encodeBlock (data : Bytes) (label : Nat) :
    verifyBlockCrc (encodeBlock data) label = .ok (padTo blockDataSize data) := by
  have hcrc : leNat (leBytes blockCrcSize (crc32c (padTo blockDataSize data)).toNat) =
      (crc32c (padTo blockDataSize data)).toNat := leNat_leBytes _ _ (UInt32.toNat_lt _)
  have htake : (encodeBlock data).take blockCrcSize = leBytes blockCrcSize (crc32c (padTo blockDataSize data)).toNat :=
    List.take_left' (length_leBytes _ _)
  have hdrop : (encodeBlock data).drop blockCrcSize = padTo blockDataSize data := List.drop_left' (length_leBytes _ _)
  unfold verifyBlockCrc
  rw [htake, hdrop, hcrc, UInt32.ofNat_toNat]
  exact if_pos rfl

theorem rawBlock_encodeRange (payload : Bytes) {n i : Nat} (h : i < n) :
    rawBlock (encodeRange payload 0 n) i = encodeBlock (blockPart payload i) := by
  have hlen := length_encodeBlock (length_blockPart_le payload i)
  have h1 : (encodeRange payload 0 i).length = i * blockAlignment := by simp
  unfold rawBlock
  rw [← encodeRange_append payload (Nat.zero_le (i + 1)) (show i + 1 ≤ n by omega), encodeRange_succ payload (Nat.zero_le i),
    List.append_assoc, ← h1, List.drop_left, ← hlen, List.take_left]

omit [Crates] in
theorem numBlocks_spec (m : Nat) : m ≤ numBlocks m * blockDataSize := by
  unfold numBlocks blockDataSize blockAlignment blockCrcSize
  split <;> omega

/-- Decoding the blocks of a payload, `k` of them, up to `m` bytes. -/
theorem decodeFirst_encodeRange_le (payload : Bytes) {n k m : Nat} (h : k ≤ n) (hm : m ≤ payload.length) :
    decodeFirst (encodeRange payload 0 n) m k = .ok (payload.take (min (k * blockDataSize) m)) := by
  induction k with
  | zero => simp [decodeFirst]; rfl
  | succ k ih =>
    have ih := ih (by omega)
    unfold decodeFirst at *
    rw [List.range_succ, List.foldlM_append, ih]
    show (List.foldlM (decodeStep (encodeRange payload 0 n) 0 m) (payload.take (min (k * blockDataSize) m)) [k]) = _
    rw [List.foldlM_cons]
    unfold decodeStep
    rw [rawBlock_encodeRange payload (by omega), verifyBlockCrc_encodeBlock]
    show Except.ok _ = Except.ok _
    congr 1
    have hpart : (padTo blockDataSize (blockPart payload k)).take
        (min (m - (payload.take (min (k * blockDataSize) m)).length) blockDataSize) =
          (payload.drop (k * blockDataSize)).take (min (m - k * blockDataSize) blockDataSize) := by
      have hl : (blockPart payload k).length = min blockDataSize (payload.length - k * blockDataSize) := by simp [blockPart]
      rw [List.length_take, show m - min (min (k * blockDataSize) m) payload.length = m - k * blockDataSize by omega, padTo,
        List.take_append_of_le_length (by rw [hl]; omega), blockPart, List.take_take]
      congr 1
      omega
    rw [hpart, Nat.succ_mul]
    by_cases hk : k * blockDataSize ≤ m
    · have hmin : k * blockDataSize + min (m - k * blockDataSize) blockDataSize = min (k * blockDataSize + blockDataSize) m := by omega
      rw [Nat.min_eq_left hk, ← List.take_add, hmin]
    · have hmin : min (k * blockDataSize) m = min (k * blockDataSize + blockDataSize) m := by omega
      rw [show m - k * blockDataSize = 0 by omega, Nat.zero_min, List.take_zero, List.append_nil, hmin]

theorem decodeFirst_encodeRange (payload : Bytes) {n k : Nat} (h : k ≤ n) :
    decodeFirst (encodeRange payload 0 n) payload.length k = .ok (payload.take (k * blockDataSize)) := by
  rw [decodeFirst_encodeRange_le payload h (Nat.le_refl _), ← List.take_take, List.take_length]

/-- Only the blocks that are decoded matter. -/
theorem decodeFirst_read_congr (d : Disk) (off : Nat) {n n' k : Nat} (len : Nat) (hn : k ≤ n) (hn' : k ≤ n') :
    decodeFirst (d.read off (n * blockAlignment)) len k = decodeFirst (d.read off (n' * blockAlignment)) len k := by
  unfold decodeFirst
  refine foldlM_congr_mem fun i hi b => ?_
  have hlt := List.mem_range.mp hi
  unfold decodeStep
  rw [rawBlock_read d off (show i < n by omega), rawBlock_read d off (show i < n' by omega)]

/-- What is encoded decodes. -/
theorem decodeBlocks_encodeBlocks (payload : Bytes) : decodeBlocks (encodeBlocks payload) payload.length = .ok payload := by
  have h := decodeFirst_encodeRange payload (Nat.le_refl (numBlocks payload.length))
  rw [List.take_of_length_le (numBlocks_spec _)] at h
  unfold decodeBlocks
  rw [length_encodeBlocks, Nat.mul_div_cancel _ (by decide)]
  exact h

/-! ## The streaming reader -/

namespace StreamingBlockReader

/-- The reader of the extent `off` of a `size`-byte payload, before block `k`. -/
def At (off size k : Nat) : StreamingBlockReader := ⟨off, numBlocks size, size, k, min (k * blockDataSize) size⟩

omit [Crates] in
theorem at_zero (off size : Nat) : At off size 0 = new off size := by simp [At, new]

theorem nextChunk_at (off size k : Nat) : nextChunk (At off size k) =
    if numBlocks size ≤ k then pure (none, At off size k) else (do
      let raw ← pread (off + k * blockAlignment) ((batchEnd k (numBlocks size) - k) * blockAlignment)
      let chunk ← ofExcept ((List.range (batchEnd k (numBlocks size) - k)).foldlM
        (decodeStep raw k (size - min (k * blockDataSize) size)) [])
      pure (some chunk, ⟨off, numBlocks size, size, batchEnd k (numBlocks size),
        min (k * blockDataSize) size + chunk.length⟩)) := rfl

end StreamingBlockReader

/-- Content already decoded only shortens what is still expected. -/
theorem decodeStep_shift (raw : Bytes) (first len : Nat) (c x : Bytes) (i : Nat) :
    decodeStep raw first len (c ++ x) i = (decodeStep raw first (len - c.length) x i).map (c ++ ·) := by
  unfold decodeStep
  cases verifyBlockCrc (rawBlock raw i) (first + i) with
  | error e => rfl
  | ok data =>
    show Except.ok _ = Except.ok _
    rw [List.length_append, List.append_assoc, Nat.sub_add_eq]

theorem foldlM_decodeStep_shift (raw : Bytes) (first len : Nat) (c x : Bytes) (l : List Nat) :
    l.foldlM (decodeStep raw first len) (c ++ x) =
      (l.foldlM (decodeStep raw first (len - c.length)) x).map (c ++ ·) := by
  induction l generalizing x with
  | nil => rfl
  | cons i l ih =>
    rw [List.foldlM_cons, List.foldlM_cons, decodeStep_shift raw first len c x i]
    cases decodeStep raw first (len - c.length) x i with
    | error e => rfl
    | ok y => exact ih y

/-- The decoded prefix has its full length. -/
theorem length_decodeFirst (d : Disk) (off : Nat) {n k len : Nat} {c : Bytes} (hk : k ≤ n)
    (h : decodeFirst (d.read off (n * blockAlignment)) len k = .ok c) : c.length = min (k * blockDataSize) len := by
  induction k generalizing c with
  | zero =>
    simp only [decodeFirst, List.range_zero, List.foldlM_nil] at h
    obtain rfl := Except.ok.inj h
    simp
  | succ k ih =>
    unfold decodeFirst at *
    rw [List.range_succ, List.foldlM_append] at h
    cases hp : (List.range k).foldlM (decodeStep (d.read off (n * blockAlignment)) 0 len) [] with
    | error e => rw [hp] at h; exact absurd h (by simp [Bind.bind, Except.bind])
    | ok p =>
      rw [hp] at h
      have ih := ih (by omega) hp
      have hlast : decodeStep (d.read off (n * blockAlignment)) 0 len p k = .ok c := by
        cases hs : decodeStep (d.read off (n * blockAlignment)) 0 len p k with
        | error e => simp [Bind.bind, Except.bind, List.foldlM_cons, hs] at h
        | ok c' => simpa [Bind.bind, Except.bind, List.foldlM_cons, hs, pure, Except.pure] using h
      unfold decodeStep verifyBlockCrc at hlast
      rw [rawBlock_read d off (by omega)] at hlast
      simp only at hlast
      split at hlast
      · obtain rfl := Except.ok.inj hlast
        simp only [List.length_append, List.length_take, List.length_drop, Disk.length_read, ih, Nat.succ_mul, blockCrcSize]
        unfold blockDataSize blockAlignment blockCrcSize
        omega
      · exact absurd hlast (by simp [Bind.bind, Except.bind])

/-- The next chunk continues the decoding of the extent as the device holds it now. -/
theorem wp_nextChunk (io : DeviceIo) (off size k : Nat) {c : Bytes}
    (hc : decodeFirst (io.dev.read off (numBlocks size * blockAlignment)) size k = .ok c) (hk : k ≤ numBlocks size) :
    Prog.wp (StreamingBlockReader.nextChunk (.At off size k))
      (fun r io' => Aged io io' ∧
        (k = numBlocks size ∧ r = (none, .At off size k) ∨
          k < numBlocks size ∧ ∃ chunk, r = (some chunk, .At off size (batchEnd k (numBlocks size))) ∧
            decodeFirst (io.dev.read off (numBlocks size * blockAlignment)) size (batchEnd k (numBlocks size)) =
              .ok (c ++ chunk)))
      (fun e io' => Aged io io' ∧ (Calm io off (numBlocks size * blockAlignment) → k < numBlocks size ∧
        decodeFirst (io.dev.read off (numBlocks size * blockAlignment)) size (batchEnd k (numBlocks size)) = .error e)) io := by
  rw [StreamingBlockReader.nextChunk_at]
  split
  · exact ⟨Aged.refl, Or.inl ⟨by omega, rfl⟩⟩
  · next hlt =>
    have hle : k ≤ batchEnd k (numBlocks size) := by unfold batchEnd; omega
    have hbn : batchEnd k (numBlocks size) ≤ numBlocks size := by unfold batchEnd; omega
    have hclen := length_decodeFirst io.dev off hk hc
    generalize hstop : batchEnd k (numBlocks size) = stop at *
    rw [Prog.wp_bind]
    refine Prog.wp_mono (wp_pread _ _) ?_ ?_
    · rintro raw io1 ⟨rfl, ha⟩
      have hb := decode_batch io.dev off (n := numBlocks size) (m := stop - k) (by omega) size hc
      rw [show k + (stop - k) = stop by omega] at hb
      rw [← List.append_nil c, foldlM_decodeStep_shift, hclen] at hb
      rw [Prog.wp_bind, wp_ofExcept]
      cases hd : (List.range (stop - k)).foldlM (decodeStep (io.dev.read (off + k * blockAlignment)
          ((stop - k) * blockAlignment)) k (size - min (k * blockDataSize) size)) [] with
      | error e =>
        rw [hd] at hb
        exact ⟨ha, fun _ => ⟨by omega, hb.symm⟩⟩
      | ok chunk =>
        rw [hd] at hb
        have hlen := length_decodeFirst io.dev off hbn hb.symm
        rw [List.length_append, hclen] at hlen
        refine ⟨ha, Or.inr ⟨by omega, chunk, ?_, hb.symm⟩⟩
        simp only [StreamingBlockReader.At, Prod.mk.injEq, true_and, StreamingBlockReader.mk.injEq]
        omega
    · rintro e io1 ⟨ha, hnc⟩
      exact ⟨ha, fun hcalm => absurd (hcalm.batch (by omega)) hnc⟩

end ObjStr.Raw
