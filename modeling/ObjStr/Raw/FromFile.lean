/-
  ObjStr.Raw.FromFile — `put_with_meta_from_file` (`store.rs`) beside the path that buffers the payload.

  A device without compression takes a file in 1 MB reads through a block writer, and takes the size from the file's
  metadata before the first read; the other path takes the size from the bytes it has. Both write the same batches
  (`writeSource_exec`): however the reads cut the payload, the writer makes the device calls of `encode_and_write_batched`.
  - `from_file_is_buffered_iff`: the two paths leave the same store, with the rest of the file under the key, if and only if
    the file is at its start.
  - `a_file_read_on_is_not_buffered`: a file of two bytes whose first byte has been read.
-/

import ObjStr.Raw.Verify

namespace ObjStr.Raw

open ObjStr.Lib DeviceIo

section FromFile

variable [Crates]

/-! ## Batches -/

def writeBatch (off : Nat) (payload : Bytes) (b : Nat) : IoM Unit :=
  DeviceIo.pwrite (off + b * batchBlocks * blockAlignment)
    (encodeRange payload (b * batchBlocks) (batchEnd (b * batchBlocks) (numBlocks payload.length)))

def writeBatches (off : Nat) (payload : Bytes) (i j : Nat) : IoM Unit := (List.range' i (j - i)).forM (writeBatch off payload)

theorem encodeAndWriteBatched_eq (off : Nat) (payload : Bytes) :
    encodeAndWriteBatched off payload = writeBatches off payload 0 (batchCount (numBlocks payload.length)) := by
  unfold encodeAndWriteBatched writeBatches
  dsimp only
  rw [List.range_eq_range', Nat.sub_zero]
  rfl

variable {off : Nat} {payload : Bytes}

theorem writeBatches_append {i j k : Nat} (hij : i ≤ j) (hjk : j ≤ k) :
    writeBatches off payload i k = writeBatches off payload i j >>= fun _ => writeBatches off payload j k := by
  have hsplit : List.range' i (k - i) = List.range' i (j - i) ++ List.range' j (k - j) := by
    obtain ⟨m, rfl⟩ := Nat.exists_eq_add_of_le hij
    obtain ⟨l, rfl⟩ := Nat.exists_eq_add_of_le hjk
    rw [show i + m + l - i = m + l by omega, Nat.add_sub_cancel_left, Nat.add_sub_cancel_left, ← List.range'_append_1]
  unfold writeBatches
  rw [hsplit]
  exact List.forM_append

theorem writeBatches_self (i : Nat) : writeBatches off payload i i = pure () := by
  unfold writeBatches
  rw [Nat.sub_self]
  rfl

theorem writeBatches_one (i : Nat) : writeBatches off payload i (i + 1) = writeBatch off payload i := by
  unfold writeBatches
  rw [Nat.add_sub_cancel_left]
  show (writeBatch off payload i >>= fun _ => pure ()) = _
  exact bind_pure _

/-! ## The block writer makes the same calls -/

namespace StreamingBlockWriter

/-- The writer after `p`: the full batches are on the device, the full blocks behind them in the batch. -/
def fed (off : Nat) (p : Bytes) : StreamingBlockWriter where
  extentOffset := off
  batch := encodeRange p (p.length / blockDataSize / batchBlocks * batchBlocks) (p.length / blockDataSize)
  blocksInBatch := p.length / blockDataSize % batchBlocks
  part := p.drop (p.length / blockDataSize * blockDataSize)
  blocksWritten := p.length / blockDataSize / batchBlocks * batchBlocks

theorem fed_nil (off : Nat) : fed off [] = new off := by
  unfold fed new
  simp

/-- The batches that are full after `p`. -/
def fullBatches (p : Bytes) : Nat := p.length / blockDataSize / batchBlocks

omit [Crates] in
theorem length_part (p : Bytes) : (p.drop (p.length / blockDataSize * blockDataSize)).length = p.length % blockDataSize := by
  rw [List.length_drop]
  have := Nat.div_add_mod p.length blockDataSize
  rw [Nat.mul_comm] at this
  omega

/-- A batch that is full before the payload ends. -/
theorem writeBatch_full {p rest : Bytes} {b : Nat} (h : (b + 1) * batchBlocks ≤ p.length / blockDataSize) :
    writeBatch off (p ++ rest) b = DeviceIo.pwrite (off + b * batchBlocks * blockAlignment)
      (encodeRange p (b * batchBlocks) ((b + 1) * batchBlocks)) := by
  have hnum : p.length / blockDataSize ≤ numBlocks (p ++ rest).length :=
    Nat.le_trans (div_le_numBlocks p.length) (numBlocks_mono (by simp))
  have hend : batchEnd (b * batchBlocks) (numBlocks (p ++ rest).length) = (b + 1) * batchBlocks := by
    unfold batchEnd
    rw [Nat.succ_mul] at h ⊢
    omega
  have hgrow : (b + 1) * batchBlocks * blockDataSize ≤ p.length :=
    Nat.le_trans (Nat.mul_le_mul_right _ h) (Nat.div_mul_le_self _ _)
  unfold writeBatch
  rw [hend, encodeRange_grow p rest hgrow]

/-- A full block goes to the batch; a batch that it fills is written. -/
theorem sealBlock_eq {p q : Bytes} (rest : Bytes)
    (hfull : (p.drop (p.length / blockDataSize * blockDataSize) ++ q).length = blockDataSize) :
    sealBlock { fed off p with part := p.drop (p.length / blockDataSize * blockDataSize) ++ q } =
      writeBatches off (p ++ q ++ rest) (fullBatches p) (fullBatches (p ++ q)) >>= fun _ => pure (fed off (p ++ q)) := by
  have hpart := length_part p
  have hdm := Nat.div_add_mod p.length blockDataSize
  rw [Nat.mul_comm] at hdm
  rw [List.length_append, hpart] at hfull
  have hlen : (p ++ q).length = (p.length / blockDataSize + 1) * blockDataSize := by
    rw [List.length_append, Nat.succ_mul]
    omega
  have hblocks : (p ++ q).length / blockDataSize = p.length / blockDataSize + 1 := by
    rw [hlen, Nat.mul_div_cancel _ (by decide)]
  have hle : p.length / blockDataSize * blockDataSize ≤ p.length := by omega
  -- the block is encoded as it stands
  have hbatch : (fed off p).batch ++ leBytes blockCrcSize
        (crc32c (p.drop (p.length / blockDataSize * blockDataSize) ++ q)).toNat ++
        (p.drop (p.length / blockDataSize * blockDataSize) ++ q) =
      encodeRange (p ++ q) (p.length / blockDataSize / batchBlocks * batchBlocks) (p.length / blockDataSize + 1) := by
    have hpad : padTo blockDataSize (p.drop (p.length / blockDataSize * blockDataSize) ++ q) =
        p.drop (p.length / blockDataSize * blockDataSize) ++ q := by
      unfold padTo
      rw [List.length_append, hpart, hfull, Nat.sub_self, List.replicate_zero, List.append_nil]
    have hblock : blockPart (p ++ q) (p.length / blockDataSize) = p.drop (p.length / blockDataSize * blockDataSize) ++ q := by
      unfold blockPart
      rw [List.drop_append_of_le_length hle, List.take_of_length_le]
      rw [List.length_append, hpart]
      omega
    rw [encodeRange_succ _ (Nat.div_mul_le_self _ _), hblock, encodeRange_grow p q hle, encodeBlock, hpad, List.append_assoc]
    rfl
  have hpos : 0 < batchBlocks := by decide
  have hdb := Nat.div_add_mod (p.length / blockDataSize) batchBlocks
  have hmod := Nat.mod_lt (p.length / blockDataSize) hpos
  have hdrop : (p ++ q).drop ((p.length / blockDataSize + 1) * blockDataSize) = [] := List.drop_eq_nil_of_le (by omega)
  unfold sealBlock
  dsimp only
  by_cases hlast : p.length / blockDataSize % batchBlocks + 1 = batchBlocks
  · have hnext : p.length / blockDataSize + 1 = (p.length / blockDataSize / batchBlocks + 1) * batchBlocks := by
      rw [Nat.mul_comm] at hdb
      rw [Nat.succ_mul]
      omega
    have hcount : fullBatches (p ++ q) = fullBatches p + 1 := by
      unfold fullBatches
      rw [hblocks, hnext, Nat.mul_div_cancel _ hpos]
    rw [if_pos (show (fed off p).blocksInBatch + 1 = batchBlocks from hlast), hcount, writeBatches_one,
      writeBatch_full (by unfold fullBatches; rw [hblocks, hnext])]
    have hfed : fed off (p ++ q) = ⟨off, [], 0, [],
        p.length / blockDataSize / batchBlocks * batchBlocks + (p.length / blockDataSize % batchBlocks + 1)⟩ := by
      unfold fed
      rw [hblocks, hdrop, hnext, Nat.mul_div_cancel _ hpos, encodeRange_self, Nat.mul_mod_left, hlast, Nat.succ_mul]
    have hstop : (fullBatches p + 1) * batchBlocks = p.length / blockDataSize + 1 := hnext.symm
    rw [hfed, hstop]
    unfold flushBatch
    dsimp only
    rw [hbatch]
    rfl
  · have hcount : fullBatches (p ++ q) = fullBatches p := by
      unfold fullBatches
      rw [hblocks]
      refine Nat.div_eq_of_lt_le (by rw [Nat.mul_comm]; omega) ?_
      rw [Nat.mul_comm, Nat.mul_succ]
      omega
    have hmod' : (p.length / blockDataSize + 1) % batchBlocks = p.length / blockDataSize % batchBlocks + 1 := by
      rw [Nat.add_mod, Nat.mod_eq_of_lt (show 1 < batchBlocks by decide), Nat.mod_eq_of_lt (by omega)]
    have hdiv' : (p.length / blockDataSize + 1) / batchBlocks = p.length / blockDataSize / batchBlocks := by
      have := hcount
      unfold fullBatches at this
      rwa [hblocks] at this
    rw [if_neg (show (fed off p).blocksInBatch + 1 ≠ batchBlocks from hlast), hcount, writeBatches_self, pure_bind]
    have hfed : fed off (p ++ q) = ⟨off, encodeRange (p ++ q) (p.length / blockDataSize / batchBlocks * batchBlocks)
        (p.length / blockDataSize + 1), p.length / blockDataSize % batchBlocks + 1, [],
        p.length / blockDataSize / batchBlocks * batchBlocks⟩ := by
      unfold fed
      rw [hblocks, hdrop, hmod', hdiv']
    rw [hfed, hbatch]
    rfl

/-- A chunk that fits into the block being filled. -/
theorem sealIfFull_eq {p q : Bytes} (rest : Bytes)
    (hq : q.length ≤ blockDataSize - (p.drop (p.length / blockDataSize * blockDataSize)).length) :
    sealIfFull { fed off p with part := p.drop (p.length / blockDataSize * blockDataSize) ++ q } =
      writeBatches off (p ++ q ++ rest) (fullBatches p) (fullBatches (p ++ q)) >>= fun _ => pure (fed off (p ++ q)) := by
  unfold sealIfFull
  by_cases hfull : (p.drop (p.length / blockDataSize * blockDataSize) ++ q).length = blockDataSize
  · rw [if_pos hfull, sealBlock_eq rest hfull]
  · have hpart := length_part p
    have hdm := Nat.div_add_mod p.length blockDataSize
    rw [Nat.mul_comm] at hdm
    have hlt : p.length % blockDataSize < blockDataSize := Nat.mod_lt _ (by decide)
    rw [List.length_append, hpart] at hfull
    rw [hpart] at hq
    have hblocks : (p ++ q).length / blockDataSize = p.length / blockDataSize := by
      rw [List.length_append]
      refine Nat.div_eq_of_lt_le (by omega) ?_
      rw [Nat.succ_mul]
      omega
    have hle : p.length / blockDataSize * blockDataSize ≤ p.length := by omega
    have hcount : fullBatches (p ++ q) = fullBatches p := by
      unfold fullBatches
      rw [hblocks]
    have hfed : fed off (p ++ q) = { fed off p with part := p.drop (p.length / blockDataSize * blockDataSize) ++ q } := by
      unfold fed
      rw [hblocks, encodeRange_grow p q hle, List.drop_append_of_le_length hle]
    rw [if_neg (by rw [List.length_append, hpart]; exact hfull), hcount, writeBatches_self, pure_bind, hfed]

omit [Crates] in
theorem fullBatches_mono {p q : Bytes} : fullBatches p ≤ fullBatches (p ++ q) := by
  unfold fullBatches
  exact Nat.div_le_div_right (Nat.div_le_div_right (by simp))

theorem writeLoop_eq {p data : Bytes} (rest : Bytes) {fuel : Nat} (hfuel : data.length ≤ fuel) :
    writeLoop fuel (fed off p) data =
      writeBatches off (p ++ data ++ rest) (fullBatches p) (fullBatches (p ++ data)) >>= fun _ => pure (fed off (p ++ data)) := by
  induction fuel generalizing p data with
  | zero =>
    obtain rfl := List.eq_nil_of_length_eq_zero (Nat.le_zero.mp hfuel)
    rw [List.append_nil, writeBatches_self, pure_bind]
    rfl
  | succ fuel ih =>
    unfold writeLoop
    by_cases hnil : data = []
    · rw [if_pos hnil, hnil, List.append_nil, writeBatches_self, pure_bind]
    · have hpos : 0 < data.length := List.length_pos_iff.mpr hnil
      have hpart := length_part p
      have hlt : p.length % blockDataSize < blockDataSize := Nat.mod_lt _ (by decide)
      rw [if_neg hnil]
      generalize hk : min data.length (blockDataSize - (p.drop (p.length / blockDataSize * blockDataSize)).length) = k
      have hround : sealIfFull { fed off p with part := p.drop (p.length / blockDataSize * blockDataSize) ++ data.take k } = _ :=
        sealIfFull_eq (data.drop k ++ rest) (by
        rw [← hk, List.length_take]
        omega)
      have hsplit : p ++ data = p ++ data.take k ++ data.drop k := by rw [List.append_assoc, List.take_append_drop]
      rw [← List.append_assoc, ← hsplit] at hround
      have hrest : writeLoop fuel (fed off (p ++ data.take k)) (data.drop k) = _ := ih (by
        rw [List.length_drop, ← hk, hpart]
        omega)
      rw [← hsplit] at hrest
      have hloop : (sealIfFull { fed off p with part := p.drop (p.length / blockDataSize * blockDataSize) ++ data.take k } >>=
            fun w => writeLoop fuel w (data.drop k)) =
          writeBatches off (p ++ data ++ rest) (fullBatches p) (fullBatches (p ++ data)) >>= fun _ =>
            pure (fed off (p ++ data)) := by
        rw [hround, bind_assoc]
        simp only [pure_bind]
        rw [hrest, ← bind_assoc,
          ← writeBatches_append fullBatches_mono (by rw [hsplit]; exact fullBatches_mono)]
      rw [← hloop, ← hk]
      rfl

/-- The batch that the payload ends in. -/
theorem writeBatches_last {b : Nat} (hlo : b * batchBlocks < numBlocks payload.length)
    (hhi : numBlocks payload.length ≤ (b + 1) * batchBlocks) :
    writeBatches off payload b (batchCount (numBlocks payload.length)) =
      DeviceIo.pwrite (off + b * batchBlocks * blockAlignment) (encodeRange payload (b * batchBlocks) (numBlocks payload.length)) := by
  have hbb : batchBlocks = 256 := by decide
  have hcount : batchCount (numBlocks payload.length) = b + 1 := by
    unfold batchCount
    rw [hbb] at hlo hhi ⊢
    omega
  have hend : batchEnd (b * batchBlocks) (numBlocks payload.length) = numBlocks payload.length := by
    unfold batchEnd
    rw [Nat.succ_mul] at hhi
    omega
  rw [hcount, writeBatches_one]
  unfold writeBatch
  rw [hend]

omit [Crates] in
theorem flushBatch_bind {α : Type} (w : StreamingBlockWriter) (f : StreamingBlockWriter → IoM α) :
    (w.flushBatch >>= f) = DeviceIo.pwrite (w.extentOffset + w.blocksWritten * blockAlignment) w.batch >>= fun _ =>
      f { w with blocksWritten := w.blocksWritten + w.blocksInBatch, batch := [], blocksInBatch := 0 } := by
  unfold flushBatch
  rw [bind_assoc]
  rfl

/-- What `finish` writes: the batch the payload ends in, if its blocks are not all on the device. -/
theorem finish_eq {α : Type} (p : Bytes) (a : α) :
    ((fed off p).finish >>= fun _ => pure a) =
      writeBatches off p (fullBatches p) (batchCount (numBlocks p.length)) >>= fun _ => pure a := by
  have hpart := length_part p
  have hbb : batchBlocks = 256 := by decide
  have hds : blockDataSize = 4092 := by decide
  have hdm := Nat.div_add_mod p.length blockDataSize
  have hdb := Nat.div_add_mod (p.length / blockDataSize) batchBlocks
  have hmod := Nat.mod_lt (p.length / blockDataSize) (show 0 < batchBlocks by decide)
  rw [Nat.mul_comm] at hdm hdb
  unfold finish
  by_cases hempty : p.length % blockDataSize = 0
  · -- the payload ends with a block
    have hnum : numBlocks p.length = p.length / blockDataSize := by
      unfold numBlocks
      rw [hds] at hempty ⊢
      split <;> omega
    have hlast : sealLast (fed off p) = pure (fed off p) := by
      unfold sealLast
      rw [if_neg]
      rw [not_not]
      exact List.eq_nil_of_length_eq_zero (hpart.trans hempty)
    rw [hlast, pure_bind]
    by_cases hpos : 0 < p.length / blockDataSize % batchBlocks
    · rw [if_pos (show 0 < (fed off p).blocksInBatch from hpos),
        writeBatches_last (b := fullBatches p) (by unfold fullBatches; omega) (by unfold fullBatches; rw [Nat.succ_mul]; omega),
        hnum, flushBatch_bind]
      rfl
    · have hcount : batchCount (numBlocks p.length) = fullBatches p := by
        unfold batchCount fullBatches
        rw [hnum]
        rw [hbb] at hpos ⊢
        omega
      rw [if_neg (show ¬ 0 < (fed off p).blocksInBatch from hpos), hcount, writeBatches_self]
      rfl
  · -- the last block is padded
    have hnum : numBlocks p.length = p.length / blockDataSize + 1 := by
      unfold numBlocks
      rw [hds] at hempty ⊢
      split <;> omega
    have hblock : blockPart p (p.length / blockDataSize) = p.drop (p.length / blockDataSize * blockDataSize) := by
      unfold blockPart
      rw [List.take_of_length_le]
      rw [hpart]
      exact Nat.le_of_lt (Nat.mod_lt _ (by decide))
    have hbatch : (fed off p).batch ++
          leBytes blockCrcSize (crc32c (padTo blockDataSize (p.drop (p.length / blockDataSize * blockDataSize)))).toNat ++
          padTo blockDataSize (p.drop (p.length / blockDataSize * blockDataSize)) =
        encodeRange p (p.length / blockDataSize / batchBlocks * batchBlocks) (p.length / blockDataSize + 1) := by
      rw [encodeRange_succ _ (Nat.div_mul_le_self _ _), hblock, encodeBlock, List.append_assoc]
      rfl
    have hlast : sealLast (fed off p) =
        sealBlock { fed off p with part := padTo blockDataSize (p.drop (p.length / blockDataSize * blockDataSize)) } := by
      unfold sealLast
      rw [if_pos]
      · rfl
      · intro hnil
        have := congrArg List.length hnil
        exact hempty (hpart.symm.trans this)
    rw [hlast, writeBatches_last (b := fullBatches p) (by unfold fullBatches; omega)
      (by unfold fullBatches; rw [Nat.succ_mul]; omega), hnum]
    unfold sealBlock
    dsimp only
    rw [hbatch]
    by_cases hfull : p.length / blockDataSize % batchBlocks + 1 = batchBlocks
    · rw [if_pos (show (fed off p).blocksInBatch + 1 = batchBlocks from hfull), bind_assoc, flushBatch_bind]
      rfl
    · rw [if_neg (show (fed off p).blocksInBatch + 1 ≠ batchBlocks from hfull), pure_bind,
        if_pos (show 0 < (fed off p).blocksInBatch + 1 from Nat.succ_pos _), flushBatch_bind]
      rfl

end StreamingBlockWriter

/-! ## Reads of any sizes -/

open StreamingBlockWriter in
theorem writeRounds_eq {p : Bytes} (chunks : List Bytes) (rest : Bytes) :
    chunks.foldlM writeRound (fed off p, crc32c p) =
      writeBatches off (p ++ chunks.flatten ++ rest) (fullBatches p) (fullBatches (p ++ chunks.flatten)) >>= fun _ =>
        pure (fed off (p ++ chunks.flatten), crc32c (p ++ chunks.flatten)) := by
  induction chunks generalizing p with
  | nil =>
    rw [List.flatten_nil, List.append_nil, writeBatches_self, pure_bind]
    rfl
  | cons q chunks ih =>
    have hround : writeRound (fed off p, crc32c p) q =
        writeBatches off (p ++ q ++ (chunks.flatten ++ rest)) (fullBatches p) (fullBatches (p ++ q)) >>= fun _ =>
          pure (fed off (p ++ q), crc32c (p ++ q)) := by
      unfold writeRound writeChunk
      rw [writeLoop_eq (chunks.flatten ++ rest) (Nat.le_refl _), bind_assoc, crc32c_append]
      rfl
    rw [List.foldlM_cons, hround, bind_assoc, List.flatten_cons, ← List.append_assoc, ← List.append_assoc]
    simp only [pure_bind]
    rw [ih, ← bind_assoc, ← writeBatches_append fullBatches_mono fullBatches_mono]

/-- However the reads cut it, a stream makes the device calls of the batched writer. -/
theorem writeStream_eq (off : Nat) (chunks : List Bytes) :
    writeStream off chunks = encodeAndWriteBatched off chunks.flatten >>= fun _ => pure (crc32c chunks.flatten) := by
  have hcount : StreamingBlockWriter.fullBatches chunks.flatten ≤ batchCount (numBlocks chunks.flatten.length) := by
    have := StreamingBlockWriter.div_le_numBlocks chunks.flatten.length
    unfold StreamingBlockWriter.fullBatches batchCount
    rw [show batchBlocks = 256 by decide]
    omega
  have hrounds : chunks.foldlM writeRound (StreamingBlockWriter.fed off [], crc32c []) = _ := writeRounds_eq chunks []
  rw [StreamingBlockWriter.fed_nil, crc32c_nil, List.nil_append, List.append_nil] at hrounds
  unfold writeStream
  rw [hrounds, bind_assoc]
  simp only [pure_bind]
  rw [StreamingBlockWriter.finish_eq, encodeAndWriteBatched_eq, writeBatches_append (Nat.zero_le _) hcount, bind_assoc]
  rfl

theorem writePayload_eq (off : Nat) (data : Bytes) :
    writePayload off data = encodeAndWriteBatched off data >>= fun _ => pure (crc32c data) := by
  unfold writePayload
  by_cases hlarge : streamingPutThreshold ≤ data.length
  · rw [if_pos hlarge, writeStream_eq, flatten_chunksOf]
  · rw [if_neg hlarge]

theorem writeSource_eq (off : Nat) (reads : List Bytes) : writeSource off reads false = writePayload off reads.flatten := by
  rw [writePayload_eq, ← writeStream_eq]
  unfold writeSource writeStream Prog.failIf
  simp

/-! ## A file that is open at a position -/

/-- An open file, and the reads that take it from its position to its end. -/
structure OpenFile where
  content : Bytes
  position : Nat
  reads : List Bytes
  reads_eq : reads.flatten = content.drop position

/-- What `put_with_meta_from_file` sees of it: the length is that of the whole file. -/
def OpenFile.source (file : OpenFile) : SourceFile where
  len := file.content.length
  reads := file.reads
  fails := false
  fits _ := by
    rw [file.reads_eq, List.length_drop]
    omega

/-- The entry of the key describes the payload, and its whole extent decodes to the payload. -/
structure StoredAs (s : Store) (key : Key) (payload : Bytes) (metaLen : Nat) : Prop where
  entry : ∃ info, s.files.lookup key = some info ∧ info.size = payload.length ∧ info.crc32c = crc32c payload ∧
    info.metaLen.toNat = metaLen ∧ info.uncompressedSize = 0 ∧
    decodeBlocks (s.io.dev.read info.offset info.paddedSize) info.size = .ok payload

variable {s : Store} {now : DateTime} {key : Key} {file : OpenFile} {body metadata : Bytes}

structure AsBuffered (s : Store) (now : DateTime) (key : Key) (file : OpenFile) (body metadata : Bytes) : Prop where
  same : (putWithMetaFromFile now key file.source (UInt16.ofNat metadata.length)).exec s =
    (putWithMeta now key body metadata).exec s
  stored : ∀ s', (putWithMetaFromFile now key file.source (UInt16.ofNat metadata.length)).exec s = (.ok (), s') →
    StoredAs s' key (file.content.drop file.position) metadata.length

/-- The buffered path on a device without compression. -/
theorem putWithMeta_plain (hcomp : s.compression = .none) (hmeta : metadata.length ≤ u16Max) :
    (putWithMeta now key body metadata).exec s = Prog.exec (do
      Prog.failIf (s.readOnly = true) .readOnly
      Prog.failIf (body ++ metadata = []) .emptyPayload
      Prog.failIf (s.maxKeyLength < keyLen key) (.keyTooLong (keyLen key) s.maxKeyLength)
      let padded ← ofExcept (paddedExtentSize (body ++ metadata).length)
      let (offset, crc) ← allocWrite padded fun offset => writePayload offset (body ++ metadata)
      modify fun s => s.replaceFile key
        { offset := offset, size := (body ++ metadata).length, paddedSize := padded, crc32c := crc,
          createdTxn := s.superblock.txnId, lastModified := now, metaLen := UInt16.ofNat metadata.length,
          uncompressedSize := 0 }) s := by
  have hplain : compressPayload s.compression (body ++ metadata) = (body ++ metadata, 0) := by
    unfold compressPayload
    rw [if_neg fun h => h.1 hcomp]
  unfold putWithMeta doPutWithMeta
  rw [Prog.exec_bind, Prog.exec_failIf, if_neg (Nat.not_lt.mpr hmeta)]
  dsimp only
  rw [Prog.exec_bind, Prog.exec_get]
  dsimp only
  rw [hplain]

theorem putWithMetaFromFile_plain {source : SourceFile} {metaLen : UInt16} (hcomp : s.compression = .none) :
    (putWithMetaFromFile now key source metaLen).exec s = Prog.exec (do
      Prog.failIf (s.readOnly = true) .readOnly
      Prog.failIf (source.len = 0) .emptyPayload
      Prog.failIf (s.maxKeyLength < keyLen key) (.keyTooLong (keyLen key) s.maxKeyLength)
      let padded ← ofExcept (paddedExtentSize source.len)
      let (offset, crc) ← allocWrite padded fun offset => writeSource offset source.reads source.fails
      modify fun s => s.replaceFile key
        { offset := offset, size := source.len, paddedSize := padded, crc32c := crc, createdTxn := s.superblock.txnId,
          lastModified := now, metaLen := metaLen, uncompressedSize := 0 }) s := by
  unfold putWithMetaFromFile
  rw [Prog.exec_bind, Prog.exec_get]
  dsimp only
  rw [if_neg (not_not.mpr hcomp)]

/-- A byte without metadata, if there is a free block and no device call fails. -/
theorem putWithMeta_byte {size off : Nat} {a a' : ExtentAllocator} (hro : s.readOnly = false) (hmax : keyLen key ≤ s.maxKeyLength)
    (hcomp : s.compression = .none) (halloc : s.allocator = some a) (ha : a.alloc blockAlignment = .ok (off, a'))
    (hio : Easy size s.io) (hsize : off + blockAlignment ≤ size) : ∃ s', (putWithMeta now key [1] []).exec s = (.ok (), s') := by
  obtain ⟨_, s', hrun, -⟩ := Prog.wp_returns (wp_putByte hro hmax hcomp halloc ha hio hsize now) fun _ _ h => h
  refine ⟨s', ?_⟩
  unfold putWithMeta
  rw [Prog.exec_bind, Prog.exec_failIf, if_neg (by decide)]
  exact hrun

/-- From its start, a file is written as its content. -/
theorem same_of_start (hcomp : s.compression = .none) (hrest : body ++ metadata = file.content.drop file.position)
    (hmeta : metadata.length ≤ u16Max) (hstart : file.position = 0) :
    (putWithMetaFromFile now key file.source (UInt16.ofNat metadata.length)).exec s =
      (putWithMeta now key body metadata).exec s := by
  rw [hstart, List.drop_zero] at hrest
  have hreads : file.source.reads.flatten = file.content := by
    show file.reads.flatten = file.content
    rw [file.reads_eq, hstart, List.drop_zero]
  have hwrite : (fun offset => writeSource offset file.source.reads file.source.fails) = fun offset =>
      writePayload offset file.content := by
    funext offset
    show writeSource offset file.source.reads false = _
    rw [writeSource_eq, hreads]
  have hempty : (Prog.failIf (file.source.len = 0) .emptyPayload : StoreM Unit) =
      Prog.failIf (file.content = []) .emptyPayload := by
    unfold Prog.failIf
    exact if_congr List.length_eq_zero_iff rfl rfl
  rw [putWithMetaFromFile_plain hcomp, putWithMeta_plain hcomp hmeta, hwrite, hempty, hrest]
  rfl

omit [Crates] in
/-- What is written and indexed, whatever the allocator hands out. -/
theorem wp_allocWrite_any {α : Type} {n : Nat} {write : Nat → IoM α} {Q : Nat → α → DeviceIo → Prop}
    (hwrite : ∀ off, Prog.wp (write off) (Q off) (fun _ _ => True) s.io) :
    Prog.wp (allocWrite n write) (fun r s' => Q r.1 r.2 s'.io) (fun _ _ => True) s := by
  have halloc : Prog.wp (allocExtent n) (fun _ s' => s'.io = s.io) (fun _ _ => True) s := by
    unfold Prog.wp allocExtent
    cases s.allocator with
    | none => trivial
    | some a =>
      dsimp only
      cases a.alloc n with
      | error e => trivial
      | ok r => rfl
  unfold allocWrite
  rw [Prog.wp_bind]
  refine Prog.wp_mono halloc ?_ (fun _ _ h => h)
  intro off s' hs
  rw [Prog.wp_bind, Prog.wp_onError, wp_onDevice, hs]
  refine Prog.wp_mono (hwrite off) ?_ (fun _ _ h => h)
  intro a io ha
  exact ha

/-- The size of the entry is that of the whole file; the blocks are those of the rest. -/
theorem wp_putWithMetaFromFile_plain {metaLen : UInt16} (hcomp : s.compression = .none) :
    Prog.wp (putWithMetaFromFile now key file.source metaLen)
      (fun _ s' => file.content ≠ [] ∧ ∃ info, s'.files.lookup key = some info ∧ info.size = file.content.length ∧
        info.paddedSize = numBlocks file.content.length * blockAlignment ∧
        info.crc32c = crc32c (file.content.drop file.position) ∧ info.metaLen = metaLen ∧ info.uncompressedSize = 0 ∧
        Holds s'.io.dev info.offset (file.content.drop file.position))
      (fun _ _ => True) s := by
  have hplain : (putWithMetaFromFile now key file.source metaLen).exec s = _ := putWithMetaFromFile_plain hcomp
  unfold Prog.exec at hplain
  unfold Prog.wp
  rw [hplain]
  show Prog.wp _ _ _ s
  rw [Prog.wp_bind, Prog.wp_failIf]
  refine ⟨fun _ => trivial, fun _ => ?_⟩
  rw [Prog.wp_bind, Prog.wp_failIf]
  refine ⟨fun _ => trivial, fun hlen => ?_⟩
  rw [Prog.wp_bind, Prog.wp_failIf]
  refine ⟨fun _ => trivial, fun _ => ?_⟩
  rw [Prog.wp_bind]
  refine wp_padded ?_ (Nat.pos_of_ne_zero hlen) (fun _ => trivial)
  intro _ padded hpad _ _
  rw [Prog.wp_bind]
  refine Prog.wp_mono (wp_allocWrite_any (Q := fun off crc io => Holds io.dev off (file.content.drop file.position) ∧
    crc = crc32c (file.content.drop file.position)) ?_) ?_ (fun _ _ h => h)
  · intro off
    rw [← file.reads_eq]
    show Prog.wp (writeSource off file.reads false) _ _ _
    refine Prog.wp_mono (wp_writeSource (Nat.le_refl _)) ?_ (fun _ _ _ => trivial)
    intro crc io h
    exact ⟨h.2.1, h.2.2.1⟩
  · intro r s1 hr
    obtain ⟨off, crc⟩ := r
    rw [Prog.wp_modify]
    refine ⟨fun hnil => hlen (by show file.content.length = 0; rw [hnil]; rfl), _, by rw [lookup_replaceFile, if_pos rfl], rfl,
      hpad, hr.2, rfl, rfl, ?_⟩
    rw [framed_replaceFile]
    exact hr.1

/-- A device without compression stores the rest of a file as the buffered path does exactly if the file is at its start. -/
theorem from_file_is_buffered_iff (hcomp : s.compression = .none) (hrest : body ++ metadata = file.content.drop file.position)
    (hmeta : metadata.length ≤ u16Max) :
    (file.position = 0 → AsBuffered s now key file body metadata) ∧
    ((∃ s', (putWithMetaFromFile now key file.source (UInt16.ofNat metadata.length)).exec s = (.ok (), s')) ∨
        (∃ s', (putWithMeta now key body metadata).exec s = (.ok (), s')) →
      (AsBuffered s now key file body metadata ↔ file.position = 0)) := by
  have hlen : (UInt16.ofNat metadata.length).toNat = metadata.length :=
    UInt16.toNat_ofNat_of_lt' (Nat.lt_succ_of_le hmeta)
  have hstart : file.position = 0 → AsBuffered s now key file body metadata := by
    intro hzero
    refine ⟨same_of_start hcomp hrest hmeta hzero, fun s' hrun => ?_⟩
    obtain ⟨-, info, hlook, hsize, hpad, hcrc, hmetaLen, hunc, hholds⟩ :=
      Prog.wp_ok (wp_putWithMetaFromFile_plain hcomp) hrun
    have hdrop : file.content.drop file.position = file.content := by rw [hzero, List.drop_zero]
    rw [hdrop] at hcrc hholds ⊢
    refine ⟨info, hlook, hsize, hcrc, by rw [hmetaLen, hlen], hunc, ?_⟩
    rw [hpad, hsize]
    exact hholds.decode
  refine ⟨hstart, fun hok => ⟨fun h => ?_, hstart⟩⟩
  have hrun : ∃ s', (putWithMetaFromFile now key file.source (UInt16.ofNat metadata.length)).exec s = (.ok (), s') := by
    rcases hok with hok | ⟨s', hok⟩
    · exact hok
    · exact ⟨s', h.same.trans hok⟩
  obtain ⟨s', hrun⟩ := hrun
  obtain ⟨hne, info, hlook, hsize, -⟩ := Prog.wp_ok (wp_putWithMetaFromFile_plain hcomp) hrun
  obtain ⟨info', hlook', hsize', -⟩ := (h.stored s' hrun).entry
  obtain rfl : info = info' := Option.some.inj (hlook.symm.trans hlook')
  have hpos : 0 < file.content.length := List.length_pos_iff.mpr hne
  rw [hsize, List.length_drop] at hsize'
  omega

end FromFile

/-! ### A file of two bytes -/

section Sample

open Sample

def Sample.readOn : OpenFile := ⟨[2, 1], 1, [[1]], rfl⟩

def Sample.atStart : OpenFile := ⟨[1], 0, [[1]], rfl⟩

theorem Sample.byteStore_puts : ∃ s', (putWithMeta 0 "b" [1] []).exec (byteStore [(12288, 33542144)]) = (.ok (), s') := by
  have halloc : ExtentAllocator.alloc ⟨[(12288, 33542144)], blockAlignment⟩ blockAlignment =
      .ok (12288, ⟨[(16384, 33538048)], blockAlignment⟩) := by decide
  have hkey : keyLen "b" ≤ 1024 := by decide
  have heasy : Easy 67108864 (byteStore [(12288, 33542144)]).io := ⟨rfl, rfl, rfl, rfl⟩
  exact putWithMeta_byte rfl hkey rfl rfl halloc heasy (by decide)

theorem a_file_at_its_start_is_buffered :
    ([1] : Bytes) ++ [] = atStart.content.drop atStart.position ∧
      AsBuffered (byteStore [(12288, 33542144)]) 0 "b" atStart [1] [] :=
  ⟨rfl, ((@from_file_is_buffered_iff _ (byteStore [(12288, 33542144)]) 0 "b" atStart [1] [] rfl rfl (by decide)).2
    (.inr byteStore_puts)).mpr rfl⟩

/-- The entry says two bytes, and one was left to write. -/
theorem a_file_read_on_is_not_buffered : ¬ ∀ (s : Store) (now : DateTime) (key : Key) (file : OpenFile) (body metadata : Bytes),
    s.compression = .none → body ++ metadata = file.content.drop file.position → metadata.length ≤ u16Max →
    AsBuffered s now key file body metadata := by
  intro hall
  obtain ⟨s', hput⟩ := byteStore_puts
  have hsame := hall (byteStore [(12288, 33542144)]) 0 "b" readOn [1] [] rfl rfl (by decide)
  have hrun := hsame.same.trans hput
  obtain ⟨-, info, hlook, hsize, -⟩ := Prog.wp_ok (wp_putWithMetaFromFile_plain rfl) hrun
  obtain ⟨info', hlook', hsize', -⟩ := (hsame.stored s' hrun).entry
  obtain rfl : info = info' := Option.some.inj (hlook.symm.trans hlook')
  rw [hsize] at hsize'
  exact absurd hsize' (by decide)

end Sample

end ObjStr.Raw
