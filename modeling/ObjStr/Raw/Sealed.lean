/-
  ObjStr.Raw.Sealed — what the writers of objects put on the device (`extent.rs`, `store.rs`).

  A put, a metadata update and a completed upload write whole blocks, and each block starts with the CRC of the rest of
  it: the CRC says that the block is undamaged, not whose block it is. `Seals p R` says of a device program that it
  writes nothing else; it is proved from `pwrite` up. A copy writes the blocks that it reads, as they are, and a scrub
  writes zeros.
  - `Op.seals`: every call that names a key to write to, but for the copies, writes such blocks only.
-/

import ObjStr.Raw.ReadOnly

namespace ObjStr.Raw

open ObjStr.Lib DeviceIo

section Sealed

variable [Crates]

/-! ## Blocks -/

/-- A block that starts with the CRC of the rest of it. -/
structure SealedBlock (block : Bytes) : Prop where
  length : block.length = blockAlignment
  crc : UInt32.ofNat (leNat (block.take blockCrcSize)) = crc32c (block.drop blockCrcSize)

def SealedBlocks (data : Bytes) : Prop := ∃ blocks : List Bytes, (∀ b ∈ blocks, SealedBlock b) ∧ data = blocks.flatten

theorem sealedBlocks_nil : SealedBlocks [] := ⟨[], by simp, rfl⟩

theorem SealedBlocks.append {a b : Bytes} (ha : SealedBlocks a) (hb : SealedBlocks b) : SealedBlocks (a ++ b) := by
  obtain ⟨l, hl, rfl⟩ := ha
  obtain ⟨m, hm, rfl⟩ := hb
  refine ⟨l ++ m, fun x hx => ?_, by simp⟩
  rcases List.mem_append.mp hx with hx | hx
  · exact hl x hx
  · exact hm x hx

theorem SealedBlock.blocks {b : Bytes} (h : SealedBlock b) : SealedBlocks b := ⟨[b], by simpa using h, by simp⟩

theorem SealedBlocks.whole {data : Bytes} (h : SealedBlocks data) : data.length % blockAlignment = 0 := by
  obtain ⟨l, hl, rfl⟩ := h
  induction l with
  | nil => rfl
  | cons b l ih =>
    have hb := (hl b (by simp)).length
    have hrest := ih fun x hx => hl x (by simp [hx])
    simp only [List.flatten_cons, List.length_append, hb]
    rw [Nat.add_mod_left]
    exact hrest

/-- Each block of them. -/
theorem SealedBlocks.block {data : Bytes} (h : SealedBlocks data) {i : Nat} (hi : (i + 1) * blockAlignment ≤ data.length) :
    SealedBlock (rawBlock data i) := by
  obtain ⟨l, hl, rfl⟩ := h
  induction l generalizing i with
  | nil =>
    simp only [List.flatten_nil, List.length_nil] at hi
    unfold blockAlignment at hi
    omega
  | cons b l ih =>
    have hb := hl b (by simp)
    cases i with
    | zero =>
      unfold rawBlock
      rw [Nat.zero_mul, List.drop_zero, List.flatten_cons, ← hb.length, List.take_left]
      exact hb
    | succ i =>
      have hrest : (i + 1) * blockAlignment ≤ l.flatten.length := by
        simp only [List.flatten_cons, List.length_append, hb.length] at hi
        rw [Nat.succ_mul (i + 1)] at hi
        omega
      have hskip : rawBlock (b :: l).flatten (i + 1) = rawBlock l.flatten i := by
        unfold rawBlock
        rw [Nat.succ_mul, Nat.add_comm, ← List.drop_drop, List.flatten_cons, ← hb.length, List.drop_left]
      rw [hskip]
      exact ih (fun x hx => hl x (by simp [hx])) hrest

theorem sealedBlock_encodeBlock {data : Bytes} (h : data.length ≤ blockDataSize) : SealedBlock (encodeBlock data) := by
  refine ⟨length_encodeBlock h, ?_⟩
  have hverify := verifyBlockCrc_encodeBlock data 0
  unfold verifyBlockCrc at hverify
  dsimp only at hverify
  split at hverify
  · next hcrc => exact hcrc
  · cases hverify

theorem sealedBlocks_encodeRange (payload : Bytes) (i j : Nat) : SealedBlocks (encodeRange payload i j) := by
  refine ⟨(List.range' i (j - i)).map fun k => encodeBlock (blockPart payload k), fun b hb => ?_, ?_⟩
  · obtain ⟨k, -, rfl⟩ := List.mem_map.mp hb
    exact sealedBlock_encodeBlock (length_blockPart_le payload k)
  · unfold encodeRange
    rw [List.flatMap_def]

/-! ## Device programs -/

def SealedWrite : Disk.Event → Prop
  | .write _ data _ => SealedBlocks data
  | .sync => True

/-- The program writes sealed blocks only, and what it returns has the property. -/
def Seals {α : Type} (p : IoM α) (R : α → Prop) : Prop :=
  ∀ io, Prog.wp p (fun a io' => Wrote SealedWrite io io' ∧ R a) (fun _ io' => Wrote SealedWrite io io') io

section Rules

variable {α β : Type} {p : IoM α} {R R' : α → Prop} {S : β → Prop}

theorem seals_pure {a : α} (h : R a) : Seals (pure a : IoM α) R := fun _ => ⟨Wrote.refl, h⟩

theorem seals_failIf {c : Prop} [Decidable c] {e : RawStoreError} : Seals (Prog.failIf c e) fun _ => True := by
  intro io
  rw [Prog.wp_failIf]
  exact ⟨fun _ => Wrote.refl, fun _ => ⟨Wrote.refl, trivial⟩⟩

theorem Seals.bind {f : α → IoM β} (hp : Seals p R) (hf : ∀ a, R a → Seals (f a) S) : Seals (p >>= f) S := by
  intro io
  rw [Prog.wp_bind]
  refine Prog.wp_mono (hp io) (fun a io1 h1 => ?_) (fun _ _ h => h)
  exact Prog.wp_mono (hf a h1.2 io1) (fun _ _ h => ⟨h1.1.trans h.1, h.2⟩) (fun _ _ h => h1.1.trans h)

/-- A loop whose every round keeps `S` of the value it carries. -/
theorem seals_foldlM {f : β → α → IoM β} {l : List α} {b : β} (hb : S b) (hf : ∀ b a, S b → Seals (f b a) S) :
    Seals (l.foldlM f b) S := by
  induction l generalizing b with
  | nil => exact seals_pure hb
  | cons a l ih =>
    rw [List.foldlM_cons]
    exact (hf b a hb).bind fun b' hb' => ih hb'

theorem seals_of_reads (h : Reads p) : Seals p fun _ => True :=
  fun io => Prog.wp_mono (h io) (fun _ _ ha => ⟨ha.wrote, trivial⟩) (fun _ _ ha => ha.1.wrote)

end Rules

omit [Crates] in
/-- Whole blocks are not padded. -/
theorem padded_of_whole {data : Bytes} (h : data.length % blockAlignment = 0) (io : DeviceIo) : io.padded data = data := by
  unfold padded
  split
  · rw [alignLen_of_aligned h, Nat.sub_self, List.replicate_zero, List.append_nil]
  · rfl

theorem seals_pwrite {off : Nat} {data : Bytes} (h : SealedBlocks data) : Seals (pwrite off data) fun _ => True := by
  intro io
  have hpad := padded_of_whole h.whole io
  refine Prog.wp_mono (wp_pwrite off data) (fun _ io' hdone => ?_) (fun _ io' hfailed => ?_)
  · obtain ⟨io1, ha, rfl⟩ := hdone.2
    rw [hpad]
    exact ⟨ha.wrote_push h, trivial⟩
  · obtain ⟨io1, ha, hio⟩ := hfailed.1
    rcases hio with rfl | ⟨landed, rfl⟩
    · exact ha.wrote
    · rw [hpad]
      exact ha.wrote_push h

theorem seals_encodeAndWriteBatched (off : Nat) (payload : Bytes) :
    Seals (encodeAndWriteBatched off payload) fun _ => True := by
  unfold encodeAndWriteBatched
  dsimp only
  rw [Prog.forM_eq_foldlM]
  exact seals_foldlM (S := fun _ => True) trivial fun _ _ _ => seals_pwrite (sealedBlocks_encodeRange _ _ _)

/-! ## The streaming writer -/

namespace StreamingBlockWriter

/-- The blocks that wait are sealed, and the one being filled is not too long. -/
structure Tidy (w : StreamingBlockWriter) : Prop where
  batch : SealedBlocks w.batch
  part : w.part.length ≤ blockDataSize

variable {w : StreamingBlockWriter}

theorem tidy_new (off : Nat) : (new off).Tidy := ⟨sealedBlocks_nil, Nat.zero_le _⟩

theorem seals_flushBatch (h : w.Tidy) : Seals w.flushBatch Tidy :=
  (seals_pwrite h.batch).bind fun _ _ => seals_pure ⟨sealedBlocks_nil, h.part⟩

theorem seals_sealBlock (h : w.Tidy) (hfull : w.part.length = blockDataSize) : Seals w.sealBlock Tidy := by
  have hpad : padTo blockDataSize w.part = w.part := by
    unfold padTo
    rw [hfull, Nat.sub_self, List.replicate_zero, List.append_nil]
  have hblock : SealedBlock (leBytes blockCrcSize (crc32c w.part).toNat ++ w.part) := by
    have henc := sealedBlock_encodeBlock h.part
    unfold encodeBlock at henc
    rwa [hpad] at henc
  have htidy : Tidy { w with
      batch := w.batch ++ leBytes blockCrcSize (crc32c w.part).toNat ++ w.part, part := [], blocksInBatch := w.blocksInBatch + 1 } := by
    refine ⟨?_, Nat.zero_le _⟩
    dsimp only
    rw [List.append_assoc]
    exact h.batch.append hblock.blocks
  unfold sealBlock
  dsimp only
  split
  · exact seals_flushBatch htidy
  · exact seals_pure htidy

theorem seals_sealIfFull (h : w.Tidy) : Seals w.sealIfFull Tidy := by
  unfold sealIfFull
  split
  · next hfull => exact seals_sealBlock h hfull
  · exact seals_pure h

theorem seals_writeLoop (fuel : Nat) (h : w.Tidy) (data : Bytes) : Seals (writeLoop fuel w data) Tidy := by
  induction fuel generalizing w data with
  | zero => exact seals_pure h
  | succ fuel ih =>
    unfold writeLoop
    split
    · exact seals_pure h
    · have hpart : Tidy { w with part := w.part ++ data.take (min data.length (blockDataSize - w.part.length)) } := by
        refine ⟨h.batch, ?_⟩
        have hle := h.part
        simp only [List.length_append, List.length_take]
        omega
      exact (seals_sealIfFull hpart).bind fun w' hw' => ih hw' _

theorem seals_writeChunk (h : w.Tidy) (data : Bytes) : Seals (w.writeChunk data) Tidy := seals_writeLoop data.length h data

theorem seals_finish (h : w.Tidy) : Seals w.finish Tidy := by
  have hlast : Seals w.sealLast Tidy := by
    unfold sealLast
    split
    · have hlen : (padTo blockDataSize w.part).length = blockDataSize := length_padTo h.part
      exact seals_sealBlock (w := { w with part := padTo blockDataSize w.part }) ⟨h.batch, Nat.le_of_eq hlen⟩ hlen
    · exact seals_pure h
  refine hlast.bind fun w' hw' => ?_
  split
  · exact seals_flushBatch hw'
  · exact seals_pure hw'

end StreamingBlockWriter

def StreamTidy (st : StreamingBlockWriter × UInt32) : Prop := st.1.Tidy

variable {st : StreamingBlockWriter × UInt32}

theorem streamTidy_new (off : Nat) (crc : UInt32) : StreamTidy (.new off, crc) := StreamingBlockWriter.tidy_new off

theorem seals_writeRound (h : StreamTidy st) (chunk : Bytes) : Seals (writeRound st chunk) StreamTidy :=
  (StreamingBlockWriter.seals_writeChunk h chunk).bind fun _ hw => seals_pure hw

theorem seals_writeRounds (off : Nat) (chunks : List Bytes) : Seals (chunks.foldlM writeRound (.new off, 0)) StreamTidy :=
  seals_foldlM (S := StreamTidy) (streamTidy_new off 0) fun _ chunk hst => seals_writeRound hst chunk

theorem seals_streamFinish (h : StreamTidy st) : Seals (do let _ ← st.1.finish; pure st.2) fun _ => True :=
  (StreamingBlockWriter.seals_finish h).bind fun _ _ => seals_pure trivial

theorem seals_writePayload (off : Nat) (data : Bytes) : Seals (writePayload off data) fun _ => True := by
  unfold writePayload
  split
  · exact (seals_writeRounds off _).bind fun _ hst => seals_streamFinish hst
  · exact (seals_encodeAndWriteBatched off data).bind fun _ _ => seals_pure trivial

theorem seals_writeSource (off : Nat) (reads : List Bytes) (fails : Bool) :
    Seals (writeSource off reads fails) fun _ => True := by
  refine (seals_writeRounds off reads).bind fun _ hst => ?_
  exact seals_failIf.bind fun _ _ => seals_streamFinish hst

/-! ## Rewriting -/

theorem reads_nextChunk (r : StreamingBlockReader) : Reads r.nextChunk := by
  unfold StreamingBlockReader.nextChunk
  split
  · exact reads_pure _
  · refine reads_bind (reads_pread _ _) fun _ => ?_
    exact reads_bind (reads_ofExcept (foldlM_decodeStep_ne _ _ _ _ _)) fun _ => reads_pure _

theorem seals_copyBody (fuel : Nat) (reader : StreamingBlockReader) (h : StreamTidy st) (remaining : Nat) :
    Seals (copyBody fuel reader st remaining) StreamTidy := by
  induction fuel generalizing reader st remaining with
  | zero => exact seals_pure h
  | succ fuel ih =>
    unfold copyBody
    split
    · exact seals_pure h
    · refine (seals_of_reads (reads_nextChunk reader)).bind fun c _ => ?_
      obtain ⟨chunk, reader'⟩ := c
      cases chunk with
      | none => exact seals_pure h
      | some chunk => exact (seals_writeRound h _).bind fun st' hst => ih reader' hst _

theorem seals_rewriteBody (info : ExtentInfo) (metadata : Bytes) (off : Nat) :
    Seals (rewriteBody info metadata off) fun _ => True := by
  refine (seals_copyBody _ _ (streamTidy_new off 0) _).bind fun st hst => ?_
  have happend : Seals (appendMetadata st metadata) StreamTidy := by
    unfold appendMetadata
    split
    · exact seals_pure hst
    · exact seals_writeRound hst metadata
  exact happend.bind fun _ h => seals_streamFinish h

theorem seals_writeParts (c : Compression) (off : Nat) (parts : List ExtentInfo) :
    Seals (writeParts c off parts) fun _ => True := by
  have hpart : ∀ st info, StreamTidy st → Seals (writePart c st info) StreamTidy := fun st info hst =>
    (seals_of_reads (reads_readPayload c info)).bind fun content _ => seals_writeRound hst content
  exact (seals_foldlM (S := StreamTidy) (streamTidy_new off 0) hpart).bind fun _ hst => seals_streamFinish hst

/-! ## Calls -/

def Sealing {α : Type} (p : StoreM α) : Prop :=
  ∀ s, Prog.wp p (fun _ s' => Wrote SealedWrite s.io s'.io) (fun _ s' => Wrote SealedWrite s.io s'.io) s

section Calls

variable {α β : Type} {p : StoreM α} {f : α → StoreM β} {c : Prop} [Decidable c] {e : RawStoreError}

theorem sealing_pure (a : α) : Sealing (pure a : StoreM α) := fun _ => Wrote.refl

theorem sealing_get : Sealing (get : StoreM Store) := fun _ => Wrote.refl

theorem sealing_failIf : Sealing (Prog.failIf c e) := by
  intro s
  rw [Prog.wp_failIf]
  exact ⟨fun _ => Wrote.refl, fun _ => Wrote.refl⟩

theorem sealing_ofExcept (r : Except RawStoreError α) : Sealing (ofExcept r) := by
  intro s
  rw [wp_ofExcept]
  cases r <;> exact Wrote.refl

theorem sealing_modify {g : Store → Store} (hg : ∀ s, (g s).io = s.io) : Sealing (modify g) := by
  intro s
  rw [Prog.wp_modify, hg]
  exact Wrote.refl

theorem sealing_bind (hp : Sealing p) (hf : ∀ a, Sealing (f a)) : Sealing (p >>= f) := by
  intro s
  rw [Prog.wp_bind]
  refine Prog.wp_mono (hp s) (fun a s1 h1 => ?_) (fun _ _ h => h)
  exact Prog.wp_mono (hf a s1) (fun _ _ h => h1.trans h) (fun _ _ h => h1.trans h)

theorem sealing_onDevice {R : α → Prop} {p : IoM α} (h : Seals p R) : Sealing (onDevice p) := by
  intro s
  rw [wp_onDevice]
  exact Prog.wp_mono (h s.io) (fun _ _ h => h.1) (fun _ _ h => h)

theorem sealing_getFile (key : Key) : Sealing (getFile key) := by
  intro s
  refine wp_getFile (fun _ _ => ?_) (fun _ => ?_)
  · exact Wrote.refl
  · exact Wrote.refl

theorem sealing_allocWrite {R : α → Prop} (n : Nat) {body : Nat → IoM α} (h : ∀ off, Seals (body off) R) :
    Sealing (allocWrite n body) := by
  have halloc : Sealing (allocExtent n) := by
    intro s
    unfold Prog.wp allocExtent
    cases s.allocator with
    | none => exact Wrote.refl
    | some a =>
      dsimp only
      cases a.alloc n with
      | error e => exact Wrote.refl
      | ok r => exact Wrote.refl
  refine sealing_bind halloc fun off => sealing_bind ?_ fun _ => sealing_pure _
  intro s
  rw [Prog.wp_onError]
  exact sealing_onDevice (h off) s

end Calls

theorem sealing_doPutWithMeta (now : DateTime) (key : Key) (payload : Bytes) (metaLen : UInt16) :
    Sealing (doPutWithMeta now key payload metaLen) := by
  refine sealing_bind sealing_get fun s => sealing_bind sealing_failIf fun _ => sealing_bind sealing_failIf fun _ =>
    sealing_bind sealing_failIf fun _ => ?_
  refine sealing_bind (sealing_ofExcept _) fun padded => ?_
  refine sealing_bind (sealing_allocWrite padded fun off => seals_writePayload off _) fun r => ?_
  exact sealing_modify fun s => (framed_replaceFile s key _).io_eq

theorem sealing_putOpts (now : DateTime) (key : Key) (payload : Bytes) (mode : PutMode) :
    Sealing (putOpts now key payload mode) := by
  have hput : Sealing (doPut now key payload) := sealing_doPutWithMeta now key payload 0
  refine sealing_bind sealing_get fun s => ?_
  cases mode with
  | create => exact sealing_bind sealing_failIf fun _ => hput
  | overwrite => exact hput
  | update conditional => exact sealing_bind sealing_failIf fun _ => hput

theorem sealing_putWithMeta (now : DateTime) (key : Key) (body metadata : Bytes) :
    Sealing (putWithMeta now key body metadata) :=
  sealing_bind sealing_failIf fun _ => sealing_doPutWithMeta now key _ _

theorem sealing_putWithMetaFromFile (now : DateTime) (key : Key) (file : SourceFile) (metaLen : UInt16) :
    Sealing (putWithMetaFromFile now key file metaLen) := by
  refine sealing_bind sealing_get fun s => ?_
  split
  · exact sealing_bind sealing_failIf fun _ => sealing_doPutWithMeta now key _ metaLen
  · refine sealing_bind sealing_failIf fun _ => sealing_bind sealing_failIf fun _ => sealing_bind sealing_failIf fun _ => ?_
    refine sealing_bind (sealing_ofExcept _) fun padded => ?_
    refine sealing_bind (sealing_allocWrite padded fun off => seals_writeSource off _ _) fun r => ?_
    exact sealing_modify fun s => (framed_replaceFile s key _).io_eq

theorem sealing_updateMetadata (now : DateTime) (key : Key) (metadata : Bytes) : Sealing (updateMetadata now key metadata) := by
  refine sealing_bind sealing_failIf fun _ => sealing_bind (sealing_getFile key) fun info => ?_
  have hbody : Sealing (compressedBody key info) := by
    unfold compressedBody
    split
    · exact sealing_pure _
    · refine sealing_bind ?_ fun _ => sealing_pure _
      refine sealing_bind (sealing_getFile key) fun info' => sealing_bind sealing_get fun s => ?_
      refine sealing_bind (sealing_onDevice (seals_of_reads ?_)) fun _ => sealing_pure _
      exact reads_nameCorruption (reads_readPayload _ _)
  split
  · exact sealing_bind hbody fun _ => sealing_doPutWithMeta now key _ _
  · refine sealing_bind sealing_get fun s => sealing_bind sealing_failIf fun _ => sealing_bind sealing_failIf fun _ => ?_
    refine sealing_bind (sealing_ofExcept _) fun padded => ?_
    refine sealing_bind (sealing_allocWrite padded fun off => seals_rewriteBody info metadata off) fun r => ?_
    exact sealing_modify fun s => (framed_replaceFile s key _).io_eq

theorem sealing_complete (now : DateTime) (tmp : TempFile) (location : Key) (partKeys : List Key) :
    Sealing (complete now tmp location partKeys) := by
  have hinfos : Sealing (partInfos partKeys) := by
    intro s
    unfold Prog.wp partInfos
    cases partKeys.find? fun k => (s.files.lookup k).isNone with
    | none => exact Wrote.refl
    | some k => exact Wrote.refl
  refine sealing_bind sealing_failIf fun _ => sealing_bind hinfos fun parts => sealing_bind sealing_get fun s => ?_
  refine sealing_bind (sealing_onDevice (seals_of_reads (reads_planParts _ parts))) fun plan => ?_
  refine sealing_bind (sealing_ofExcept _) fun padded => ?_
  refine sealing_bind (sealing_allocWrite (R := fun _ => True) padded fun off => ?_) fun r => ?_
  · split
    · exact seals_writeSource off _ _
    · exact seals_writeParts _ off parts
  · exact sealing_modify fun s => ((framed_replaceFile s location _).trans (framed_dropParts _ partKeys)).io_eq

def Op.target : Op → Option Key
  | .putOpts key .. | .putWithMeta key .. | .putWithMetaFromFile key .. | .updateMetadata key .. | .putPart key _ => some key
  | .copy _ toKey | .copyIfNotExists _ toKey => some toKey
  | .complete _ location _ => some location
  | _ => none

/-- A copy writes what it reads. -/
def Op.Copies : Op → Prop
  | .copy .. | .copyIfNotExists .. => True
  | _ => False

/-- Every other call that writes for a key writes sealed blocks. -/
theorem Op.seals {op : Op} {key : Key} (htarget : op.target = some key) (hcopies : ¬ op.Copies) (now : DateTime) :
    Sealing (op.run now) := by
  cases op with
  | putOpts key payload mode => exact sealing_putOpts now key payload mode
  | putWithMeta key body metadata => exact sealing_putWithMeta now key body metadata
  | putWithMetaFromFile key file metaLen => exact sealing_putWithMetaFromFile now key file metaLen
  | updateMetadata key metadata => exact sealing_updateMetadata now key metadata
  | putPart key payload => exact sealing_doPutWithMeta now key payload 0
  | complete tmp location partKeys => exact sealing_complete now tmp location partKeys
  | copy | copyIfNotExists => exact absurd trivial hcopies
  | _ => cases htarget

end Sealed

end ObjStr.Raw
