/-
  ObjStr.Raw.Codec — all block writers and readers of `extent.rs` are one codec.

  The writers: a payload from one buffer in batches, or in chunks of any lengths. The readers: the whole
  extent at once, in batches, chunk by chunk, as a byte stream into buffers of any lengths
  (`BlockReaderIo`), and the blocks of a range.
  - `wp_writeChunks`: however a payload is cut into chunks, its reference encoding is written.
  - `exec_readThrough`: whatever the buffers of the byte stream are, it gives the payload, and then its end.
  - `block_codecs_agree`: both writers leave the same device, and every reader gives the payload back.
-/

import ObjStr.Raw.Ranges

namespace ObjStr.Raw

open ObjStr.Lib DeviceIo

section Codec

variable [Crates]

/-! ## Writing in chunks -/

/-- A `StreamingBlockWriter` is fed the chunks and finished. -/
def writeChunks (extentOffset : Nat) (chunks : List Bytes) : IoM Unit := do
  let w ← chunks.foldlM StreamingBlockWriter.writeChunk (.new extentOffset)
  let _ ← w.finish
  pure ()

theorem wp_feed {off n : Nat} {io0 io : DeviceIo} {chunks : List Bytes} {p : Bytes} {w : StreamingBlockWriter}
    (h : w.Fed off n io0 p io) (hn : numBlocks (p ++ chunks.flatten).length ≤ n) :
    Prog.wp (chunks.foldlM StreamingBlockWriter.writeChunk w) (fun w' io' => w'.Fed off n io0 (p ++ chunks.flatten) io')
      (fun _ io' => Wrote (Inside (extentSpan off n)) io0 io' ∧ ¬ Ready io0 off n) io := by
  induction chunks generalizing p w io with
  | nil => simpa using h
  | cons q chunks ih =>
    rw [List.flatten_cons, ← List.append_assoc] at hn ⊢
    rw [List.foldlM_cons, Prog.wp_bind]
    refine Prog.wp_mono (StreamingBlockWriter.wp_writeChunk h ?_) ?_ (fun _ _ he => he)
    · exact Nat.le_trans (StreamingBlockWriter.numBlocks_mono (by simp)) hn
    · intro w' io' h'
      exact ih h' hn

/-- The chunks together are written as they would be from one buffer. -/
theorem wp_writeChunks (io : DeviceIo) (off : Nat) (chunks : List Bytes) :
    Prog.wp (writeChunks off chunks)
      (fun _ io' => Wrote (Inside (extentSpan off (numBlocks chunks.flatten.length))) io io' ∧
        io'.dev.read off (numBlocks chunks.flatten.length * blockAlignment) = encodeBlocks chunks.flatten ∧
        (io.script = [] → io'.script = []))
      (fun _ io' => Wrote (Inside (extentSpan off (numBlocks chunks.flatten.length))) io io' ∧
        ¬ Ready io off (numBlocks chunks.flatten.length)) io := by
  unfold writeChunks
  rw [Prog.wp_bind]
  have hfed := @wp_feed _ off (numBlocks chunks.flatten.length) io io chunks [] (.new off)
    (StreamingBlockWriter.fed_new off _ io) (by simp)
  rw [List.nil_append] at hfed
  refine Prog.wp_mono hfed ?_ (fun _ _ he => he)
  intro w io' hw
  rw [Prog.wp_bind]
  exact Prog.wp_mono (StreamingBlockWriter.wp_finish hw (Nat.le_refl _)) (fun _ _ h => h) (fun _ _ he => he)

/-! ## The byte stream -/

/-- `BlockReaderIo`: a reader, and the chunk it gives out. An `io::Error` stands for the error whose text it has. -/
structure BlockReaderIo where
  reader : StreamingBlockReader
  buf : Bytes
  /-- Read position within `buf`. -/
  pos : Nat
  /-- A read that failed fails again. -/
  err : Option RawStoreError

namespace BlockReaderIo

def new (extentOffset payloadSize : Nat) : BlockReaderIo := ⟨.new extentOffset payloadSize, [], 0, none⟩

def serve (r : BlockReaderIo) (dstLen : Nat) : Bytes × BlockReaderIo :=
  let n := min (r.buf.length - r.pos) dstLen
  ((r.buf.drop r.pos).take n, { r with pos := r.pos + n })

/-- `read`: the bytes copied to a buffer of `dstLen` bytes; none at the end. An exhausted buffer is replaced by the
    next chunk, which is served in the loop's second round. -/
def read (r : BlockReaderIo) (dstLen : Nat) : IoM (Except RawStoreError Bytes × BlockReaderIo) :=
  match r.err with
  | some e => pure (.error e, r)
  | none =>
    if r.pos < r.buf.length then pure (.ok (r.serve dstLen).1, (r.serve dstLen).2)
    else do
      match ← Prog.attempt r.reader.nextChunk with
      | .ok (some chunk, reader) =>
        let r : BlockReaderIo := { r with reader }
        if chunk = [] then pure (.ok [], r)
        else
          let r : BlockReaderIo := { r with buf := chunk, pos := 0 }
          pure (.ok (r.serve dstLen).1, (r.serve dstLen).2)
      | .ok (none, reader) => pure (.ok [], { r with reader })
      | .error (.panic reason) => throw (.panic reason)
      | .error e => pure (.error e, { r with err := some e })

/-- Read into one buffer after the other until a read gives nothing: the bytes, and whether the end was reached. -/
def readThrough : List Nat → BlockReaderIo → IoM (Except RawStoreError (Bytes × Bool))
  | [], _ => pure (.ok ([], false))
  | len :: sizes, r => do
    match ← r.read len with
    | (.error e, _) => pure (.error e)
    | (.ok bytes, r) =>
      if bytes = [] then pure (.ok ([], true))
      else do
        let rest ← readThrough sizes r
        pure (rest.map fun x => (bytes ++ x.1, x.2))

/-- The stream has given `given` of the payload, and its buffer holds what was read beyond that. -/
structure Gave (off : Nat) (p : Bytes) (r : BlockReaderIo) (given : Bytes) (j : Nat) : Prop where
  reader_eq : r.reader = .after off p.length j
  err_eq : r.err = none
  pos_le : r.pos ≤ r.buf.length
  read_eq : given ++ r.buf.drop r.pos = p.take (min (min (j * batchBlocks) (numBlocks p.length) * blockDataSize) p.length)

variable {off : Nat} {p given : Bytes} {r : BlockReaderIo} {j dstLen : Nat} {io : DeviceIo}

omit [Crates] in
theorem gave_new (off : Nat) (p : Bytes) : Gave off p (new off p.length) [] 0 :=
  ⟨(StreamingBlockReader.after_zero off p.length).symm, rfl, Nat.le_refl _, by simp [new]⟩

omit [Crates] in
/-- Serving a buffer that is not exhausted moves bytes from the buffer to what was given. -/
theorem Gave.serve (h : Gave off p r given j) (hpos : r.pos < r.buf.length) (hdst : 0 < dstLen) :
    (r.serve dstLen).1 ≠ [] ∧ Gave off p (r.serve dstLen).2 (given ++ (r.serve dstLen).1) j := by
  have hle : min (r.buf.length - r.pos) dstLen ≤ r.buf.length - r.pos := Nat.min_le_left _ _
  have hlen : (r.serve dstLen).1.length = min (r.buf.length - r.pos) dstLen := by
    simp only [BlockReaderIo.serve, List.length_take, List.length_drop]
    omega
  refine ⟨?_, h.reader_eq, h.err_eq, ?_, ?_⟩
  · intro hnil
    rw [hnil, List.length_nil] at hlen
    omega
  · show r.pos + min (r.buf.length - r.pos) dstLen ≤ r.buf.length
    omega
  · rw [← h.read_eq, List.append_assoc]
    congr 1
    show (r.buf.drop r.pos).take _ ++ r.buf.drop (r.pos + _) = _
    rw [← List.drop_drop, List.take_append_drop]

omit [Crates] in
/-- Before the last batch there are payload bytes to come. -/
theorem lt_of_batch (size j : Nat) (hj : j < batchCount (numBlocks size)) :
    min (min (j * batchBlocks) (numBlocks size) * blockDataSize) size <
      min (min ((j + 1) * batchBlocks) (numBlocks size) * blockDataSize) size := by
  have hn : j * batchBlocks < numBlocks size := by
    unfold batchCount batchBlocks at *
    omega
  have hlast : (numBlocks size - 1) * blockDataSize < size := by
    have hpos : 0 < numBlocks size := by omega
    unfold numBlocks at hpos ⊢
    by_cases h0 : size = 0
    · simp [h0] at hpos
    · rw [if_neg h0]
      unfold blockDataSize blockAlignment blockCrcSize
      omega
  have hspec := numBlocks_spec size
  have hb : 0 < batchBlocks := by decide
  have hd : 0 < blockDataSize := by decide
  have h1 : j * batchBlocks * blockDataSize ≤ (numBlocks size - 1) * blockDataSize := Nat.mul_le_mul_right _ (by omega)
  have h2 : j * batchBlocks * blockDataSize < min ((j + 1) * batchBlocks) (numBlocks size) * blockDataSize :=
    Nat.mul_lt_mul_of_pos_right (by rw [Nat.succ_mul]; omega) hd
  rw [Nat.min_eq_left (Nat.le_of_lt hn)]
  omega

/-- One read gives more of the payload, or all of it has been given. -/
theorem exec_read (hcalm : Calm io off (numBlocks p.length * blockAlignment)) (hp : Holds io.dev off p)
    (h : Gave off p r given j) (hdst : 0 < dstLen) :
    (∃ bytes r' j', bytes ≠ [] ∧ (r.read dstLen).exec io = (.ok (.ok bytes, r'), io) ∧ Gave off p r' (given ++ bytes) j') ∨
    (∃ r', (r.read dstLen).exec io = (.ok (.ok [], r'), io)) ∧ given = p := by
  unfold BlockReaderIo.read
  rw [h.err_eq]
  dsimp only
  by_cases hpos : r.pos < r.buf.length
  · left
    rw [if_pos hpos]
    obtain ⟨hne, hgave⟩ := h.serve hpos hdst
    exact ⟨_, _, j, hne, rfl, hgave⟩
  · have hdrop : r.buf.drop r.pos = [] := List.drop_eq_nil_of_le (Nat.le_of_not_lt hpos)
    have hgiven := h.read_eq
    rw [hdrop, List.append_nil] at hgiven
    rw [if_neg hpos, Prog.exec_bind, h.reader_eq]
    have hc := hp.decodeBatches j
    have hc' := hp.decodeBatches (j + 1)
    rcases exec_nextChunk hcalm hc with ⟨hge, hrun⟩ | ⟨hlt, chunk, hd, hrun⟩ | ⟨hlt, e, hd, hrun⟩
    · right
      have hall := decodeBatches_all io.dev off p.length hge
      rw [hc, hp.decode] at hall
      refine ⟨⟨⟨.after off p.length j, r.buf, r.pos, none⟩, ?_⟩, ?_⟩
      · rw [Prog.exec_attempt, hrun]
        rfl
      · rw [hgiven]
        exact Except.ok.inj hall
    · left
      rw [hc'] at hd
      have hchunk := Except.ok.inj hd
      have hne : chunk ≠ [] := by
        intro hnil
        have hlen := congrArg List.length hchunk
        rw [hnil, List.append_nil, List.length_take, List.length_take] at hlen
        have := lt_of_batch p.length j hlt
        omega
      let r' : BlockReaderIo := ⟨.after off p.length (j + 1), chunk, 0, none⟩
      have hgave : Gave off p r' given (j + 1) := ⟨rfl, rfl, Nat.zero_le _, by rw [hchunk, hgiven]; rfl⟩
      obtain ⟨hne', hgave'⟩ := hgave.serve (List.length_pos_iff.mpr hne) hdst
      refine ⟨_, _, j + 1, hne', ?_, hgave'⟩
      rw [Prog.exec_attempt, hrun]
      dsimp only
      rw [if_neg hne]
      rfl
    · rw [hc'] at hd
      cases hd

/-- Whatever the buffers are, the stream gives the payload from the front, and its end after all of it. -/
theorem exec_readThrough (hcalm : Calm io off (numBlocks p.length * blockAlignment)) (hp : Holds io.dev off p)
    {sizes : List Nat} (hsizes : ∀ len ∈ sizes, 0 < len) (h : Gave off p r given j) :
    ∃ bytes ended, (readThrough sizes r).exec io = (.ok (.ok (bytes, ended)), io) ∧ (given ++ bytes) <+: p ∧
      (ended = true → given ++ bytes = p) ∧ (p.length < given.length + sizes.length → ended = true) := by
  induction sizes generalizing r given j with
  | nil =>
    have hpre : given <+: p := by
      have ht : given <+: given ++ r.buf.drop r.pos := List.prefix_append _ _
      rw [h.read_eq] at ht
      exact ht.trans (List.take_prefix _ _)
    refine ⟨[], false, rfl, by rw [List.append_nil]; exact hpre, nofun, ?_⟩
    intro hlt
    have hle := hpre.length_le
    simp only [List.length_nil] at hlt
    omega
  | cons len sizes ih =>
    rw [readThrough, Prog.exec_bind]
    rcases exec_read hcalm hp h (hsizes len (by simp)) with ⟨bytes, r', j', hne, hrun, hgave⟩ | ⟨⟨r', hrun⟩, hall⟩
    · obtain ⟨rest, ended, hrest, hpre, hend, hlong⟩ := ih (fun l hl => hsizes l (by simp [hl])) hgave
      have hpos : 0 < bytes.length := List.length_pos_iff.mpr hne
      refine ⟨bytes ++ rest, ended, ?_, ?_, ?_, ?_⟩
      · rw [hrun]
        dsimp only
        rw [if_neg hne, Prog.exec_bind, hrest]
        rfl
      · rw [← List.append_assoc]
        exact hpre
      · rw [← List.append_assoc]
        exact hend
      · intro hlt
        apply hlong
        simp only [List.length_cons, List.length_append] at hlt ⊢
        omega
    · refine ⟨[], true, ?_, ?_, ?_, fun _ => rfl⟩
      · rw [hrun]
        rfl
      · rw [List.append_nil, hall]
      · intro _
        rw [List.append_nil, hall]

end BlockReaderIo

/-! ## One codec -/

omit [Crates] in
/-- Two devices that were written inside a span, and read the same there, are the same. -/
theorem dev_eq_of_wrote {io io1 io2 : DeviceIo} {off len : Nat} (h1 : Wrote (Inside (off, len)) io io1)
    (h2 : Wrote (Inside (off, len)) io io2) (hr : io1.dev.read off len = io2.dev.read off len) : io1.dev = io2.dev := by
  have hbyte : io1.dev.byte = io2.dev.byte := by
    funext a
    by_cases ha : off ≤ a ∧ a < off + len
    · exact Disk.byte_eq_of_read_eq hr ha.1 ha.2
    · have hout : ∀ e, Inside (off, len) e → ¬ e.Reaches a := fun e he hreach => ha (Inside.reaches he hreach)
      rw [h1.byte_eq hout, h2.byte_eq hout]
  have hsize : io1.dev.size = io2.dev.size := h1.size_eq.trans h2.size_eq.symm
  cases hd1 : io1.dev
  cases hd2 : io2.dev
  simp only [hd1, hd2] at hbyte hsize
  rw [hbyte, hsize]

omit [Crates] in
/-- A slice that fits into memory has blocks that can be counted in bytes. -/
theorem paddedExtentSize_eq {size : Nat} (h : size < 2 ^ 63) :
    paddedExtentSize size = .ok (numBlocks size * blockAlignment) := by
  unfold paddedExtentSize
  rw [if_pos]
  unfold numBlocks blockDataSize blockAlignment blockCrcSize u64Max
  split <;> omega

/-- What the readers give of an extent that holds a payload, on a device whose calls do not fail. -/
structure ReadBack (io : DeviceIo) (off : Nat) (payload : Bytes) : Prop where
  decode : decodeBlocks (io.dev.read off (numBlocks payload.length * blockAlignment)) payload.length = .ok payload
  batched : (readAndDecodeBatched off payload.length).exec io = (.ok payload, io)
  /-- The chunks of a `StreamingBlockReader`, one after the other. -/
  chunks : (GetStream.blocks (.new off payload.length) []).consume.exec io = (.ok payload, io)
  /-- However small the buffers are, that many reach the end. -/
  bytes : ∀ sizes : List Nat, (∀ len ∈ sizes, 0 < len) → payload.length < sizes.length →
    (BlockReaderIo.readThrough sizes (.new off payload.length)).exec io = (.ok (.ok (payload, true)), io)
  /-- Any blocks that cover the range. -/
  range : ∀ first n start stop, first + n ≤ numBlocks payload.length → first * blockDataSize ≤ start →
    stop ≤ payload.length → stop ≤ (first + n) * blockDataSize →
    decodeBlockRange (io.dev.read (off + first * blockAlignment) (n * blockAlignment)) first start stop =
      .ok (slice payload start stop)

theorem readBack_of_holds {io : DeviceIo} {off : Nat} {payload : Bytes}
    (hcalm : Calm io off (numBlocks payload.length * blockAlignment)) (h : Holds io.dev off payload) :
    ReadBack io off payload where
  decode := h.decode
  batched := by rw [exec_readAndDecodeBatched hcalm, rawExtent, h.decode]
  chunks := by rw [GetStream.consume_blocks hcalm, rawExtent, h.decode]
  bytes sizes hsizes hlong := by
    obtain ⟨bytes, ended, hrun, -, hend, hdone⟩ :=
      BlockReaderIo.exec_readThrough hcalm h hsizes (BlockReaderIo.gave_new off payload)
    have he := hdone (by rw [List.length_nil, Nat.zero_add]; exact hlong)
    have hb := hend he
    rw [List.nil_append] at hb
    rw [hrun, he, hb]
  range _ _ _ _ hn hfirst hstop hlast := decodeBlockRange_holds h hn hfirst hstop hlast

/-- Where no call fails, a payload written from one buffer and one written in any chunks leave the same device: the
    reference encoding in the bytes that `padded_extent_size` counts, and the rest as it was. Every reader gives
    the payload back from it. -/
theorem block_codecs_agree (payload : Bytes) (hne : payload ≠ []) (hlen : payload.length < 2 ^ 63) (off : Nat)
    (chunks : List Bytes) (hchunks : chunks.flatten = payload) (io : DeviceIo) (hio : io.Ready off (numBlocks payload.length)) :
    ∃ io1 io2, (encodeAndWriteBatched off payload).exec io = (.ok (), io1) ∧
      (writeChunks off chunks).exec io = (.ok (), io2) ∧ io2.dev = io1.dev ∧
      (∃ padded, paddedExtentSize payload.length = .ok padded ∧ 0 < padded ∧ io1.dev.read off padded = encodeBlocks payload ∧
        ∀ a, a < off ∨ off + padded ≤ a → io1.dev.byte a = io.dev.byte a) ∧
      ReadBack io1 off payload ∧ ReadBack io2 off payload := by
  subst hchunks
  obtain ⟨_, io1, hrun1, hw1, hr1, hs1⟩ := Prog.wp_returns (wp_encodeAndWriteBatched io off chunks.flatten)
    (fun _ _ h => h.2 hio)
  obtain ⟨_, io2, hrun2, hw2, hr2, hs2⟩ := Prog.wp_returns (wp_writeChunks io off chunks) (fun _ _ h => h.2 hio)
  have hpos : 0 < numBlocks chunks.flatten.length := by
    have h1 := numBlocks_spec chunks.flatten.length
    have h2 := List.length_pos_iff.mpr hne
    by_contra h0
    rw [Nat.eq_zero_of_not_pos h0, Nat.zero_mul] at h1
    omega
  refine ⟨io1, io2, hrun1, hrun2, dev_eq_of_wrote hw2 hw1 (hr2.trans hr1.symm), ?_, ?_, ?_⟩
  · refine ⟨numBlocks chunks.flatten.length * blockAlignment, paddedExtentSize_eq hlen, Nat.mul_pos hpos (by decide), hr1, ?_⟩
    intro a ha
    apply hw1.byte_eq
    intro e he hreach
    have hin := Inside.reaches he hreach
    simp only [Span.Has, extentSpan] at hin
    omega
  · exact readBack_of_holds (hio.of_wrote hw1 hs1).calm hr1
  · exact readBack_of_holds (hio.of_wrote hw2 hs2).calm hr2

end Codec

def Sample.blank : DeviceIo := ⟨⟨4096, fun _ => 0⟩, false, false, [], []⟩

open Sample in
theorem sample_codecs_agree : ∃ io1 io2, (encodeAndWriteBatched 0 [1, 2, 3]).exec blank = (.ok (), io1) ∧
    (writeChunks 0 [[1], [], [2, 3]]).exec blank = (.ok (), io2) ∧ io2.dev = io1.dev ∧
    io1.dev.read 0 4096 = encodeBlocks [1, 2, 3] ∧ ReadBack io1 0 [1, 2, 3] := by
  obtain ⟨io1, io2, h1, h2, hdev, ⟨padded, hp, -, hr, -⟩, hb, -⟩ := block_codecs_agree [1, 2, 3] (by decide) (by decide) 0
    [[1], [], [2, 3]] rfl blank ⟨⟨rfl, (fun hd => Bool.noConfusion hd), by decide⟩, rfl⟩
  obtain rfl : 4096 = padded := Except.ok.inj hp
  exact ⟨io1, io2, h1, h2, hdev, hr, hb⟩

end ObjStr.Raw
