/-
  ObjStr.Raw.Bodies — what the device programs inside the calls do.

  The store's calls write an extent from one buffer, from chunks, from a source that may fail,
  from another extent, or from several. Each program's lemma says what the extent holds when it
  succeeds, which CRC comes out, and that nothing outside the extent is written in any case.
  `payloadOf` is what reading an entry computes from the device.
-/

import ObjStr.Raw.Persist

namespace ObjStr.Raw

open ObjStr.Lib DeviceIo

variable [Crates]

/-- The extent at `off` holds the blocks of `p`. -/
def Holds (d : Disk) (off : Nat) (p : Bytes) : Prop := d.read off (numBlocks p.length * blockAlignment) = encodeBlocks p

theorem Holds.decode {d : Disk} {off : Nat} {p : Bytes} (h : Holds d off p) :
    decodeBlocks (d.read off (numBlocks p.length * blockAlignment)) p.length = .ok p := by
  rw [h, decodeBlocks_encodeBlocks]

theorem crc32c_nil : crc32c [] = 0 := Crates.crc32cAppend_nil 0

theorem crc32c_append (a b : Bytes) : crc32c (a ++ b) = crc32cAppend (crc32c a) b := crc32cAppend_append 0 a b

/-! ## Streams -/

def Streamed (off n : Nat) (io0 : DeviceIo) (p : Bytes) (st : StreamingBlockWriter × UInt32) (io : DeviceIo) : Prop :=
  StreamingBlockWriter.Fed off n io0 p st.1 io ∧ st.2 = crc32c p

theorem streamed_new (off n : Nat) (io : DeviceIo) : Streamed off n io [] (.new off, 0) io :=
  ⟨StreamingBlockWriter.fed_new off n io, crc32c_nil.symm⟩

theorem wp_writeRound {off n : Nat} {io0 io : DeviceIo} {p q : Bytes} {st : StreamingBlockWriter × UInt32}
    (h : Streamed off n io0 p st io) (hn : numBlocks (p ++ q).length ≤ n) :
    Prog.wp (writeRound st q) (fun st' io' => Streamed off n io0 (p ++ q) st' io')
      (fun _ io' => Wrote (Inside (extentSpan off n)) io0 io') io := by
  unfold writeRound
  rw [Prog.wp_bind]
  refine Prog.wp_mono (StreamingBlockWriter.wp_writeChunk h.1 hn) ?_ (fun _ _ he => he.1)
  intro w io' hw
  exact ⟨hw, by rw [crc32c_append, h.2]⟩

theorem wp_writeRounds {off n : Nat} {io0 io : DeviceIo} {chunks : List Bytes} {p : Bytes}
    {st : StreamingBlockWriter × UInt32} (h : Streamed off n io0 p st io) (hn : numBlocks (p ++ chunks.flatten).length ≤ n) :
    Prog.wp (chunks.foldlM writeRound st) (fun st' io' => Streamed off n io0 (p ++ chunks.flatten) st' io')
      (fun _ io' => Wrote (Inside (extentSpan off n)) io0 io') io := by
  induction chunks generalizing p st io with
  | nil => simpa using h
  | cons q chunks ih =>
    rw [List.flatten_cons, ← List.append_assoc] at hn ⊢
    rw [List.foldlM_cons, Prog.wp_bind]
    refine Prog.wp_mono (wp_writeRound h ?_) ?_ (fun _ _ he => he)
    · exact Nat.le_trans (StreamingBlockWriter.numBlocks_mono (by simp)) hn
    · intro st' io' h'
      exact ih h' hn

theorem wp_streamFinish {off n : Nat} {io0 io : DeviceIo} {p : Bytes} {st : StreamingBlockWriter × UInt32}
    (h : Streamed off n io0 p st io) (hn : numBlocks p.length ≤ n) :
    Prog.wp (do let _ ← st.1.finish; pure st.2)
      (fun crc io' => Wrote (Inside (extentSpan off n)) io0 io' ∧ Holds io'.dev off p ∧ crc = crc32c p)
      (fun _ io' => Wrote (Inside (extentSpan off n)) io0 io') io := by
  rw [Prog.wp_bind]
  refine Prog.wp_mono (StreamingBlockWriter.wp_finish h.1 hn) ?_ (fun _ _ he => he.1)
  rintro _ io' ⟨h1, h2, -⟩
  exact ⟨h1, h2, h.2⟩

theorem wp_writeStream {off n : Nat} {io : DeviceIo} {chunks : List Bytes} (hn : numBlocks chunks.flatten.length ≤ n) :
    Prog.wp (writeStream off chunks)
      (fun crc io' => Wrote (Inside (extentSpan off n)) io io' ∧ Holds io'.dev off chunks.flatten ∧
        crc = crc32c chunks.flatten)
      (fun _ io' => Wrote (Inside (extentSpan off n)) io io') io := by
  unfold writeStream
  rw [Prog.wp_bind]
  have h := wp_writeRounds (streamed_new off n io) (by simpa using hn)
  rw [List.nil_append] at h
  exact Prog.wp_mono h (fun st io' hst => wp_streamFinish hst hn) (fun _ _ he => he)

/-- A source that fails does not give an extent; one that ends gives what it returned. -/
theorem wp_writeSource {off n : Nat} {io : DeviceIo} {reads : List Bytes} {fails : Bool}
    (hn : numBlocks reads.flatten.length ≤ n) :
    Prog.wp (writeSource off reads fails)
      (fun crc io' => Wrote (Inside (extentSpan off n)) io io' ∧ Holds io'.dev off reads.flatten ∧
        crc = crc32c reads.flatten ∧ fails = false)
      (fun _ io' => Wrote (Inside (extentSpan off n)) io io') io := by
  unfold writeSource
  rw [Prog.wp_bind]
  have h := wp_writeRounds (streamed_new off n io) (by simpa using hn)
  rw [List.nil_append] at h
  refine Prog.wp_mono h ?_ (fun _ _ he => he)
  intro st io' hst
  rw [Prog.wp_bind, Prog.wp_failIf]
  refine ⟨fun _ => hst.1.wrote, fun hf => ?_⟩
  refine Prog.wp_mono (wp_streamFinish hst hn) ?_ (fun _ _ he => he)
  rintro crc io2 ⟨h1, h2, h3⟩
  exact ⟨h1, h2, h3, by simpa using hf⟩

omit [Crates] in
theorem flatten_chunks (data : Bytes) (k : Nat) :
    ((List.range k).map fun i => (data.drop (i * chunkSize)).take chunkSize).flatten = data.take (k * chunkSize) := by
  induction k with
  | zero => simp
  | succ k ih =>
    rw [List.range_succ, List.map_append, List.flatten_append, ih, Nat.succ_mul, List.take_add]
    simp

omit [Crates] in
theorem flatten_chunksOf (data : Bytes) : (chunksOf data).flatten = data := by
  unfold chunksOf
  rw [flatten_chunks, List.take_of_length_le]
  rw [show chunkSize = 1048576 by decide]
  omega

theorem wp_writePayload {off : Nat} {io : DeviceIo} {data : Bytes} :
    Prog.wp (writePayload off data)
      (fun crc io' => Wrote (Inside (extentSpan off (numBlocks data.length))) io io' ∧ Holds io'.dev off data ∧
        crc = crc32c data)
      (fun _ io' => Wrote (Inside (extentSpan off (numBlocks data.length))) io io') io := by
  unfold writePayload
  split
  · have h := @wp_writeStream _ off (numBlocks data.length) io (chunksOf data) (by rw [flatten_chunksOf])
    rw [flatten_chunksOf] at h
    exact h
  · rw [Prog.wp_bind]
    refine Prog.wp_mono (wp_encodeAndWriteBatched io off data) ?_ (fun _ _ he => he.1)
    rintro _ io' ⟨h1, h2, -⟩
    exact ⟨h1, h2, rfl⟩

/-! ## Reading an entry -/

def payloadOf (c : Compression) (d : Disk) (info : ExtentInfo) : Except RawStoreError Bytes := do
  let content ← decodeBlocks (d.read info.offset (numBlocks info.size * blockAlignment)) info.size
  if 0 < info.uncompressedSize then c.decompress content else pure content

theorem wp_readPayload (c : Compression) (info : ExtentInfo) (io : DeviceIo) :
    Prog.wp (readPayload c info)
      (fun r io' => Aged io io' ∧ payloadOf c io.dev info = .ok r)
      (fun e io' => Aged io io' ∧ (Calm io info.offset (numBlocks info.size * blockAlignment) →
        payloadOf c io.dev info = .error e)) io := by
  unfold readPayload payloadOf
  rw [Prog.wp_bind]
  refine Prog.wp_mono (wp_readAndDecodeBatched io info.offset info.size) ?_ ?_
  · rintro content io' ⟨ha, hc⟩
    rw [hc]
    show Prog.wp (if 0 < info.uncompressedSize then ofExcept (c.decompress content) else pure content)
      (fun r io2 => Aged io io2 ∧ (if 0 < info.uncompressedSize then c.decompress content else pure content) = .ok r)
      (fun e io2 => Aged io io2 ∧ (_ → (if 0 < info.uncompressedSize then c.decompress content else pure content) = .error e))
      io'
    split
    · rw [wp_ofExcept]
      cases c.decompress content with
      | ok r => exact ⟨ha, rfl⟩
      | error e => exact ⟨ha, fun _ => rfl⟩
    · exact ⟨ha, rfl⟩
  · rintro e io' ⟨ha, hc⟩
    refine ⟨ha, fun hcalm => ?_⟩
    rw [hc hcalm]
    rfl

/-- A read that no device call disturbs. -/
theorem exec_readPayload {c : Compression} {info : ExtentInfo} {io : DeviceIo}
    (hcalm : Calm io info.offset (numBlocks info.size * blockAlignment)) :
    (readPayload c info).exec io = (payloadOf c io.dev info, io) := by
  have hwp := wp_readPayload c info io
  cases hrun : (readPayload c info).exec io with
  | mk r io' =>
    cases r with
    | ok data =>
      obtain ⟨haged, hdata⟩ := Prog.wp_ok hwp hrun
      rw [hdata, haged.eq hcalm.script_nil]
    | error e =>
      obtain ⟨haged, herror⟩ := Prog.wp_error hwp hrun
      rw [herror hcalm, haged.eq hcalm.script_nil]

/-- The blocks an entry is read from are those of the extent, so equal bytes read equal. -/
theorem payloadOf_congr {c : Compression} {d e : Disk} {info : ExtentInfo}
    (h : d.read info.offset (numBlocks info.size * blockAlignment) = e.read info.offset (numBlocks info.size * blockAlignment)) :
    payloadOf c d info = payloadOf c e info := by
  unfold payloadOf
  rw [h]

/-! ## Copying blocks -/

omit [Crates] in
theorem chunkSize_eq : chunkSize = 1048576 := by decide

omit [Crates] in
theorem chunkSize_aligned (k : Nat) : k * chunkSize % blockAlignment = 0 := by
  rw [chunkSize_eq]
  unfold blockAlignment
  omega

omit [Crates] in
theorem alignLen_of_aligned {n : Nat} (h : n % blockAlignment = 0) : alignLen n = n := ExtentAllocator.alignUp_of_aligned h

omit [Crates] in
/-- One batch of a copy. -/
theorem wp_copyBatch {io : DeviceIo} {src dst total copied chunk : Nat} (hsrc : src + total ≤ u64Max)
    (hdst : dst + total ≤ u64Max) (hle : copied + chunk ≤ total) (hal : chunk % blockAlignment = 0) :
    Prog.wp (copyBatch src dst copied chunk)
      (fun _ io' => Wrote (Inside (dst + copied, chunk)) io io' ∧
        io'.dev.read (dst + copied) chunk = io.dev.read (src + copied) chunk)
      (fun e io' => Wrote (Inside (dst + copied, chunk)) io io' ∧ e.OfDevice) io := by
  unfold copyBatch
  simp only [Prog.wp_bind, Prog.wp_failIf]
  refine ⟨fun h => by omega, fun _ => ⟨fun h => by omega, fun _ => ?_⟩⟩
  refine Prog.wp_mono (Prog.wp_and (wp_pread (src + copied) chunk) (errors_pread _ _)) ?_ ?_
  · rintro raw io1 ⟨⟨rfl, ha⟩, -⟩
    have hlen : alignLen (io.dev.read (src + copied) chunk).length = chunk := by
      rw [Disk.length_read, alignLen_of_aligned hal]
    refine Prog.wp_mono (Prog.wp_and (wp_pwrite (dst + copied) _) (errors_pwrite _ _)) ?_ ?_
    · rintro _ io2 ⟨⟨-, hd⟩, -⟩
      obtain ⟨h1, h2⟩ := hd.wrote
      rw [hlen] at h1
      rw [Disk.length_read] at h2
      exact ⟨ha.wrote.trans h1, h2⟩
    · rintro e io2 ⟨⟨hf, -⟩, he⟩
      have h1 := hf.wrote
      rw [hlen] at h1
      exact ⟨ha.wrote.trans h1, he⟩
  · rintro e io1 ⟨⟨ha, -⟩, he⟩
    exact ⟨ha.wrote, he⟩

omit [Crates] in
/-- A batch extends the copied prefix. -/
theorem wp_copyNext {io io1 : DeviceIo} {src dst total copied chunk : Nat} (hsrc : src + total ≤ u64Max)
    (hdst : dst + total ≤ u64Max) (hap : Span.Apart (dst, total) (src, total)) (hle : copied + chunk ≤ total)
    (hal : chunk % blockAlignment = 0) (hw : Wrote (Inside (dst, total)) io io1)
    (hr : io1.dev.read dst copied = io.dev.read src copied) :
    Prog.wp (copyBatch src dst copied chunk)
      (fun _ io' => Wrote (Inside (dst, total)) io io' ∧
        io'.dev.read dst (copied + chunk) = io.dev.read src (copied + chunk))
      (fun e io' => Wrote (Inside (dst, total)) io io' ∧ e.OfDevice) io1 := by
  have hin : ∀ e, Inside (dst + copied, chunk) e → Inside (dst, total) e := fun _ he =>
    he.mono (by simp only; omega) (by simp only; omega)
  have hsame : io1.dev.read (src + copied) chunk = io.dev.read (src + copied) chunk := by
    apply hw.read_eq
    intro e a he h1 h2 hreach
    have := Inside.reaches he hreach
    unfold Span.Apart at hap
    simp only [Span.Has] at *
    omega
  refine Prog.wp_mono (wp_copyBatch hsrc hdst hle hal) ?_ ?_
  · rintro _ io2 ⟨h1, h2⟩
    refine ⟨hw.trans (h1.mono hin), ?_⟩
    have hbefore : io2.dev.read dst copied = io1.dev.read dst copied := by
      apply h1.read_eq
      intro e a he h3 h4 hreach
      have := Inside.reaches he hreach
      simp only [Span.Has] at this
      omega
    rw [Disk.read_append, Disk.read_append, hbefore, hr, h2, hsame]
  · rintro e io2 ⟨h1, h2⟩
    exact ⟨hw.trans (h1.mono hin), h2⟩

omit [Crates] in
theorem wp_copyBlocks {io : DeviceIo} {src dst total : Nat} (hsrc : src + total ≤ u64Max) (hdst : dst + total ≤ u64Max)
    (hal : total % blockAlignment = 0) (hap : Span.Apart (dst, total) (src, total)) :
    Prog.wp (copyBlocks src dst total)
      (fun _ io' => Wrote (Inside (dst, total)) io io' ∧ io'.dev.read dst total = io.dev.read src total)
      (fun e io' => Wrote (Inside (dst, total)) io io' ∧ e.OfDevice) io := by
  refine Prog.wp_forM_steps (c := chunkSize) (by decide)
    (fun k io' => Wrote (Inside (dst, total)) io io' ∧ io'.dev.read dst k = io.dev.read src k)
    ⟨Wrote.refl, by simp [Disk.read]⟩ ?_
  rintro k io1 hk ⟨hw, hr⟩
  have hka := chunkSize_aligned k
  have hca := chunkSize_aligned 1
  rw [Nat.one_mul] at hca
  have hnext : min (k * chunkSize + chunkSize) total = k * chunkSize + min (total - k * chunkSize) chunkSize := by omega
  have hchunk : min (total - k * chunkSize) chunkSize % blockAlignment = 0 := by
    rcases Nat.le_total (total - k * chunkSize) chunkSize with h | h
    · rw [Nat.min_eq_left h]
      unfold blockAlignment at *
      omega
    · rw [Nat.min_eq_right h]
      exact hca
  rw [hnext]
  exact wp_copyNext hsrc hdst hap (by omega) hchunk hw hr

/-! ## Rewriting metadata -/

/-- Writes to an extent apart from another leave the other's bytes. -/
theorem Streamed.read_eq {off n : Nat} {io0 io : DeviceIo} {p : Bytes} {st : StreamingBlockWriter × UInt32}
    (h : Streamed off n io0 p st io) {o len : Nat} (hap : Span.Apart (extentSpan off n) (o, len)) :
    io.dev.read o len = io0.dev.read o len := by
  apply h.1.wrote.read_eq
  intro e a he h1 h2 hreach
  have := Inside.reaches he hreach
  unfold Span.Apart at hap
  simp only [Span.Has] at *
  omega

theorem Streamed.aged {off n : Nat} {io0 io io' : DeviceIo} {p : Bytes} {st : StreamingBlockWriter × UInt32}
    (h : Streamed off n io0 p st io) (ha : Aged io io') : Streamed off n io0 p st io' := by
  obtain ⟨⟨h1, h2, h3, h4, h5, h6, h7, h8⟩, h9⟩ := h
  exact ⟨⟨h1, h2, h3, h4, h5, h6.trans ha.wrote, by rw [ha.dev_eq]; exact h7, fun hnil => ha.script_nil (h8 hnil)⟩, h9⟩

/-- The body bytes are decoded batch by batch and written on: `c` is what has been decoded, `body` the bytes wanted. -/
theorem wp_copyBody {off n src size body fuel k : Nat} {io0 io : DeviceIo} {c : Bytes} {st : StreamingBlockWriter × UInt32}
    (hap : Span.Apart (extentSpan off n) (src, numBlocks size * blockAlignment)) (hbody : body ≤ size)
    (hn : numBlocks body ≤ n)
    (hc : decodeFirst (io0.dev.read src (numBlocks size * blockAlignment)) size k = .ok c) (hk : k ≤ numBlocks size)
    (hst : Streamed off n io0 (c.take body) st io) (hfuel : numBlocks size ≤ k + fuel * batchBlocks) :
    Prog.wp (copyBody fuel (.At src size k) st (body - c.length))
      (fun st' io' => ∃ k' c', k' ≤ numBlocks size ∧
        decodeFirst (io0.dev.read src (numBlocks size * blockAlignment)) size k' = .ok c' ∧ body ≤ c'.length ∧
        Streamed off n io0 (c'.take body) st' io')
      (fun _ io' => Wrote (Inside (extentSpan off n)) io0 io') io := by
  induction fuel generalizing k c st io with
  | zero =>
    have hkn : k = numBlocks size := by omega
    have := length_decodeFirst io0.dev src hk hc
    have h2 := numBlocks_spec size
    rw [hkn] at this
    exact ⟨k, c, hk, hc, by omega, hst⟩
  | succ fuel ih =>
    have hlen := length_decodeFirst io0.dev src hk hc
    unfold copyBody
    split
    · next hz => exact ⟨k, c, hk, hc, by omega, hst⟩
    · next hnz =>
      have hlt : k < numBlocks size := by
        by_contra hge
        have hkn : k = numBlocks size := by omega
        have h2 := numBlocks_spec size
        rw [hkn] at hlen
        omega
      have hraw : io.dev.read src (numBlocks size * blockAlignment) = io0.dev.read src (numBlocks size * blockAlignment) :=
        hst.read_eq hap
      rw [Prog.wp_bind]
      refine Prog.wp_mono (wp_nextChunk io src size k (by rw [hraw]; exact hc) hk) ?_ ?_
      · rintro r io1 ⟨ha, ⟨h1, -⟩ | ⟨-, chunk, rfl, hd⟩⟩
        · omega
        · rw [hraw] at hd
          have hclen : c.length ≤ body := by omega
          have hstop : batchEnd k (numBlocks size) ≤ numBlocks size := by unfold batchEnd; omega
          have htake : (c ++ chunk).take body = c.take body ++ chunk.take (min chunk.length (body - c.length)) := by
            rw [List.take_append, ← List.take_take, List.take_of_length_le (l := chunk.take _) (by simp)]
          show Prog.wp (writeRound st _ >>= _) _ _ _
          rw [Prog.wp_bind]
          refine Prog.wp_mono (wp_writeRound (hst.aged ha) ?_) ?_ (fun _ _ he => he)
          · rw [← htake]
            exact Nat.le_trans (StreamingBlockWriter.numBlocks_mono (by simp)) hn
          · intro st' io2 h'
            rw [← htake] at h'
            have hnext := ih hd hstop h' (by unfold batchEnd; rw [Nat.succ_mul] at hfuel; omega)
            rwa [show body - (c ++ chunk).length = body - c.length - min chunk.length (body - c.length) by
              rw [List.length_append]; omega] at hnext
      · rintro e io1 ⟨ha, -⟩
        exact hst.1.wrote.trans ha.wrote

theorem wp_rewriteBody {off n : Nat} {io : DeviceIo} {info : ExtentInfo} {metadata : Bytes}
    (hap : Span.Apart (extentSpan off n) (info.offset, numBlocks info.size * blockAlignment))
    (hn : numBlocks (info.size - info.metaLen.toNat + metadata.length) ≤ n) :
    Prog.wp (rewriteBody info metadata off)
      (fun crc io' => Wrote (Inside (extentSpan off n)) io io' ∧ ∃ k c, k ≤ numBlocks info.size ∧
        decodeFirst (io.dev.read info.offset (numBlocks info.size * blockAlignment)) info.size k = .ok c ∧
        info.size - info.metaLen.toNat ≤ c.length ∧
        Holds io'.dev off (c.take (info.size - info.metaLen.toNat) ++ metadata) ∧
        crc = crc32c (c.take (info.size - info.metaLen.toNat) ++ metadata))
      (fun _ io' => Wrote (Inside (extentSpan off n)) io io') io := by
  unfold rewriteBody
  rw [Prog.wp_bind]
  have hbody := @wp_copyBody _ off n info.offset info.size (info.size - info.metaLen.toNat)
    (batchCount (numBlocks info.size) + 1) 0 io io [] (.new off, 0) hap (by omega)
    (Nat.le_trans (StreamingBlockWriter.numBlocks_mono (by omega)) hn) (by simp [decodeFirst]; rfl) (Nat.zero_le _)
    (by simpa using streamed_new off n io) (by unfold batchCount batchBlocks; omega)
  rw [StreamingBlockReader.at_zero, List.length_nil, Nat.sub_zero] at hbody
  refine Prog.wp_mono hbody ?_ (fun _ _ he => he)
  rintro st io1 ⟨k, c, hk, hc, hlen, hst⟩
  have hbl : (c.take (info.size - info.metaLen.toNat)).length = info.size - info.metaLen.toNat := by
    rw [List.length_take]; omega
  generalize hp : c.take (info.size - info.metaLen.toNat) = body at hst hbl
  have hnp : numBlocks (body ++ metadata).length ≤ n := by rw [List.length_append, hbl]; exact hn
  rw [Prog.wp_bind]
  have hmeta : Prog.wp (appendMetadata st metadata) (fun st' io' => Streamed off n io (body ++ metadata) st' io')
      (fun _ io' => Wrote (Inside (extentSpan off n)) io io') io1 := by
    unfold appendMetadata
    split
    · next hm => subst hm; simpa using hst
    · exact wp_writeRound hst hnp
  refine Prog.wp_mono hmeta ?_ (fun _ _ he => he)
  intro st' io2 hst'
  refine Prog.wp_mono (wp_streamFinish hst' hnp) ?_ (fun _ _ he => he)
  rintro crc io3 ⟨h1, h2, h3⟩
  exact ⟨h1, k, c, hk, hc, hlen, by rw [hp]; exact h2, by rw [hp]; exact h3⟩

/-! ## Joining parts -/

def ExtentInfo.blocks (info : ExtentInfo) : Span := (info.offset, numBlocks info.size * blockAlignment)

/-- What the parts read to, on this device. -/
def PartsRead (c : Compression) (d : Disk) (parts : List ExtentInfo) (contents : List Bytes) : Prop :=
  List.Forall₂ (fun info r => payloadOf c d info = .ok r) parts contents

theorem PartsRead.length {c : Compression} {d : Disk} {parts : List ExtentInfo} {contents : List Bytes}
    (h : PartsRead c d parts contents)
    (hlen : ∀ info ∈ parts, ∀ r, payloadOf c d info = .ok r → r.length = info.logicalSize) :
    contents.flatten.length = (parts.map ExtentInfo.logicalSize).sum := by
  induction h with
  | nil => rfl
  | cons hr _ ih =>
    rw [List.flatten_cons, List.length_append, List.map_cons, List.sum_cons, hlen _ (by simp) _ hr,
      ih fun info hi => hlen info (by simp [hi])]

/-- What is read of the parts, up to any of them, takes no more than `n` blocks. -/
def PartsWithin (c : Compression) (d : Disk) (parts : List ExtentInfo) (n : Nat) : Prop :=
  ∀ read rest contents, parts = read ++ rest → PartsRead c d read contents → numBlocks contents.flatten.length ≤ n

/-- Parts that read to the sizes that the index has for them. -/
theorem partsWithin_of_sizes {c : Compression} {d : Disk} {parts : List ExtentInfo}
    (hlen : ∀ info ∈ parts, ∀ r, payloadOf c d info = .ok r → r.length = info.logicalSize) :
    PartsWithin c d parts (numBlocks (parts.map ExtentInfo.logicalSize).sum) := by
  rintro read rest contents rfl hread
  refine StreamingBlockWriter.numBlocks_mono ?_
  rw [hread.length fun info hi => hlen info (List.mem_append_left _ hi), List.map_append, List.sum_append]
  exact Nat.le_add_right _ _

theorem wp_writePartsLoop {off n : Nat} {c : Compression} {io0 io : DeviceIo} {parts : List ExtentInfo} {p : Bytes}
    {st : StreamingBlockWriter × UInt32} (hst : Streamed off n io0 p st io)
    (hap : ∀ info ∈ parts, Span.Apart (extentSpan off n) info.blocks)
    (hfit : ∀ read rest contents, parts = read ++ rest → PartsRead c io0.dev read contents →
      numBlocks (p ++ contents.flatten).length ≤ n) :
    Prog.wp (parts.foldlM (writePart c) st)
      (fun st' io' => ∃ contents, PartsRead c io0.dev parts contents ∧ Streamed off n io0 (p ++ contents.flatten) st' io')
      (fun _ io' => Wrote (Inside (extentSpan off n)) io0 io') io := by
  induction parts generalizing p st io with
  | nil => exact ⟨[], List.Forall₂.nil, by simpa using hst⟩
  | cons info parts ih =>
    have hsame : payloadOf c io.dev info = payloadOf c io0.dev info :=
      payloadOf_congr (hst.read_eq (hap info (by simp)))
    rw [List.foldlM_cons, Prog.wp_bind]
    unfold writePart
    rw [Prog.wp_bind]
    refine Prog.wp_mono (wp_readPayload c info io) ?_ ?_
    · rintro r io1 ⟨ha, hr⟩
      rw [hsame] at hr
      have hone := hfit [info] parts [r] rfl (List.Forall₂.cons hr List.Forall₂.nil)
      rw [List.flatten_cons, List.flatten_nil, List.append_nil] at hone
      refine Prog.wp_mono (wp_writeRound (hst.aged ha) hone) ?_ (fun _ _ he => he)
      intro st' io2 hst'
      refine Prog.wp_mono (ih hst' (fun i hi => hap i (by simp [hi])) ?_) ?_ (fun _ _ he => he)
      · rintro read rest contents rfl hread
        have hmore := hfit (info :: read) rest (r :: contents) rfl (List.Forall₂.cons hr hread)
        rwa [List.flatten_cons, ← List.append_assoc] at hmore
      · rintro st2 io3 ⟨contents, hcs, hs⟩
        exact ⟨r :: contents, List.Forall₂.cons hr hcs, by simpa using hs⟩
    · rintro e io1 ⟨ha, -⟩
      exact hst.1.wrote.trans ha.wrote

theorem wp_writeParts {off n : Nat} {c : Compression} {io : DeviceIo} {parts : List ExtentInfo}
    (hap : ∀ info ∈ parts, Span.Apart (extentSpan off n) info.blocks) (hfit : PartsWithin c io.dev parts n) :
    Prog.wp (writeParts c off parts)
      (fun crc io' => Wrote (Inside (extentSpan off n)) io io' ∧ ∃ contents, PartsRead c io.dev parts contents ∧
        Holds io'.dev off contents.flatten ∧ crc = crc32c contents.flatten)
      (fun _ io' => Wrote (Inside (extentSpan off n)) io io') io := by
  unfold writeParts
  rw [Prog.wp_bind]
  refine Prog.wp_mono (wp_writePartsLoop (streamed_new off n io) hap ?_) ?_ (fun _ _ he => he)
  · intro read rest contents hparts hread
    rw [List.nil_append]
    exact hfit read rest contents hparts hread
  rintro st io1 ⟨contents, hcs, hst⟩
  rw [List.nil_append] at hst
  refine Prog.wp_mono (wp_streamFinish hst (hfit parts [] contents (List.append_nil parts).symm hcs)) ?_ (fun _ _ he => he)
  rintro crc io2 ⟨h1, h2, h3⟩
  exact ⟨h1, contents, hcs, h2, h3⟩

theorem wp_writeTemp {off : Nat} {tmp : TempFile} {io : DeviceIo} {data : Bytes} :
    Prog.wp (writeTemp tmp off data)
      (fun crc io' => Wrote (Inside (extentSpan off (numBlocks data.length))) io io' ∧ Holds io'.dev off data ∧
        crc = crc32c data)
      (fun _ io' => Wrote (Inside (extentSpan off (numBlocks data.length))) io io') io := by
  unfold writeTemp
  have hle : numBlocks ((chunksOf data).take (tmp.getD data.length)).flatten.length ≤ numBlocks data.length := by
    refine StreamingBlockWriter.numBlocks_mono ?_
    conv_rhs => rw [← flatten_chunksOf data]
    exact ((List.take_sublist _ _).flatten).length_le
  refine Prog.wp_mono (wp_writeSource hle) ?_ (fun _ _ he => he)
  rintro crc io' ⟨h1, h2, h3, h4⟩
  cases tmp with
  | some k => simp at h4
  | none =>
    have hall : (chunksOf data).take ((none : TempFile).getD data.length) = chunksOf data := by
      apply List.take_of_length_le
      simp only [chunksOf, List.length_map, List.length_range, Option.getD_none]
      rw [chunkSize_eq]
      omega
    rw [hall, flatten_chunksOf] at h2 h3
    exact ⟨h1, h2, h3⟩

def Planned (c : Compression) (d : Disk) (parts : List ExtentInfo) (plan : Nat × Nat × Option Bytes) : Prop :=
  plan = ((parts.map ExtentInfo.logicalSize).sum, 0, none) ∨
    ∃ contents data, PartsRead c d parts contents ∧ Crates.encodeStream c contents = some data ∧ c ≠ .none ∧
      data.length < (parts.map ExtentInfo.logicalSize).sum ∧
      plan = (data.length, (parts.map ExtentInfo.logicalSize).sum, some data)

theorem wp_readParts {c : Compression} {io0 io : DeviceIo} {parts : List ExtentInfo} {acc : List Bytes} (ha0 : Aged io0 io) :
    Prog.wp (parts.foldlM (fun contents info => do
        let content ← readPayload c info
        pure (contents ++ [content])) acc)
      (fun contents io' => Aged io0 io' ∧ ∃ cs, PartsRead c io0.dev parts cs ∧ contents = acc ++ cs)
      (fun _ io' => Aged io0 io') io := by
  induction parts generalizing acc io with
  | nil => exact ⟨ha0, [], List.Forall₂.nil, by simp⟩
  | cons info parts ih =>
    rw [List.foldlM_cons, Prog.wp_bind, Prog.wp_bind]
    refine Prog.wp_mono (wp_readPayload c info io) ?_ ?_
    · rintro r io1 ⟨ha, hr⟩
      rw [ha0.dev_eq] at hr
      rw [Prog.wp_pure]
      refine Prog.wp_mono (ih (ha0.trans ha)) ?_ (fun _ _ he => he)
      rintro contents io2 ⟨ha2, cs, hcs, rfl⟩
      exact ⟨ha2, r :: cs, List.Forall₂.cons hr hcs, by simp⟩
    · rintro e io1 ⟨ha, -⟩
      exact ha0.trans ha

/-- The parts are joined in the temporary file, and are shorter there. -/
def Shortened (c : Compression) (d : Disk) (parts : List ExtentInfo) : Prop :=
  (c ≠ .none ∧ 4096 ≤ (parts.map ExtentInfo.logicalSize).sum) ∧ ∃ contents data, PartsRead c d parts contents ∧
    Crates.encodeStream c contents = some data ∧ data.length < (parts.map ExtentInfo.logicalSize).sum

theorem PartsRead.inj {c : Compression} {d : Disk} {parts : List ExtentInfo} {contents contents' : List Bytes}
    (h : PartsRead c d parts contents) (h' : PartsRead c d parts contents') : contents = contents' := by
  induction h generalizing contents' with
  | nil =>
    cases h'
    rfl
  | cons hr _ ih =>
    cases h' with
    | cons hr' hrest =>
      cases Except.ok.inj (hr.symm.trans hr')
      rw [ih hrest]

/-- A plan without a temporary file is one for parts that are not shorter in it. -/
theorem wp_planParts {c : Compression} {io : DeviceIo} {parts : List ExtentInfo} :
    Prog.wp (planParts c parts)
      (fun plan io' => Aged io io' ∧ Planned c io.dev parts plan ∧ (plan.2.2 = none → ¬ Shortened c io.dev parts))
      (fun _ io' => Aged io io') io := by
  unfold planParts
  dsimp only
  split
  · next hc =>
    unfold compressParts
    rw [Prog.wp_bind, Prog.wp_bind]
    refine Prog.wp_mono (wp_readParts Aged.refl) ?_ (fun _ _ he => he)
    rintro contents io1 ⟨ha, cs, hcs, hcon⟩
    rw [List.nil_append] at hcon
    subst hcon
    rw [wp_ofExcept]
    cases he : Crates.encodeStream c contents with
    | none => exact ha
    | some data =>
      simp only [Prog.wp_pure]
      refine ⟨ha, ?_⟩
      split
      · next hlt => exact ⟨.inr ⟨contents, data, hcs, he, hc.1, hlt, rfl⟩, fun h => by cases h⟩
      · next hlong =>
        refine ⟨.inl rfl, fun _ hshort => ?_⟩
        obtain ⟨-, contents', data', hcs', he', hlt⟩ := hshort
        rw [← hcs.inj hcs', he] at he'
        cases Option.some.inj he'
        exact hlong hlt
  · next hplain => exact ⟨Aged.refl, .inl rfl, fun _ hshort => hplain hshort.1⟩

/-! ## Scrubbing -/

omit [Crates] in
theorem wp_scrubRegion {io : DeviceIo} {e : Span} (hal : io.direct = true → e.2 % blockAlignment = 0) :
    Prog.wp (scrubRegion e) (fun _ io' => Wrote (Inside e) io io') (fun _ io' => Wrote (Inside e) io io') io := by
  refine Prog.wp_forM_steps (c := chunkSize) (by decide) (fun _ io' => Wrote (Inside e) io io') Wrote.refl ?_
  rintro k io1 hk hw
  have hlen : (io1.padded (List.replicate (min (e.2 - k * chunkSize) chunkSize) 0)).length =
      min (e.2 - k * chunkSize) chunkSize := by
    unfold DeviceIo.padded
    split
    · next hd =>
      have h1 := hal (by rw [← hw.direct_eq]; exact hd)
      have h2 := chunkSize_aligned k
      have h3 := chunkSize_aligned 1
      rw [Nat.one_mul] at h3
      have h4 : min (e.2 - k * chunkSize) chunkSize % blockAlignment = 0 := by
        rcases Nat.le_total (e.2 - k * chunkSize) chunkSize with h | h
        · rw [Nat.min_eq_left h]
          unfold blockAlignment at *
          omega
        · rw [Nat.min_eq_right h]
          exact h3
      rw [List.length_append, List.length_replicate, List.length_replicate, alignLen_of_aligned h4]
      omega
    · rw [List.length_replicate]
  have hin : ∀ ev, Inside (e.1 + k * chunkSize, min (e.2 - k * chunkSize) chunkSize) ev → Inside e ev := fun _ he =>
    he.mono (by simp only; omega) (by simp only; omega)
  refine Prog.wp_mono (wp_pwrite _ _) ?_ ?_
  · rintro _ io2 ⟨-, hd⟩
    have h1 := hd.wrote_padded
    rw [hlen] at h1
    exact hw.trans (h1.mono hin)
  · rintro _ io2 ⟨hf, -⟩
    have h1 := hf.wrote_padded
    rw [hlen] at h1
    exact hw.trans (h1.mono hin)

end ObjStr.Raw
