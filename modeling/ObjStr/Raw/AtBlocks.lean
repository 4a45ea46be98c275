/-
  ObjStr.Raw.AtBlocks — device programs whose calls start at block boundaries (`io.rs`, `extent.rs`, `store.rs`).

  `pwrite` and `pread` assert on an `O_DIRECT` handle that their offset is a multiple of 4096. `AtBlocks direct p R` says of a
  program on handles of one kind that no such assertion fires in it, and that what it returns has the property `R`. It is
  proved from the calls up: a batch, the writers and readers of an extent, what reads a payload, what reads the index.
-/

import ObjStr.Raw.Sealed
import ObjStr.Raw.Streams
import ObjStr.Raw.Verify

namespace ObjStr.Raw

open ObjStr.Lib DeviceIo

/-- An assertion on the offset of an `O_DIRECT` call has fired. -/
def RawStoreError.Misaligned (e : RawStoreError) : Prop :=
  e = .panic "O_DIRECT pwrite: offset is not aligned" ∨ e = .panic "O_DIRECT pread: offset is not aligned"

/-- Where a call may start on such a handle. -/
def Legal (direct : Bool) (off : Nat) : Prop := direct = true → off % blockAlignment = 0

/-- On such handles no assertion on an offset fires, every event satisfies `W`, and what is returned satisfies `R`. -/
def AtBlocks {α : Type} (direct : Bool) (W : Disk.Event → Prop) (p : IoM α) (R : α → Prop) : Prop :=
  ∀ io, io.direct = direct → Prog.wp p (fun a io' => Wrote W io io' ∧ R a)
    (fun e io' => Wrote W io io' ∧ ¬ e.Misaligned) io

section Programs

variable {α β : Type} {d : Bool} {W : Disk.Event → Prop} {p : IoM α} {R : α → Prop} {S : β → Prop} {e : RawStoreError} {off k : Nat}

/-! ## Errors -/

theorem not_misaligned_of_decode (h : e.OfDecode) : ¬ e.Misaligned := by
  intro hm
  cases e with
  | dataCorruption path expected actual => rcases hm with hm | hm <;> cases hm
  | _ => exact h

theorem not_misaligned_of_ne (h : ∀ reason, e ≠ .panic reason) : ¬ e.Misaligned := by
  intro hm
  rcases hm with hm | hm
  · exact h _ hm
  · exact h _ hm

theorem not_misaligned_of_reason {reason : String} (hwrite : reason ≠ "O_DIRECT pwrite: offset is not aligned")
    (hread : reason ≠ "O_DIRECT pread: offset is not aligned") : ¬ RawStoreError.Misaligned (.panic reason) := by
  intro hm
  rcases hm with hm | hm
  · exact hwrite (RawStoreError.panic.inj hm)
  · exact hread (RawStoreError.panic.inj hm)

/-! ## Rules -/

theorem Legal.add (h : Legal d off) (hk : k % blockAlignment = 0) : Legal d (off + k) := by
  intro hd
  have := h hd
  unfold blockAlignment at *
  omega

theorem legal_of_aligned (h : off % blockAlignment = 0) : Legal d off := fun _ => h

theorem Legal.block (h : Legal d off) (i : Nat) : Legal d (off + i * blockAlignment) := h.add (Nat.mul_mod_left _ _)

theorem atBlocks_pure {a : α} (h : R a) : AtBlocks d W (pure a : IoM α) R := fun _ _ => ⟨Wrote.refl, h⟩

theorem AtBlocks.mono {R' : α → Prop} (h : AtBlocks d W p R) (hR : ∀ a, R a → R' a) : AtBlocks d W p R' :=
  fun io hd => Prog.wp_mono (h io hd) (fun a _ h => ⟨h.1, hR a h.2⟩) (fun _ _ h => h)

theorem AtBlocks.bind {f : α → IoM β} (hp : AtBlocks d W p R) (hf : ∀ a, R a → AtBlocks d W (f a) S) :
    AtBlocks d W (p >>= f) S := by
  intro io hd
  rw [Prog.wp_bind]
  refine Prog.wp_mono (hp io hd) (fun a io1 h1 => ?_) (fun _ _ h => h)
  refine Prog.wp_mono (hf a h1.2 io1 (h1.1.direct_eq.trans hd)) (fun _ _ h => ?_) (fun _ _ h => ?_)
  · exact ⟨h1.1.trans h.1, h.2⟩
  · exact ⟨h1.1.trans h.1, h.2⟩

theorem atBlocks_throw (h : ¬ e.Misaligned) : AtBlocks d W (throw e : IoM α) R := fun _ _ => ⟨Wrote.refl, h⟩

theorem atBlocks_failIf {c : Prop} [Decidable c] (h : ¬ e.Misaligned) : AtBlocks d W (Prog.failIf c e) fun _ => ¬ c := by
  intro io hd
  rw [Prog.wp_failIf]
  exact ⟨fun _ => ⟨Wrote.refl, h⟩, fun hc => ⟨Wrote.refl, hc⟩⟩

theorem atBlocks_ofExcept {r : Except RawStoreError α} (hok : ∀ a, r = .ok a → R a) (herr : ∀ e, r = .error e → ¬ e.Misaligned) :
    AtBlocks d W (ofExcept r) R := by
  intro io hd
  rw [wp_ofExcept]
  cases r with
  | ok a => exact ⟨Wrote.refl, hok a rfl⟩
  | error e => exact ⟨Wrote.refl, herr e rfl⟩

theorem AtBlocks.attempt (h : AtBlocks d W p R) :
    AtBlocks d W p.attempt fun r => (∀ a, r = .ok a → R a) ∧ ∀ e, r = .error e → ¬ e.Misaligned := by
  intro io hd
  rw [Prog.wp_attempt]
  refine Prog.wp_mono (h io hd) (fun a io1 h1 => ?_) (fun e io1 h1 => ?_)
  · refine ⟨h1.1, fun b hb => ?_, nofun⟩
    obtain rfl := Except.ok.inj hb
    exact h1.2
  · refine ⟨h1.1, ?_⟩
    refine ⟨nofun, fun e' he => ?_⟩
    obtain rfl := Except.error.inj he
    exact h1.2

/-- A loop whose every round keeps `S` of the value it carries. -/
theorem atBlocks_foldlM {f : β → α → IoM β} {l : List α} {b : β} (hb : S b)
    (hf : ∀ b, ∀ a ∈ l, S b → AtBlocks d W (f b a) S) : AtBlocks d W (l.foldlM f b) S := by
  induction l generalizing b with
  | nil => exact atBlocks_pure hb
  | cons a l ih =>
    rw [List.foldlM_cons]
    exact (hf b a (by simp) hb).bind fun b' hb' => ih hb' fun b'' a' ha' => hf b'' a' (List.mem_cons_of_mem a ha')

theorem AtBlocks.mono_events {V : Disk.Event → Prop} (h : AtBlocks d V p R) (hV : ∀ e, V e → W e) : AtBlocks d W p R :=
  fun io hd => Prog.wp_mono (h io hd) (fun _ _ h => ⟨h.1.mono hV, h.2⟩) (fun _ _ h => ⟨h.1.mono hV, h.2⟩)

/-- Where a program writes may be known from elsewhere. -/
theorem AtBlocks.within {V : Disk.Event → Prop} (h : AtBlocks d W p R)
    (hV : ∀ io, Prog.wp p (fun _ io' => Wrote V io io') (fun _ io' => Wrote V io io') io) : AtBlocks d V p R :=
  fun io hd => Prog.wp_mono (Prog.wp_and (h io hd) (hV io)) (fun _ _ h => ⟨h.2, h.1.2⟩) (fun _ _ h => ⟨h.2, h.1.2⟩)

theorem atBlocks_forM {f : α → IoM Unit} {l : List α} (hf : ∀ a ∈ l, AtBlocks d W (f a) fun _ => True) :
    AtBlocks d W (l.forM f) fun _ => True := by
  rw [Prog.forM_eq_foldlM]
  exact atBlocks_foldlM trivial fun _ a ha _ => hf a ha

/-! ## Device calls -/

/-- A write at a legal offset. -/
theorem atBlocks_pwrite {data : Bytes} (h : Legal d off)
    (hW : ∀ (io : DeviceIo) e, io.direct = d → Inside (off, (io.padded data).length) e → W e) : AtBlocks d W (pwrite off data) fun _ => True := by
  intro io hd
  have hwrote : Prog.wp (pwrite off data) (fun _ io' => Wrote W io io') (fun _ io' => Wrote W io io') io :=
    Prog.wp_mono (wp_pwrite off data) (fun _ io1 h1 => h1.2.wrote_padded.mono fun e he => hW io e hd he)
      (fun _ io1 h1 => h1.1.wrote_padded.mono fun e he => hW io e hd he)
  have herror : Prog.wp (pwrite off data) (fun _ _ => True) (fun e _ => ¬ e.Misaligned) io := by
    have hall : Prog.wp (writeAllAt off data) (fun _ _ => True) (fun e _ => ¬ e.Misaligned) io ∧ ∀ pad,
        Prog.wp (writeAllAt off (data ++ pad)) (fun _ _ => True) (fun e _ => ¬ e.Misaligned) io := by
      have key : ∀ b, Prog.wp (writeAllAt off b) (fun _ _ => True) (fun e _ => ¬ e.Misaligned) io := by
        intro b
        unfold writeAllAt
        simp only [Prog.wp_bind, Prog.wp_get]
        split
        · exact not_misaligned_of_ne fun _ he => by cases he
        · rw [Prog.wp_bind]
          refine wp_nextOutcome fun o io1 _ _ => ?_
          cases o with
          | done => trivial
          | failed landed => exact not_misaligned_of_ne fun _ he => by cases he
      exact ⟨key data, fun pad => key _⟩
    unfold pwrite
    simp only [Prog.wp_bind, Prog.wp_get]
    cases hro : io.readOnly with
    | true => exact not_misaligned_of_ne fun _ he => by cases he
    | false =>
      simp only [Bool.false_eq_true, if_false]
      split
      · next hdir =>
        rw [if_neg (by simp [h (hd.symm.trans hdir)])]
        split
        · exact not_misaligned_of_reason (by simp) (by simp)
        · exact hall.2 _
      · exact hall.1
  exact Prog.wp_mono (Prog.wp_and hwrote herror) (fun _ _ h => ⟨h.1, trivial⟩) (fun _ _ h => h)

theorem atBlocks_pread {len : Nat} (h : Legal d off) : AtBlocks d W (pread off len) fun b => b.length = len := by
  intro io hd
  have hwrote : Prog.wp (pread off len) (fun b io' => Wrote W io io' ∧ b.length = len) (fun _ io' => Wrote W io io') io := by
    refine Prog.wp_mono (wp_pread off len) (fun b _ h1 => ⟨h1.2.wrote, ?_⟩) (fun _ _ h1 => h1.1.wrote)
    rw [h1.1, Disk.length_read]
  have hread : ∀ n, Prog.wp (readExactAt off n) (fun _ _ => True) (fun e _ => ¬ e.Misaligned) io := by
    intro n
    unfold readExactAt
    rw [Prog.wp_bind]
    refine wp_nextOutcome fun o io1 _ _ => ?_
    cases o with
    | done =>
      dsimp only
      rw [Prog.wp_bind, Prog.wp_get]
      split
      · exact not_misaligned_of_ne fun _ he => by cases he
      · trivial
    | failed landed => exact not_misaligned_of_ne fun _ he => by cases he
  have herror : Prog.wp (pread off len) (fun _ _ => True) (fun e _ => ¬ e.Misaligned) io := by
    unfold pread
    split
    · trivial
    · rw [Prog.wp_bind, Prog.wp_get]
      split
      · next hdir =>
        rw [if_neg (by simp [h (hd.symm.trans hdir)]), Prog.wp_bind]
        exact Prog.wp_mono (hread _) (fun _ _ _ => trivial) (fun _ _ h => h)
      · exact hread len
  exact Prog.wp_mono (Prog.wp_and hwrote herror) (fun _ _ h => h.1) (fun _ _ h => h)

theorem atBlocks_sync (hW : W .sync) : AtBlocks d W sync fun _ => True := by
  intro io hd
  unfold sync
  rw [Prog.wp_bind, Prog.wp_get]
  split
  · exact ⟨Wrote.refl, not_misaligned_of_ne fun _ he => by cases he⟩
  · rw [Prog.wp_bind]
    refine wp_nextOutcome fun o io1 ha _ => ?_
    cases o with
    | done => exact ⟨ha.wrote_push hW, trivial⟩
    | failed landed => exact ⟨ha.wrote, not_misaligned_of_ne fun _ he => by cases he⟩

end Programs

/-! ## Extents -/

section Extents

variable [Crates] {d : Bool} {W : Disk.Event → Prop} {off : Nat}

theorem atBlocks_encodeAndWriteBatched (h : Legal d off) (payload : Bytes) :
    AtBlocks d (fun _ => True) (encodeAndWriteBatched off payload) fun _ => True :=
  atBlocks_forM fun _ _ => atBlocks_pwrite (h.block _) fun _ _ _ _ => trivial

namespace StreamingBlockWriter

/-- The writer is at its place in an extent that starts at a block boundary. -/
def Placed (d : Bool) (w : StreamingBlockWriter) : Prop := Legal d w.extentOffset

variable {w : StreamingBlockWriter}

omit [Crates] in
theorem atBlocks_flushBatch (h : w.Placed d) : AtBlocks d (fun _ => True) w.flushBatch (Placed d) :=
  (atBlocks_pwrite (h.block _) fun _ _ _ _ => trivial).bind fun _ _ => atBlocks_pure h

theorem atBlocks_sealBlock (h : w.Placed d) : AtBlocks d (fun _ => True) w.sealBlock (Placed d) := by
  unfold sealBlock
  dsimp only
  split
  · exact atBlocks_flushBatch h
  · exact atBlocks_pure h

theorem atBlocks_sealIfFull (h : w.Placed d) : AtBlocks d (fun _ => True) w.sealIfFull (Placed d) := by
  unfold sealIfFull
  split
  · exact atBlocks_sealBlock h
  · exact atBlocks_pure h

theorem atBlocks_writeLoop (fuel : Nat) (h : w.Placed d) (data : Bytes) : AtBlocks d (fun _ => True) (writeLoop fuel w data) (Placed d) := by
  induction fuel generalizing w data with
  | zero => exact atBlocks_pure h
  | succ fuel ih =>
    unfold writeLoop
    split
    · exact atBlocks_pure h
    · refine AtBlocks.bind (R := Placed d) (atBlocks_sealIfFull ?_) fun w' hw' => ih hw' _
      exact h

theorem atBlocks_writeChunk (h : w.Placed d) (data : Bytes) : AtBlocks d (fun _ => True) (w.writeChunk data) (Placed d) :=
  atBlocks_writeLoop data.length h data

theorem atBlocks_finish (h : w.Placed d) : AtBlocks d (fun _ => True) w.finish (Placed d) := by
  have hlast : AtBlocks d (fun _ => True) w.sealLast (Placed d) := by
    unfold sealLast
    split
    · exact atBlocks_sealBlock (w := { w with part := _ }) h
    · exact atBlocks_pure h
  refine hlast.bind fun w' hw' => ?_
  split
  · exact atBlocks_flushBatch hw'
  · exact atBlocks_pure hw'

end StreamingBlockWriter

def StreamPlaced (d : Bool) (st : StreamingBlockWriter × UInt32) : Prop := st.1.Placed d

theorem atBlocks_writeRound {st : StreamingBlockWriter × UInt32} (h : StreamPlaced d st) (chunk : Bytes) :
    AtBlocks d (fun _ => True) (writeRound st chunk) (StreamPlaced d) :=
  (StreamingBlockWriter.atBlocks_writeChunk h chunk).bind fun _ hw => atBlocks_pure hw

theorem atBlocks_streamFinish {st : StreamingBlockWriter × UInt32} (h : StreamPlaced d st) :
    AtBlocks d (fun _ => True) (do let _ ← st.1.finish; pure st.2) fun _ => True :=
  (StreamingBlockWriter.atBlocks_finish h).bind fun _ _ => atBlocks_pure trivial

theorem atBlocks_writeRounds (h : Legal d off) (chunks : List Bytes) :
    AtBlocks d (fun _ => True) (chunks.foldlM writeRound (.new off, 0)) (StreamPlaced d) :=
  atBlocks_foldlM (S := StreamPlaced d) h fun _ chunk _ hst => atBlocks_writeRound hst chunk

theorem atBlocks_writePayload (h : Legal d off) (data : Bytes) : AtBlocks d (fun _ => True) (writePayload off data) fun _ => True := by
  unfold writePayload
  split
  · exact (atBlocks_writeRounds h _).bind fun _ hst => atBlocks_streamFinish hst
  · exact (atBlocks_encodeAndWriteBatched h data).bind fun _ _ => atBlocks_pure trivial

theorem atBlocks_writeSource (h : Legal d off) (reads : List Bytes) (fails : Bool) :
    AtBlocks d (fun _ => True) (writeSource off reads fails) fun _ => True := by
  refine (atBlocks_writeRounds h reads).bind fun _ hst => ?_
  exact (atBlocks_failIf (not_misaligned_of_ne (by nofun))).bind fun _ _ => atBlocks_streamFinish hst

/-! ## Readers -/

theorem decodeBlockRange_error {raw : Bytes} {first start stop : Nat} {e : RawStoreError}
    (h : decodeBlockRange raw first start stop = .error e) : e.OfDecode := by
  refine foldlM_error (fun content i e he => ?_) h
  cases hv : verifyBlockCrc (rawBlock raw i) (first + i) with
  | error e' =>
    rw [hv] at he
    cases he
    exact verifyBlockCrc_error hv
  | ok data =>
    rw [hv] at he
    dsimp only [Bind.bind, Except.bind] at he
    split at he
    · cases he
    · cases he

theorem atBlocks_decodeSteps {raw : Bytes} {first len : Nat} {l : List Nat} {content : Bytes} :
    AtBlocks d W (ofExcept (l.foldlM (decodeStep raw first len) content)) fun _ => True :=
  atBlocks_ofExcept (fun _ _ => trivial) fun _ he => not_misaligned_of_decode (foldlM_decodeStep_error he)

theorem atBlocks_readAndDecodeBatched (h : Legal d off) (size : Nat) :
    AtBlocks d W (readAndDecodeBatched off size) fun _ => True :=
  atBlocks_foldlM trivial fun _ _ _ _ => (atBlocks_pread (h.block _)).bind fun _ _ => atBlocks_decodeSteps

def StreamingBlockReader.Placed (d : Bool) (r : StreamingBlockReader) : Prop := Legal d r.extentOffset

theorem atBlocks_nextChunk {r : StreamingBlockReader} (h : r.Placed d) : AtBlocks d W r.nextChunk fun c => c.2.Placed d := by
  unfold StreamingBlockReader.nextChunk
  split
  · exact atBlocks_pure h
  · refine (atBlocks_pread (h.block _)).bind fun _ _ => ?_
    exact atBlocks_decodeSteps.bind fun _ _ => atBlocks_pure h

theorem atBlocks_decompress (c : Compression) (content : Bytes) : AtBlocks d W (ofExcept (c.decompress content)) fun _ => True := by
  refine atBlocks_ofExcept (fun _ _ => trivial) fun e he => not_misaligned_of_ne fun reason hp => ?_
  rw [hp] at he
  unfold Compression.decompress at he
  split at he
  · cases he
  · split at he
    · cases he
    · cases he

theorem atBlocks_readPayload (c : Compression) {info : ExtentInfo} (h : Legal d info.offset) :
    AtBlocks d W (readPayload c info) fun _ => True := by
  refine (atBlocks_readAndDecodeBatched h info.size).bind fun content _ => ?_
  split
  · exact atBlocks_decompress c content
  · exact atBlocks_pure trivial

omit [Crates] in
theorem atBlocks_nameCorruption {α : Type} {p : IoM α} {R : α → Prop} {key : Key} (h : AtBlocks d W p R) :
    AtBlocks d W (nameCorruption key p) R := by
  intro io hd
  have hp := h io hd
  unfold Prog.wp at hp ⊢
  unfold nameCorruption
  cases hrun : p io with
  | mk r io' =>
    rw [hrun] at hp
    cases r with
    | ok a => exact hp
    | error e =>
      cases e with
      | dataCorruption path expected actual => exact ⟨hp.1, not_misaligned_of_ne fun _ he => by cases he⟩
      | _ => exact hp

theorem atBlocks_readRange {info : ExtentInfo} (h : Legal d info.offset) (start stop : Nat) :
    AtBlocks d W (readRange info start stop) fun _ => True := by
  refine (atBlocks_failIf (not_misaligned_of_ne (by nofun))).bind fun _ _ => ?_
  refine (atBlocks_failIf (not_misaligned_of_ne (by nofun))).bind fun _ _ => ?_
  refine (atBlocks_failIf ?_).bind fun _ _ => ?_
  · exact not_misaligned_of_reason (by simp) (by simp)
  refine (atBlocks_failIf (not_misaligned_of_ne (by nofun))).bind fun _ _ => ?_
  refine (atBlocks_pread (h.block _)).bind fun raw _ => ?_
  refine atBlocks_ofExcept (fun _ _ => trivial) fun e he => not_misaligned_of_decode ?_
  exact decodeBlockRange_error he

/-! ## Streams -/

structure DecoderStream.Placed (d : Bool) (s : DecoderStream) : Prop where
  reader : s.reader.Placed d
  failed : ∀ e, s.failed = some e → ¬ e.Misaligned

def GetStream.Placed (d : Bool) : GetStream → Prop
  | once _ => True
  | blocks reader _ => reader.Placed d
  | decoder s => s.Placed d

theorem atBlocks_fill {s : DecoderStream} (h : s.Placed d) : AtBlocks d W s.fill (DecoderStream.Placed d) := by
  refine (atBlocks_nextChunk h.reader).attempt.bind fun r hr => ?_
  obtain ⟨hok, herr⟩ := hr
  cases r with
  | error e =>
    have he := herr e rfl
    have hfailed : DecoderStream.Placed d { s with failed := some (.io "block reader") } := by
      refine ⟨h.reader, fun e' he' => ?_⟩
      obtain rfl := Option.some.inj he'
      exact not_misaligned_of_ne fun _ he => by cases he
    cases e with
    | panic reason => exact atBlocks_throw he
    | _ => exact atBlocks_pure hfailed
  | ok c =>
    obtain ⟨chunk, reader⟩ := c
    cases chunk with
    | none => exact atBlocks_pure ⟨hok _ rfl, h.failed⟩
    | some chunk => exact atBlocks_pure ⟨hok _ rfl, h.failed⟩

theorem atBlocks_openStream (c : Compression) (key : Key) {info : ExtentInfo} (h : Legal d info.offset) :
    AtBlocks d W (openStream c key info) (GetStream.Placed d) := by
  have hnew : DecoderStream.Placed d ⟨c, .new info.offset info.size, [], none, false, info.bodySize⟩ := ⟨h, nofun⟩
  unfold openStream
  split
  · cases c with
    | snappy =>
      refine (atBlocks_nameCorruption (atBlocks_readAndDecodeBatched h info.size)).bind fun content _ => ?_
      exact (atBlocks_decompress .snappy content).bind fun _ _ => atBlocks_pure trivial
    | zstd => exact atBlocks_pure hnew
    | _ => exact (atBlocks_fill hnew).bind fun _ hs => atBlocks_pure hs
  · split
    · exact atBlocks_pure trivial
    · exact atBlocks_pure h

/-- What a stream turns into when it is read on. -/
theorem atBlocks_next {g : GetStream} (h : g.Placed d) : AtBlocks d W g.next fun r => ∀ g', r = .inl g' → g'.Placed d := by
  cases g with
  | once body => exact atBlocks_pure fun _ hr => nomatch hr
  | blocks reader content =>
    refine (atBlocks_nextChunk h).bind fun c hc => ?_
    obtain ⟨chunk, reader'⟩ := c
    cases chunk with
    | none => exact atBlocks_pure fun _ hr => nomatch hr
    | some chunk =>
      refine atBlocks_pure fun g' hg => ?_
      cases hg
      exact hc
  | decoder s =>
    have hnext : AtBlocks d W s.next fun r => ∀ s', r = .inl s' → s'.Placed d := by
      unfold DecoderStream.next
      split
      · exact atBlocks_pure fun _ hr => nomatch hr
      · split
        · exact atBlocks_pure fun _ hr => nomatch hr
        · split
          · next e hfailed => exact atBlocks_throw (h.failed e hfailed)
          · split
            · split
              · exact atBlocks_pure fun _ hr => nomatch hr
              · exact atBlocks_throw (not_misaligned_of_ne fun _ he => by cases he)
            · refine (atBlocks_fill h).bind fun s' hs => atBlocks_pure fun s'' heq => ?_
              cases heq
              exact hs
    refine hnext.bind fun r hr => ?_
    cases r with
    | inl s' =>
      refine atBlocks_pure fun g' hg => ?_
      cases hg
      exact hr s' rfl
    | inr body => exact atBlocks_pure fun _ hr => nomatch hr

/-! ## Copying and scrubbing -/

omit [Crates] in
/-- Whole blocks are written as they are. -/
theorem length_padded_of_legal {io : DeviceIo} {data : Bytes} (h : Legal io.direct data.length) :
    (io.padded data).length = data.length := by
  rw [length_padded_eq]
  unfold DeviceIo.extent
  split
  · next hd => exact alignLen_of_aligned (h hd)
  · rfl

omit [Crates] in
/-- A step of `chunk_size` inside a span of whole blocks. -/
theorem Legal.chunk {total : Nat} (h : Legal d total) (i : Nat) : Legal d (min (total - i * chunkSize) chunkSize) := by
  intro hd
  have htotal := h hd
  rw [chunkSize_eq]
  unfold blockAlignment at *
  omega

omit [Crates] in
theorem mem_chunks {total i : Nat} (h : i ∈ List.range ((total + chunkSize - 1) / chunkSize)) :
    i * chunkSize + min (total - i * chunkSize) chunkSize ≤ total := by
  rw [List.mem_range] at h
  rw [chunkSize_eq] at *
  omega

omit [Crates] in
theorem legal_chunks (h : Legal d off) (i : Nat) : Legal d (off + i * chunkSize) := h.add (chunkSize_aligned i)

omit [Crates] in
theorem atBlocks_copyBlocks {src dst total : Nat} (hsrc : Legal d src) (hdst : Legal d dst) (hwhole : Legal d total) :
    AtBlocks d (Inside (dst, total)) (copyBlocks src dst total) fun _ => True := by
  refine atBlocks_forM fun i hi => ?_
  refine (atBlocks_failIf (not_misaligned_of_ne (by nofun))).bind fun _ _ => ?_
  refine (atBlocks_failIf (not_misaligned_of_ne (by nofun))).bind fun _ _ => ?_
  refine (atBlocks_pread (legal_chunks hsrc i)).bind fun raw hraw => ?_
  refine atBlocks_pwrite (legal_chunks hdst i) fun io e hd he => ?_
  have hlegal : Legal io.direct raw.length := by
    rw [hd, hraw]
    exact hwhole.chunk i
  have hend := mem_chunks hi
  rw [length_padded_of_legal hlegal, hraw] at he
  exact he.mono (Nat.le_add_right _ _) (by simp only; omega)

omit [Crates] in
theorem atBlocks_scrubRegion {r : Span} (hstart : Legal d r.1) (hwhole : Legal d r.2) :
    AtBlocks d (Inside r) (scrubRegion r) fun _ => True := by
  refine atBlocks_forM fun i hi => ?_
  refine atBlocks_pwrite (legal_chunks hstart i) fun io e hd he => ?_
  have hlegal : Legal io.direct (List.replicate (min (r.2 - i * chunkSize) chunkSize) (0 : UInt8)).length := by
    rw [hd, List.length_replicate]
    exact hwhole.chunk i
  have hend := mem_chunks hi
  rw [length_padded_of_legal hlegal, List.length_replicate] at he
  exact he.mono (Nat.le_add_right _ _) (by simp only; omega)

/-! ## Rewriting -/

theorem atBlocks_copyBody (fuel : Nat) {reader : StreamingBlockReader} (hreader : reader.Placed d)
    {st : StreamingBlockWriter × UInt32} (h : StreamPlaced d st) (remaining : Nat) :
    AtBlocks d (fun _ => True) (copyBody fuel reader st remaining) (StreamPlaced d) := by
  induction fuel generalizing reader st remaining with
  | zero => exact atBlocks_pure h
  | succ fuel ih =>
    unfold copyBody
    split
    · exact atBlocks_pure h
    · refine (atBlocks_nextChunk hreader).bind fun c hc => ?_
      obtain ⟨chunk, reader'⟩ := c
      cases chunk with
      | none => exact atBlocks_pure h
      | some chunk => exact (atBlocks_writeRound h _).bind fun st' hst => ih hc hst _

/-- Copying a body writes no more than is asked for. -/
theorem wp_copyBody_inside {n : Nat} {io0 io : DeviceIo} {p : Bytes} {st : StreamingBlockWriter × UInt32} (fuel : Nat)
    (reader : StreamingBlockReader) (remaining : Nat) (h : Streamed off n io0 p st io) (hn : numBlocks (p.length + remaining) ≤ n) :
    Prog.wp (copyBody fuel reader st remaining)
      (fun st' io' => ∃ p', p'.length ≤ p.length + remaining ∧ Streamed off n io0 p' st' io')
      (fun _ io' => Wrote (Inside (extentSpan off n)) io0 io') io := by
  induction fuel generalizing reader st remaining p io with
  | zero => exact ⟨p, Nat.le_add_right _ _, h⟩
  | succ fuel ih =>
    unfold copyBody
    split
    · exact ⟨p, Nat.le_add_right _ _, h⟩
    · rw [Prog.wp_bind]
      refine Prog.wp_mono (reads_nextChunk reader io) (fun c io1 ha => ?_) (fun e io1 ha => h.1.wrote.trans ha.1.wrote)
      obtain ⟨chunk, reader'⟩ := c
      cases chunk with
      | none => exact ⟨p, Nat.le_add_right _ _, h.aged ha⟩
      | some chunk =>
        have hlen : (p ++ chunk.take (min chunk.length remaining)).length = p.length + min chunk.length remaining := by
          rw [List.length_append, List.length_take]
          omega
        have hmono : numBlocks (p ++ chunk.take (min chunk.length remaining)).length ≤ n :=
          Nat.le_trans (StreamingBlockWriter.numBlocks_mono (by omega)) hn
        show Prog.wp (writeRound st _ >>= _) _ _ _
        rw [Prog.wp_bind]
        refine Prog.wp_mono (wp_writeRound (h.aged ha) hmono) (fun st' io2 h2 => ?_) (fun _ _ he => he)
        refine Prog.wp_mono (ih reader' _ h2 ?_) (fun st'' io3 h3 => ?_) (fun _ _ he => he)
        · exact Nat.le_trans (StreamingBlockWriter.numBlocks_mono (by omega)) hn
        · obtain ⟨p', hp', hst⟩ := h3
          exact ⟨p', by omega, hst⟩

theorem atBlocks_rewriteBody {info : ExtentInfo} (hsrc : Legal d info.offset) (hoff : Legal d off) (metadata : Bytes) {n : Nat}
    (hn : numBlocks (info.size - info.metaLen.toNat + metadata.length) ≤ n) :
    AtBlocks d (Inside (extentSpan off n)) (rewriteBody info metadata off) fun _ => True := by
  have hplaced : AtBlocks d (fun _ => True) (rewriteBody info metadata off) fun _ => True := by
    have hreader : (StreamingBlockReader.new info.offset info.size).Placed d := hsrc
    have hstart : StreamPlaced d (.new off, 0) := hoff
    refine (atBlocks_copyBody _ hreader hstart _).bind fun st hst => ?_
    have happend : AtBlocks d (fun _ => True) (appendMetadata st metadata) (StreamPlaced d) := by
      unfold appendMetadata
      split
      · exact atBlocks_pure hst
      · exact atBlocks_writeRound hst metadata
    exact happend.bind fun _ h => atBlocks_streamFinish h
  refine hplaced.within fun io => ?_
  unfold rewriteBody
  rw [Prog.wp_bind]
  have hbody := wp_copyBody_inside (batchCount (numBlocks info.size) + 1) (.new info.offset info.size)
    (info.size - info.metaLen.toNat) (streamed_new off n io)
    (Nat.le_trans (StreamingBlockWriter.numBlocks_mono (by simp only [List.length_nil]; omega)) hn)
  refine Prog.wp_mono hbody (fun st io1 h1 => ?_) (fun _ _ he => he)
  obtain ⟨p, hp, hst⟩ := h1
  have hnp : numBlocks (p ++ metadata).length ≤ n := by
    refine Nat.le_trans (StreamingBlockWriter.numBlocks_mono ?_) hn
    rw [List.length_append]
    simp only [List.length_nil] at hp
    omega
  have happend : Prog.wp (appendMetadata st metadata) (fun st' io' => Streamed off n io (p ++ metadata) st' io')
      (fun _ io' => Wrote (Inside (extentSpan off n)) io io') io1 := by
    unfold appendMetadata
    split
    · next hnil =>
      rw [hnil, List.append_nil]
      exact hst
    · exact wp_writeRound hst hnp
  rw [Prog.wp_bind]
  refine Prog.wp_mono happend (fun st' io2 h2 => ?_) (fun _ _ he => he)
  exact Prog.wp_mono (wp_streamFinish h2 hnp) (fun _ _ h => h.1) (fun _ _ he => he)

/-! ## Joining parts -/

theorem atBlocks_planParts (c : Compression) {parts : List ExtentInfo} (h : ∀ info ∈ parts, Legal d info.offset) :
    AtBlocks d W (planParts c parts) fun _ => True := by
  have hread : AtBlocks d W (parts.foldlM (fun contents info => do
      let content ← readPayload c info
      pure (contents ++ [content])) ([] : List Bytes)) fun _ => True :=
    atBlocks_foldlM trivial fun _ info hi _ => (atBlocks_readPayload c (h info hi)).bind fun _ _ => atBlocks_pure trivial
  unfold planParts
  dsimp only
  split
  · refine AtBlocks.bind (R := fun _ => True) ?_ fun data _ => ?_
    · unfold compressParts
      refine hread.bind fun contents _ => atBlocks_ofExcept (fun _ _ => trivial) fun e he => not_misaligned_of_ne fun reason hp => ?_
      rw [hp] at he
      split at he
      · cases he
      · cases he
    · split
      · exact atBlocks_pure trivial
      · exact atBlocks_pure trivial
  · exact atBlocks_pure trivial

theorem atBlocks_writeParts (c : Compression) (hoff : Legal d off) {parts : List ExtentInfo} (h : ∀ info ∈ parts, Legal d info.offset) :
    AtBlocks d (fun _ => True) (writeParts c off parts) fun _ => True := by
  have hpart : ∀ st, ∀ info ∈ parts, StreamPlaced d st → AtBlocks d (fun _ => True) (writePart c st info) (StreamPlaced d) :=
    fun st info hi hst => (atBlocks_readPayload c (h info hi)).bind fun content _ => atBlocks_writeRound hst content
  exact (atBlocks_foldlM (S := StreamPlaced d) (b := (.new off, 0)) hoff hpart).bind fun _ hst => atBlocks_streamFinish hst

/-! ## The index and the check of all extents -/

theorem fromBytes_not_panic {b : Bytes} {e : RawStoreError} (h : Superblock.fromBytes b = .error e) : ¬ e.Misaligned := by
  refine not_misaligned_of_ne fun reason hp => ?_
  rw [hp] at h
  unfold Superblock.fromBytes at h
  split at h
  · cases h
  split at h
  · cases h
  split at h
  · cases h
  split at h
  · cases h
  split at h
  · cases h
  split at h
  · cases h
  dsimp only at h
  split at h
  · cases h
  split at h
  · cases h
  split at h
  · cases h
  · cases h

theorem atBlocks_primaryOrBackup : AtBlocks d W primaryOrBackup fun _ => True := by
  have hplace : ∀ off, off % blockAlignment = 0 →
      AtBlocks d W (readSuperblock off) fun r => ∀ e, r = .error e → ¬ e.Misaligned := fun off hoff =>
    (atBlocks_pread (legal_of_aligned hoff)).bind fun b _ => atBlocks_pure fun _ he => fromBytes_not_panic he
  refine (hplace 0 rfl).bind fun r _ => ?_
  cases r with
  | ok sb => exact atBlocks_pure trivial
  | error e =>
    refine (hplace superblockSize (by decide)).bind fun r hr => ?_
    exact atBlocks_ofExcept (fun _ _ => trivial) hr

theorem atBlocks_readShard {regionA regionB slotSize : Nat} (ha : Legal d regionA) (hb : Legal d regionB) (hslot : Legal d slotSize)
    (slot : ShardSlotMeta) (i : Fin numShards) : AtBlocks d W (readShard regionA regionB slotSize slot i) fun _ => True := by
  have hoff : Legal d (slotOffset regionA regionB slotSize slot.activeSlot i) := by
    intro hd
    have hs : i.val * slotSize % blockAlignment = 0 := by rw [Nat.mul_mod, hslot hd, Nat.mul_zero, Nat.zero_mod]
    have hra := ha hd
    have hrb := hb hd
    unfold slotOffset blockAlignment at *
    split <;> omega
  unfold readShard
  split
  · exact atBlocks_pure trivial
  · refine (atBlocks_pread hoff).bind fun b _ => atBlocks_ofExcept (fun _ _ => trivial) fun e he => ?_
    refine not_misaligned_of_ne fun reason hp => ?_
    rw [hp] at he
    unfold ShardData.fromBytes at he
    split at he
    · cases he
    split at he
    · cases he
    · cases he

theorem atBlocks_verifyExtents (dataEnd : Nat) {files : FMap ExtentInfo} (h : ∀ e ∈ files.entries, Legal d e.2.offset) :
    AtBlocks d W (verifyExtents dataEnd files) fun _ => True := by
  have hextent : ∀ info : ExtentInfo, Legal d info.offset → AtBlocks d W (verifyExtent dataEnd info) fun _ => True := by
    intro info hinfo
    unfold verifyExtent
    split
    · exact atBlocks_pure trivial
    split
    · exact atBlocks_pure trivial
    refine (atBlocks_pread hinfo).attempt.bind fun r hr => ?_
    cases r with
    | error e =>
      cases e with
      | panic reason => exact atBlocks_throw (hr.2 _ rfl)
      | _ => exact atBlocks_pure trivial
    | ok raw =>
      dsimp only
      split
      · exact atBlocks_pure trivial
      · exact atBlocks_pure trivial
      · split
        · exact atBlocks_pure trivial
        · exact atBlocks_pure trivial
  refine atBlocks_foldlM (S := fun _ => True) trivial fun found e he _ => ?_
  refine (hextent e.2 (h e he)).bind fun status _ => ?_
  cases status <;> exact atBlocks_pure trivial

end Extents

end ObjStr.Raw
