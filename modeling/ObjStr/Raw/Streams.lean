/-
  ObjStr.Raw.Streams — what a full GET delivers, from the device as it is.

  The call looks up the extent and returns a stream (`getStream`); what is wrong with the extent is found
  when the stream is read, except for a Snappy payload, which the call reads itself. Here the device stays as it is
  from the call to the end of the stream, and no device call fails.
  - `exec_getStream`: the call fails if and only if there is no entry, or the payload is a Snappy one
    and does not decode (`Refuses`); otherwise the stream gives `body` if and only if the blocks it reads do
    (`Delivers`): those of the body of a plain object, or as many as a decoder needs for it.
  - `Stores.delivered`: an extent that stores a payload delivers its body.
-/

import ObjStr.Raw.Step

namespace ObjStr.Raw

open ObjStr.Lib DeviceIo

variable [Crates]

/-! ## Decoding from the front -/

abbrev rawExtent (d : Disk) (off size : Nat) : Bytes := d.read off (numBlocks size * blockAlignment)

/-- The first `j` batches of a payload, decoded. -/
def decodeBatches (raw : Bytes) (size j : Nat) : Except RawStoreError Bytes :=
  decodeFirst raw size (min (j * batchBlocks) (numBlocks size))

theorem decodeBatches_all (d : Disk) (off size : Nat) {j : Nat} (h : batchCount (numBlocks size) ≤ j) :
    decodeBatches (rawExtent d off size) size j = decodeBlocks (rawExtent d off size) size := by
  have hle : numBlocks size ≤ j * batchBlocks := by
    unfold batchCount batchBlocks at *
    omega
  rw [decodeBatches, Nat.min_eq_right hle, decodeBlocks_read]

theorem decodeBatches_zero (raw : Bytes) (size : Nat) : decodeBatches raw size 0 = .ok [] := by
  rw [decodeBatches, Nat.zero_mul, Nat.zero_min, decodeFirst]
  rfl

omit [Crates] in
theorem batchEnd_batches (n j : Nat) : batchEnd (min (j * batchBlocks) n) n = min ((j + 1) * batchBlocks) n := by
  unfold batchEnd
  rw [Nat.succ_mul]
  omega

/-- A reader that has read `j` batches. -/
def StreamingBlockReader.after (off size j : Nat) : StreamingBlockReader := .At off size (min (j * batchBlocks) (numBlocks size))

omit [Crates] in
theorem StreamingBlockReader.after_zero (off size : Nat) : StreamingBlockReader.after off size 0 = .new off size := by
  rw [after, Nat.zero_mul, Nat.zero_min, at_zero]

/-- The next batch, on a device that does not fail. -/
theorem exec_nextChunk {io : DeviceIo} {off size j : Nat} {c : Bytes} (hcalm : Calm io off (numBlocks size * blockAlignment))
    (hc : decodeBatches (rawExtent io.dev off size) size j = .ok c) :
    (batchCount (numBlocks size) ≤ j ∧
      (StreamingBlockReader.after off size j).nextChunk.exec io = (.ok (none, .after off size j), io)) ∨
    (j < batchCount (numBlocks size) ∧ ∃ chunk, decodeBatches (rawExtent io.dev off size) size (j + 1) = .ok (c ++ chunk) ∧
      (StreamingBlockReader.after off size j).nextChunk.exec io = (.ok (some chunk, .after off size (j + 1)), io)) ∨
    (j < batchCount (numBlocks size) ∧ ∃ e, decodeBatches (rawExtent io.dev off size) size (j + 1) = .error e ∧
      (StreamingBlockReader.after off size j).nextChunk.exec io = (.error e, io)) := by
  have hwp := wp_nextChunk io off size (min (j * batchBlocks) (numBlocks size)) hc (by omega)
  have hlt : ∀ n, min (j * batchBlocks) n < n → j < batchCount n := fun n h => by
    unfold batchCount batchBlocks at *
    omega
  have hge : ∀ n, min (j * batchBlocks) n = n → batchCount n ≤ j := fun n h => by
    unfold batchCount batchBlocks at *
    omega
  rw [batchEnd_batches] at hwp
  unfold Prog.wp at hwp
  cases hrun : (StreamingBlockReader.after off size j).nextChunk io with
  | mk r io' =>
    rw [StreamingBlockReader.after] at hrun
    rw [hrun] at hwp
    cases r with
    | ok r =>
      obtain ⟨ha, h⟩ := hwp
      obtain rfl := ha.eq hcalm.script_nil
      rcases h with ⟨hk, rfl⟩ | ⟨hk, chunk, rfl, hd⟩
      · exact .inl ⟨hge _ hk, hrun⟩
      · exact .inr (.inl ⟨hlt _ hk, chunk, hd, hrun⟩)
    | error e =>
      obtain ⟨ha, h⟩ := hwp
      obtain rfl := ha.eq hcalm.script_nil
      obtain ⟨hk, hd⟩ := h hcalm
      exact .inr (.inr ⟨hlt _ hk, e, hd, hrun⟩)

theorem decodeBatches_error {raw : Bytes} {size j k : Nat} {e : RawStoreError} (hjk : j ≤ k)
    (h : decodeBatches raw size j = .error e) : decodeBatches raw size k = .error e := by
  have hle : min (j * batchBlocks) (numBlocks size) ≤ min (k * batchBlocks) (numBlocks size) := by
    have := Nat.mul_le_mul_right batchBlocks hjk
    omega
  exact decodeFirst_error raw size hle h

/-! ## Reading a stream -/

omit [Crates] in
theorem exec_onDevice {α : Type} (p : IoM α) (s : Store) :
    (onDevice p).exec s = ((p.exec s.io).1, s.withIo (p.exec s.io).2) := rfl

namespace GetStream

theorem exec_drain (fuel : Nat) (g : GetStream) (io : DeviceIo) :
    (drain (fuel + 1) g).exec io = match g.next.exec io with
      | (.ok (.inl g), io') => (drain fuel g).exec io'
      | (.ok (.inr body), io') => (.ok body, io')
      | (.error e, io') => (.error e, io') := by
  rw [drain, Prog.exec_bind]
  cases g.next.exec io with
  | mk r io' =>
    cases r with
    | error e => rfl
    | ok r => cases r <;> rfl

/-- A plain body: what its blocks decode to. -/
theorem exec_drain_blocks {io : DeviceIo} {off size j fuel : Nat} {c : Bytes} (hcalm : Calm io off (numBlocks size * blockAlignment))
    (hc : decodeBatches (rawExtent io.dev off size) size j = .ok c) (hj : j ≤ batchCount (numBlocks size))
    (hfuel : batchCount (numBlocks size) < j + fuel) :
    ((blocks (.after off size j) c).drain fuel).exec io = (decodeBlocks (rawExtent io.dev off size) size, io) := by
  induction fuel generalizing j c with
  | zero => omega
  | succ fuel ih =>
    rw [exec_drain]
    have hnext : (blocks (.after off size j) c).next.exec io = match (StreamingBlockReader.after off size j).nextChunk.exec io with
        | (.ok (some chunk, reader), io') => (.ok (.inl (.blocks reader (c ++ chunk))), io')
        | (.ok (none, _), io') => (.ok (.inr c), io')
        | (.error e, io') => (.error e, io') := by
      rw [next, Prog.exec_bind]
      cases (StreamingBlockReader.after off size j).nextChunk.exec io with
      | mk r io' =>
        cases r with
        | error e => rfl
        | ok r =>
          obtain ⟨chunk, reader⟩ := r
          cases chunk <;> rfl
    rw [hnext]
    rcases exec_nextChunk hcalm hc with ⟨hge, hrun⟩ | ⟨hlt, chunk, hd, hrun⟩ | ⟨hlt, e, hd, hrun⟩
    · rw [hrun]
      dsimp only
      rw [← decodeBatches_all _ _ _ hge, hc]
    · rw [hrun]
      exact ih hd (by omega) (by omega)
    · rw [hrun]
      dsimp only
      rw [← decodeBatches_all _ _ _ (Nat.le_refl _), decodeBatches_error (by omega) hd]

end GetStream

/-- What a decoder gives out, asked for `want` bytes after each batch until it has them. -/
def Pulls (c : Compression) (raw : Bytes) (size want : Nat) (body : Bytes) : Prop :=
  ∃ j, j ≤ batchCount (numBlocks size) ∧ ∃ content, decodeBatches raw size j = .ok content ∧
    (∀ i < j, ∀ before, decodeBatches raw size i = .ok before → Crates.pull c before false want = none) ∧
    (Crates.pull c content false want = some body ∨
      j = batchCount (numBlocks size) ∧ Crates.pull c content false want = none ∧ Crates.pull c content true want = some body)

section Decoder

variable {c : Compression} {raw content : Bytes} {size want j : Nat}

/-- The decoder has been asked after each of the first `j` batches, and needs more. -/
def AskedFor (c : Compression) (raw : Bytes) (size want j : Nat) : Prop :=
  ∀ i < j, ∀ before, decodeBatches raw size i = .ok before → Crates.pull c before false want = none

theorem AskedFor.succ (h : AskedFor c raw size want j) (hc : decodeBatches raw size j = .ok content)
    (hnone : Crates.pull c content false want = none) : AskedFor c raw size want (j + 1) := by
  intro i hi before hb
  by_cases hij : i = j
  · subst hij
    rw [hc] at hb
    cases hb
    exact hnone
  · exact h i (by omega) before hb

/-- The first batches that suffice are those. -/
theorem AskedFor.pulls_some (h : AskedFor c raw size want j) (hj : j ≤ batchCount (numBlocks size))
    (hc : decodeBatches raw size j = .ok content) {b : Bytes} (hb : Crates.pull c content false want = some b) (body : Bytes) :
    Pulls c raw size want body ↔ b = body := by
  constructor
  · rintro ⟨k, -, content', hk, hask, hbody⟩
    have hkj : k = j := by
      by_contra hne
      rcases Nat.lt_or_gt_of_ne hne with hlt | hgt
      · have hnone := h k hlt content' hk
        rcases hbody with hbody | ⟨hall, -, -⟩
        · rw [hnone] at hbody
          cases hbody
        · omega
      · rw [hask j hgt content hc] at hb
        cases hb
    subst hkj
    rw [hc] at hk
    cases hk
    rcases hbody with hbody | ⟨-, hnone, -⟩
    · rw [hb] at hbody
      exact Option.some.inj hbody
    · rw [hb] at hnone
      cases hnone
  · rintro rfl
    exact ⟨j, hj, content, hc, h, .inl hb⟩

/-- All batches have been read, and the end of the input is known. -/
theorem AskedFor.pulls_end (h : AskedFor c raw size want j) (hj : j = batchCount (numBlocks size))
    (hc : decodeBatches raw size j = .ok content) (hnone : Crates.pull c content false want = none) (body : Bytes) :
    Pulls c raw size want body ↔ Crates.pull c content true want = some body := by
  constructor
  · rintro ⟨k, hk, content', hck, hask, hbody⟩
    by_cases hlt : k < j
    · rcases hbody with hbody | ⟨hall, -, -⟩
      · rw [h k hlt content' hck] at hbody
        cases hbody
      · omega
    · obtain rfl : k = j := by omega
      rw [hc] at hck
      cases hck
      rcases hbody with hbody | ⟨-, -, hbody⟩
      · rw [hnone] at hbody
        cases hbody
      · exact hbody
  · intro hbody
    exact ⟨j, by omega, content, hc, h, .inr ⟨hj, hnone, hbody⟩⟩

/-- The next batch is not good. -/
theorem AskedFor.not_pulls (h : AskedFor c raw size want j) (hj : j < batchCount (numBlocks size))
    (hc : decodeBatches raw size j = .ok content) (hnone : Crates.pull c content false want = none) {e : RawStoreError}
    (he : decodeBatches raw size (j + 1) = .error e) (body : Bytes) : ¬ Pulls c raw size want body := by
  rintro ⟨k, -, content', hck, -, hbody⟩
  by_cases hlt : j < k
  · rw [decodeBatches_error hlt he] at hck
    cases hck
  · have hpull : Crates.pull c content' false want = none := h.succ hc hnone k (by omega) content' hck
    rcases hbody with hbody | ⟨hall, -, -⟩
    · rw [hpull] at hbody
      cases hbody
    · omega

/-- A decoder that has the first `j` batches. -/
def DecoderStream.after (c : Compression) (off size want j : Nat) (content : Bytes) : DecoderStream :=
  ⟨c, .after off size j, content, none, false, want⟩

def DecoderStream.filled (d : DecoderStream) :
    Except RawStoreError (Option Bytes × StreamingBlockReader) × DeviceIo → Except RawStoreError DecoderStream × DeviceIo
  | (.ok (some chunk, reader), io) => (.ok { d with reader, content := d.content ++ chunk }, io)
  | (.ok (none, reader), io) => (.ok { d with reader, ended := true }, io)
  | (.error (.panic reason), io) => (.error (.panic reason), io)
  | (.error _, io) => (.ok { d with failed := some (.io "block reader") }, io)

/-- What `fill` does on a device that does not fail. -/
theorem exec_fill (c : Compression) (want : Nat) {io : DeviceIo} {off : Nat} (hcalm : Calm io off (numBlocks size * blockAlignment))
    (hc : decodeBatches (rawExtent io.dev off size) size j = .ok content) :
    (batchCount (numBlocks size) ≤ j ∧ (DecoderStream.after c off size want j content).fill.exec io =
        (.ok { DecoderStream.after c off size want j content with ended := true }, io)) ∨
    (j < batchCount (numBlocks size) ∧ ∃ chunk, decodeBatches (rawExtent io.dev off size) size (j + 1) = .ok (content ++ chunk) ∧
      (DecoderStream.after c off size want j content).fill.exec io = (.ok (.after c off size want (j + 1) (content ++ chunk)), io)) ∨
    (j < batchCount (numBlocks size) ∧ ∃ e f, decodeBatches (rawExtent io.dev off size) size (j + 1) = .error e ∧
      (DecoderStream.after c off size want j content).fill.exec io =
        (.ok { DecoderStream.after c off size want j content with failed := some f }, io)) := by
  have hfill : (DecoderStream.after c off size want j content).fill.exec io =
      (DecoderStream.after c off size want j content).filled ((StreamingBlockReader.after off size j).nextChunk.exec io) := by
    show (Prog.exec (Prog.attempt (StreamingBlockReader.after off size j).nextChunk >>= _) io) = _
    rw [Prog.exec_bind, Prog.exec_attempt]
    cases (StreamingBlockReader.after off size j).nextChunk.exec io with
    | mk r io' =>
      cases r with
      | error e => cases e <;> rfl
      | ok r =>
        obtain ⟨chunk, reader⟩ := r
        cases chunk <;> rfl
  rw [hfill]
  rcases exec_nextChunk hcalm hc with ⟨hge, hrun⟩ | ⟨hlt, chunk, hd, hrun⟩ | ⟨hlt, e, hd, hrun⟩
  · rw [hrun]
    exact .inl ⟨hge, rfl⟩
  · rw [hrun]
    exact .inr (.inl ⟨hlt, chunk, hd, rfl⟩)
  · rw [hrun]
    have hdecode : e.OfDecode := foldlM_decodeStep_error hd
    cases e with
    | dataCorruption path expected actual => exact .inr (.inr ⟨hlt, _, _, hd, rfl⟩)
    | _ => exact hdecode.elim

/-- A round that gives the body out. -/
theorem exec_drain_pulled {d : DecoderStream} (hwant : d.bodySize ≠ 0) {b : Bytes}
    (hb : Crates.pull d.compression d.content false d.bodySize = some b) (fuel : Nat) (io : DeviceIo) :
    ((GetStream.decoder d).drain (fuel + 1)).exec io = (.ok b, io) := by
  rw [GetStream.exec_drain]
  have hnext : (GetStream.decoder d).next.exec io = (.ok (.inr b), io) := by
    rw [GetStream.next, Prog.exec_bind, DecoderStream.next, if_neg hwant, hb]
    rfl
  rw [hnext]

/-- Rounds in which the decoder needs more: a read has failed, all has been read, or the next batch is read. -/
theorem exec_next_more {d : DecoderStream} (hwant : d.bodySize ≠ 0)
    (hnone : Crates.pull d.compression d.content false d.bodySize = none) :
    d.next = match d.failed with
      | some e => throw e
      | none =>
        if d.ended then
          match Crates.pull d.compression d.content true d.bodySize with
          | some body => pure (.inr body)
          | none => throw (.io "decompress failed")
        else d.fill >>= fun d => pure (.inl d) := by
  have h := DecoderStream.next.eq_1 d
  rw [if_neg hwant, hnone] at h
  exact h

theorem exec_drain_failed {d : DecoderStream} (hwant : d.bodySize ≠ 0)
    (hnone : Crates.pull d.compression d.content false d.bodySize = none) {e : RawStoreError} (hfailed : d.failed = some e)
    (fuel : Nat) (io : DeviceIo) : ((GetStream.decoder d).drain (fuel + 1)).exec io = (.error e, io) := by
  rw [GetStream.exec_drain, GetStream.next, Prog.exec_bind, exec_next_more hwant hnone, hfailed]
  rfl

theorem exec_drain_ended {d : DecoderStream} (hwant : d.bodySize ≠ 0)
    (hnone : Crates.pull d.compression d.content false d.bodySize = none) (hfailed : d.failed = none) (hended : d.ended = true)
    (fuel : Nat) (io : DeviceIo) : ∃ r, ((GetStream.decoder d).drain (fuel + 1)).exec io = (r, io) ∧
      ∀ body, r = .ok body ↔ Crates.pull d.compression d.content true d.bodySize = some body := by
  rw [GetStream.exec_drain, GetStream.next, Prog.exec_bind, exec_next_more hwant hnone, hfailed]
  dsimp only
  rw [if_pos hended]
  cases Crates.pull d.compression d.content true d.bodySize with
  | some body => exact ⟨.ok body, rfl, fun b => by simp⟩
  | none => exact ⟨.error (.io "decompress failed"), rfl, fun b => by simp⟩

theorem exec_drain_fill {d d' : DecoderStream} (hwant : d.bodySize ≠ 0)
    (hnone : Crates.pull d.compression d.content false d.bodySize = none) (hfailed : d.failed = none) (hended : d.ended = false)
    {io : DeviceIo} (hfill : d.fill.exec io = (.ok d', io)) (fuel : Nat) :
    ((GetStream.decoder d).drain (fuel + 1)).exec io = ((GetStream.decoder d').drain fuel).exec io := by
  rw [GetStream.exec_drain, GetStream.next, Prog.exec_bind, exec_next_more hwant hnone, hfailed]
  dsimp only
  rw [if_neg (by simp [hended]), Prog.exec_bind, hfill]
  rfl

/-- A compressed body: what the decoder gives out. -/
theorem exec_drain_decoder {io : DeviceIo} {off fuel : Nat} (hwant : want ≠ 0) (hcalm : Calm io off (numBlocks size * blockAlignment))
    (hc : decodeBatches (rawExtent io.dev off size) size j = .ok content) (hask : AskedFor c (rawExtent io.dev off size) size want j)
    (hj : j ≤ batchCount (numBlocks size)) (hfuel : batchCount (numBlocks size) + 1 < j + fuel) :
    ∃ r, ((GetStream.decoder (.after c off size want j content)).drain fuel).exec io = (r, io) ∧
      ∀ body, r = .ok body ↔ Pulls c (rawExtent io.dev off size) size want body := by
  induction fuel generalizing j content with
  | zero => omega
  | succ fuel ih =>
    cases hpull : Crates.pull c content false want with
    | some b =>
      refine ⟨.ok b, exec_drain_pulled hwant hpull fuel io, fun body => ?_⟩
      rw [hask.pulls_some hj hc hpull, Except.ok.injEq]
    | none =>
      rcases exec_fill c want hcalm hc with ⟨hge, hrun⟩ | ⟨hlt, chunk, hd, hrun⟩ | ⟨hlt, e, f, he, hrun⟩
      · -- all batches are read: one more round
        obtain ⟨fuel, rfl⟩ : ∃ n, fuel = n + 1 := ⟨fuel - 1, by omega⟩
        rw [exec_drain_fill hwant hpull rfl rfl hrun]
        obtain ⟨r, hr, hbody⟩ := exec_drain_ended (d := { DecoderStream.after c off size want j content with ended := true }) hwant
          hpull rfl rfl fuel io
        exact ⟨r, hr, fun body => (hbody body).trans (hask.pulls_end (by omega) hc hpull body).symm⟩
      · rw [exec_drain_fill hwant hpull rfl rfl hrun]
        exact ih hd (hask.succ hc hpull) (by omega) (by omega)
      · obtain ⟨fuel, rfl⟩ : ∃ n, fuel = n + 1 := ⟨fuel - 1, by omega⟩
        rw [exec_drain_fill hwant hpull rfl rfl hrun]
        refine ⟨.error f, exec_drain_failed hwant hpull rfl fuel io, fun body => ?_⟩
        simp [hask.not_pulls hlt hc hpull he body]

end Decoder

theorem exec_readAndDecodeBatched {io : DeviceIo} {off size : Nat} (hcalm : Calm io off (numBlocks size * blockAlignment)) :
    (readAndDecodeBatched off size).exec io = (decodeBlocks (rawExtent io.dev off size) size, io) := by
  have hwp := wp_readAndDecodeBatched io off size
  unfold Prog.wp at hwp
  unfold Prog.exec
  cases hrun : readAndDecodeBatched off size io with
  | mk r io' =>
    rw [hrun] at hwp
    cases r with
    | ok b =>
      obtain ⟨ha, hb⟩ := hwp
      obtain rfl := ha.eq hcalm.script_nil
      rw [hb]
    | error e =>
      obtain ⟨ha, hb⟩ := hwp
      obtain rfl := ha.eq hcalm.script_nil
      rw [hb hcalm]

namespace GetStream

omit [Crates] in
theorem consume_once (body : Bytes) (io : DeviceIo) [Crates] : (once body).consume.exec io = (.ok body, io) := rfl

theorem consume_blocks {io : DeviceIo} {off size : Nat} (hcalm : Calm io off (numBlocks size * blockAlignment)) :
    (blocks (.new off size) []).consume.exec io = (decodeBlocks (rawExtent io.dev off size) size, io) := by
  rw [← StreamingBlockReader.after_zero]
  refine exec_drain_blocks hcalm (decodeBatches_zero _ _) (Nat.zero_le _) ?_
  show batchCount (numBlocks size) < 0 + (batchCount (numBlocks size) + 1)
  omega

/-- A decoder as it is made, or with the first batch already read. -/
theorem consume_decoder {io : DeviceIo} {c : Compression} {off size want : Nat} (hcalm : Calm io off (numBlocks size * blockAlignment))
    (hwant : want ≠ 0) {d : DecoderStream}
    (hd : d = .after c off size want 0 [] ∨ (DecoderStream.after c off size want 0 []).fill.exec io = (.ok d, io)) :
    ∃ r, (decoder d).consume.exec io = (r, io) ∧ ∀ body, r = .ok body ↔ Pulls c (rawExtent io.dev off size) size want body := by
  have hzero := decodeBatches_zero (rawExtent io.dev off size) size
  have hask : AskedFor c (rawExtent io.dev off size) size want 0 := fun i hi => absurd hi (Nat.not_lt_zero i)
  have hrounds : (decoder d).rounds = batchCount (numBlocks size) + 2 := by
    rcases hd with rfl | hd
    · rfl
    · rcases exec_fill c want hcalm hzero with ⟨-, hrun⟩ | ⟨-, chunk, -, hrun⟩ | ⟨-, e, f, -, hrun⟩
      · rw [hrun] at hd
        cases hd
        rfl
      · rw [hrun] at hd
        cases hd
        rfl
      · rw [hrun] at hd
        cases hd
        rfl
  rw [consume, hrounds]
  rcases hd with rfl | hd
  · exact exec_drain_decoder hwant hcalm hzero hask (Nat.zero_le _) (by omega)
  · rw [← exec_drain_fill (d := .after c off size want 0 []) hwant (Crates.pull_nil c want hwant) rfl rfl hd]
    exact exec_drain_decoder hwant hcalm hzero hask (Nat.zero_le _) (by omega)

theorem consume_nothing {d : DecoderStream} (hwant : d.bodySize = 0) (io : DeviceIo) : (decoder d).consume.exec io = (.ok [], io) := by
  rw [consume, rounds, exec_drain]
  have hnext : (decoder d).next.exec io = (.ok (.inr []), io) := by
    rw [next, Prog.exec_bind, DecoderStream.next, if_pos hwant]
    rfl
  rw [hnext]

end GetStream

/-- A payload that is not a Snappy one goes to a decoder. -/
theorem exec_openStream_decoder {io : DeviceIo} {c : Compression} {info : ExtentInfo} (key : Key) (hu : 0 < info.uncompressedSize)
    (hc : c ≠ .snappy) (hcalm : Calm io info.offset (numBlocks info.size * blockAlignment)) :
    ∃ d, (openStream c key info).exec io = (.ok (.decoder d), io) ∧ d.bodySize = info.bodySize ∧
      (d = .after c info.offset info.size info.bodySize 0 [] ∨
        (DecoderStream.after c info.offset info.size info.bodySize 0 []).fill.exec io = (.ok d, io)) := by
  have hfill : ∃ d, (DecoderStream.after c info.offset info.size info.bodySize 0 []).fill.exec io = (.ok d, io) ∧
      d.bodySize = info.bodySize := by
    rcases exec_fill c info.bodySize hcalm (decodeBatches_zero _ _) with
      ⟨-, hrun⟩ | ⟨-, chunk, -, hrun⟩ | ⟨-, e, f, -, hrun⟩
    · exact ⟨_, hrun, rfl⟩
    · exact ⟨_, hrun, rfl⟩
    · exact ⟨_, hrun, rfl⟩
  obtain ⟨d, hd, hsize⟩ := hfill
  by_cases hz : c = .zstd
  · subst hz
    refine ⟨.after .zstd info.offset info.size info.bodySize 0 [], ?_, rfl, .inl rfl⟩
    rw [openStream, if_pos hu, DecoderStream.after, StreamingBlockReader.after_zero]
    rfl
  · refine ⟨d, ?_, hsize, .inr hd⟩
    have hopen : openStream c key info = (do
        let d ← (DecoderStream.after c info.offset info.size info.bodySize 0 []).fill
        pure (.decoder d)) := by
      rw [openStream, if_pos hu, DecoderStream.after, StreamingBlockReader.after_zero]
      cases c <;> first | rfl | exact absurd rfl hc | exact absurd rfl hz
    rw [hopen, Prog.exec_bind, hd]
    rfl

omit [Crates] in
theorem exec_ofExcept {α : Type} (r : Except RawStoreError α) (io : DeviceIo) : (ofExcept r : IoM α).exec io = (r, io) := rfl

omit [Crates] in
theorem exec_nameCorruption_ok {α : Type} {p : IoM α} {io io' : DeviceIo} {a : α} (key : Key) (h : p.exec io = (.ok a, io')) :
    (nameCorruption key p).exec io = (.ok a, io') := by
  unfold Prog.exec nameCorruption at *
  rw [h]

omit [Crates] in
theorem exec_nameCorruption_error {α : Type} {p : IoM α} {io io' : DeviceIo} {e : RawStoreError} (key : Key)
    (h : p.exec io = (.error e, io')) : ∃ e', (nameCorruption key p).exec io = (.error e', io') := by
  unfold Prog.exec nameCorruption at *
  rw [h]
  cases e <;> exact ⟨_, rfl⟩

/-- A Snappy payload is read by the call. -/
theorem exec_openStream_snappy {io : DeviceIo} {info : ExtentInfo} (key : Key) (hu : 0 < info.uncompressedSize)
    (hcalm : Calm io info.offset (numBlocks info.size * blockAlignment)) :
    (∃ data, payloadOf .snappy io.dev info = .ok data ∧
      (openStream .snappy key info).exec io = (.ok (.once (data.take info.bodySize)), io)) ∨
    (∃ e e', payloadOf .snappy io.dev info = .error e ∧ (openStream .snappy key info).exec io = (.error e', io)) := by
  have hread := exec_readAndDecodeBatched hcalm
  rw [openStream, if_pos hu]
  dsimp only
  rw [Prog.exec_bind]
  cases hd : decodeBlocks (rawExtent io.dev info.offset info.size) info.size with
  | error e =>
    rw [hd] at hread
    obtain ⟨e', he'⟩ := exec_nameCorruption_error key hread
    refine .inr ⟨e, e', ?_, ?_⟩
    · rw [payloadOf, hd]
      rfl
    · rw [he']
  | ok content =>
    rw [hd] at hread
    rw [exec_nameCorruption_ok key hread]
    dsimp only
    rw [Prog.exec_bind, exec_ofExcept]
    have hpayload : payloadOf .snappy io.dev info = Compression.snappy.decompress content := by
      rw [payloadOf, hd]
      show (if 0 < info.uncompressedSize then Compression.snappy.decompress content else pure content) = _
      rw [if_pos hu]
    rw [hpayload]
    cases Compression.snappy.decompress content with
    | ok data => exact .inl ⟨data, rfl, rfl⟩
    | error e => exact .inr ⟨e, e, rfl, rfl⟩

/-! ## A full GET -/

def Delivered (c : Compression) (d : Disk) (info : ExtentInfo) (body : Bytes) : Prop :=
  if 0 < info.uncompressedSize then
    if c = .snappy then ∃ data, payloadOf .snappy d info = .ok data ∧ data.take info.bodySize = body
    else if info.bodySize = 0 then body = []
    else Pulls c (rawExtent d info.offset info.size) info.size info.bodySize body
  else decodeBlocks (rawExtent d info.offset info.bodySize) info.bodySize = .ok body

/-- The call fails: a Snappy payload that does not decode. -/
def Refused (c : Compression) (d : Disk) (info : ExtentInfo) : Prop :=
  0 < info.uncompressedSize ∧ c = .snappy ∧ ∀ data, payloadOf .snappy d info ≠ .ok data

omit [Crates] in
theorem bodySize_le {info : ExtentInfo} (hu : ¬ 0 < info.uncompressedSize) : info.bodySize ≤ info.size := by
  rw [ExtentInfo.bodySize, ExtentInfo.logicalSize, if_neg hu]
  omega

/-- The call fails, or its stream gives what the blocks it reads do. -/
theorem exec_openStream {io : DeviceIo} (c : Compression) (key : Key) (info : ExtentInfo)
    (hcalm : Calm io info.offset (numBlocks info.size * blockAlignment)) :
    (Refused c io.dev info ∧ ∃ e, (openStream c key info).exec io = (.error e, io)) ∨
    (¬ Refused c io.dev info ∧ ∃ g r, (openStream c key info).exec io = (.ok g, io) ∧ g.consume.exec io = (r, io) ∧
      ∀ body, r = .ok body ↔ Delivered c io.dev info body) := by
  by_cases hu : 0 < info.uncompressedSize
  · by_cases hc : c = .snappy
    · subst hc
      rcases exec_openStream_snappy key hu hcalm with ⟨data, hdata, hopen⟩ | ⟨e, e', hdata, hopen⟩
      · refine .inr ⟨fun h => h.2.2 data hdata, _, _, hopen, GetStream.consume_once _ io, fun body => ?_⟩
        rw [Delivered, if_pos hu, if_pos rfl, Except.ok.injEq, hdata]
        simp
      · refine .inl ⟨⟨hu, rfl, fun data h => ?_⟩, e', hopen⟩
        rw [hdata] at h
        cases h
    · have hnot : ¬ Refused c io.dev info := fun h => hc h.2.1
      obtain ⟨d, hopen, hsize, hd⟩ := exec_openStream_decoder key hu hc hcalm
      by_cases hz : info.bodySize = 0
      · refine .inr ⟨hnot, _, _, hopen, GetStream.consume_nothing (hsize.trans hz) io, fun body => ?_⟩
        rw [Delivered, if_pos hu, if_neg hc, if_pos hz, Except.ok.injEq, eq_comm]
      · obtain ⟨r, hr, hbody⟩ := GetStream.consume_decoder hcalm hz hd
        refine .inr ⟨hnot, _, r, hopen, hr, fun body => ?_⟩
        rw [Delivered, if_pos hu, if_neg hc, if_neg hz]
        exact hbody body
  · have hnot : ¬ Refused c io.dev info := fun h => hu h.1
    refine .inr ⟨hnot, ?_⟩
    by_cases hz : info.bodySize = 0
    · refine ⟨.once [], .ok [], ?_, GetStream.consume_once [] io, fun body => ?_⟩
      · rw [openStream, if_neg hu, if_pos hz]
        rfl
      · have hnil : decodeBlocks (rawExtent io.dev info.offset 0) 0 = .ok [] := by
          rw [rawExtent, decodeBlocks_read]
          rfl
        rw [Delivered, if_neg hu, hz, hnil]
    · have hcalmBody : Calm io info.offset (numBlocks info.bodySize * blockAlignment) := by
        have hle : 0 + numBlocks info.bodySize ≤ numBlocks info.size := by
          rw [Nat.zero_add]
          exact StreamingBlockWriter.numBlocks_mono (bodySize_le hu)
        simpa using hcalm.batch hle
      refine ⟨.blocks (.new info.offset info.bodySize) [], _, ?_, GetStream.consume_blocks hcalmBody, fun body => ?_⟩
      · rw [openStream, if_neg hu, if_neg hz]
        rfl
      · rw [Delivered, if_neg hu]

def Store.Refuses (s : Store) (key : Key) : Prop := ∀ info, s.files.lookup key = some info → Refused s.compression s.io.dev info

def Store.Delivers (s : Store) (key : Key) (body : Bytes) : Prop :=
  ∃ info, s.files.lookup key = some info ∧ Delivered s.compression s.io.dev info body

def Store.CalmAt (s : Store) (key : Key) : Prop :=
  ∀ info, s.files.lookup key = some info → Calm s.io info.offset (numBlocks info.size * blockAlignment)

theorem exec_getStream {s : Store} {key : Key} (hcalm : s.CalmAt key) :
    (s.Refuses key ∧ ∃ e, (getStream key).exec s = (.error e, s)) ∨
    (¬ s.Refuses key ∧ ∃ g r, (getStream key).exec s = (.ok g, s) ∧ (onDevice g.consume).exec s = (r, s) ∧
      ∀ body, r = .ok body ↔ s.Delivers key body) := by
  cases hi : s.files.lookup key with
  | none =>
    refine .inl ⟨fun info h => ?_, .notFound key, ?_⟩
    · rw [hi] at h
      cases h
    · rw [getStream, Prog.exec_bind]
      have hget : (getFile key).exec s = (.error (.notFound key), s) := by
        unfold getFile Prog.exec
        simp only [hi]
      rw [hget]
  | some info =>
    have hget : (getFile key).exec s = (.ok info, s) := by
      unfold getFile Prog.exec
      simp only [hi]
    have hstream : (getStream key).exec s =
        (((openStream s.compression key info).exec s.io).1, s.withIo ((openStream s.compression key info).exec s.io).2) := by
      rw [getStream, Prog.exec_bind, hget]
      rfl
    have hself : s.withIo s.io = s := rfl
    rcases exec_openStream s.compression key info (hcalm info hi) with ⟨href, e, hopen⟩ | ⟨href, g, r, hopen, hr, hbody⟩
    · refine .inl ⟨fun info' h' => ?_, e, ?_⟩
      · rw [hi] at h'
        cases h'
        exact href
      · rw [hstream, hopen, hself]
    · refine .inr ⟨fun h => href (h info hi), g, r, ?_, ?_, fun body => (hbody body).trans ?_⟩
      · rw [hstream, hopen, hself]
      · rw [exec_onDevice, hr, hself]
      · rw [Store.Delivers, hi]
        simp

/-! ## Extents that store a payload -/

/-- The front of a plain extent decodes to the front of the payload. -/
theorem Holds.decode_le {d : Disk} {off m : Nat} {p : Bytes} (h : Holds d off p) (hm : m ≤ p.length) :
    decodeBlocks (rawExtent d off m) m = .ok (p.take m) := by
  have hle := StreamingBlockWriter.numBlocks_mono hm
  have hspec := numBlocks_spec m
  rw [rawExtent, decodeBlocks_read, decodeFirst_read_congr d off m (Nat.le_refl _) hle, h, encodeBlocks,
    decodeFirst_encodeRange_le p hle hm, Nat.min_eq_right hspec]

theorem Holds.decodeBatches {d : Disk} {off : Nat} {p : Bytes} (h : Holds d off p) (j : Nat) :
    decodeBatches (rawExtent d off p.length) p.length j =
      .ok (p.take (min (min (j * batchBlocks) (numBlocks p.length) * blockDataSize) p.length)) := by
  rw [Raw.decodeBatches, rawExtent, h, encodeBlocks, decodeFirst_encodeRange_le p (Nat.min_le_right _ _) (Nat.le_refl _)]

/-- A decoder gives out the front of what the payload decodes to. -/
theorem Holds.pulls {c : Compression} {d : Disk} {off want : Nat} {p x : Bytes} (h : Holds d off p)
    (hx : Crates.decode c p = some x) (hwant : want ≤ x.length) :
    Pulls c (rawExtent d off p.length) p.length want (x.take want) := by
  have hall := h.decodeBatches (batchCount (numBlocks p.length))
  have hend : min (min (batchCount (numBlocks p.length) * batchBlocks) (numBlocks p.length) * blockDataSize) p.length = p.length := by
    have hspec := numBlocks_spec p.length
    have hcount : numBlocks p.length ≤ batchCount (numBlocks p.length) * batchBlocks := by
      unfold batchCount batchBlocks
      omega
    rw [Nat.min_eq_right hcount]
    omega
  rw [hend, List.take_length] at hall
  -- the first time that it has enough
  have hfirst : ∀ k, AskedFor c (rawExtent d off p.length) p.length want k ∨
      ∃ j < k, AskedFor c (rawExtent d off p.length) p.length want j ∧
        ∃ out, Crates.pull c (p.take (min (min (j * batchBlocks) (numBlocks p.length) * blockDataSize) p.length)) false want = some out := by
    intro k
    induction k with
    | zero => exact .inl fun i hi => absurd hi (Nat.not_lt_zero i)
    | succ k ih =>
      rcases ih with hask | ⟨j, hj, hask, out, hout⟩
      · cases hpull : Crates.pull c (p.take (min (min (k * batchBlocks) (numBlocks p.length) * blockDataSize) p.length)) false want with
        | none => exact .inl (hask.succ (h.decodeBatches k) hpull)
        | some out => exact .inr ⟨k, by omega, hask, out, hpull⟩
      · exact .inr ⟨j, by omega, hask, out, hout⟩
  rcases hfirst (batchCount (numBlocks p.length)) with hask | ⟨j, hj, hask, out, hout⟩
  · cases hpull : Crates.pull c p false want with
    | none => exact (hask.pulls_end rfl hall hpull _).mpr (Crates.pull_all c x p want hx hwant)
    | some out =>
      have hout := hpull
      rw [← List.take_length (l := p)] at hout
      rw [hask.pulls_some (Nat.le_refl _) hall hpull]
      exact Crates.pull_some c x p p.length want out hx hout
  · rw [hask.pulls_some (Nat.le_of_lt hj) (h.decodeBatches j) hout]
    exact Crates.pull_some c x p _ want out hx hout

/-- A store whose compression is off has no compressed entries. -/
theorem Stores.delivered {c : Compression} {d : Disk} {info : ExtentInfo} {payload : Bytes} (h : Stores c d info payload)
    (hc : c = .none → info.uncompressedSize = 0) : Delivered c d info (payload.take info.bodySize) := by
  have hlen := h.length
  have hpayload := h.payloadOf
  obtain ⟨p, hsize, hholds, -, h⟩ := h
  unfold Delivered
  rcases h with ⟨h0, rfl⟩ | ⟨hu, hlen', hdec⟩
  · have hu : ¬ 0 < info.uncompressedSize := by omega
    rw [if_neg hu]
    exact hholds.decode_le (hsize ▸ bodySize_le hu)
  · rw [if_pos hu]
    have hbody : info.bodySize ≤ payload.length := by
      rw [hlen, ExtentInfo.bodySize]
      omega
    by_cases hs : c = .snappy
    · subst hs
      rw [if_pos rfl]
      exact ⟨payload, hpayload, rfl⟩
    rw [if_neg hs]
    by_cases hz : info.bodySize = 0
    · rw [if_pos hz, hz, List.take_zero]
    · rw [if_neg hz, ← hsize]
      refine hholds.pulls ?_ hbody
      have hnone : c ≠ .none := fun hn => by
        have := hc hn
        omega
      unfold Compression.decompress at hdec
      split at hdec
      · exact absurd rfl hnone
      · split at hdec
        · next out hout => rw [hout, Except.ok.inj hdec]
        · cases hdec

end ObjStr.Raw
