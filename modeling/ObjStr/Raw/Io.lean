/-
  ObjStr.Raw.Io — positional reads and writes of the device (`io.rs`).

  Every device call takes the next outcome of a script: it is done, or it fails. A failed
  write still reaches some of its 4 KB blocks; which ones is part of the outcome. The log
  holds what happened to the device: it is not read by the code. A write past the end of the
  device fails.

  `Wrote P io io'` says that the device went from `io` to `io'` through logged events that
  all satisfy `P`; it composes, and gives the frame (`Wrote.byte_eq`, `Wrote.read_eq`).
-/

import ObjStr.Lib.Prog
import ObjStr.Raw.Basic

namespace ObjStr.Raw

open ObjStr.Lib

def RawStoreError.OfDevice : RawStoreError → Prop
  | .io _ | .readOnly | .panic _ => True
  | _ => False

/-- The outcome of one device call; a failed write reached the blocks `landed` holds of. -/
inductive Outcome where
  | done
  | failed (landed : Nat → Bool)

structure DeviceIo where
  dev : Disk
  /-- `O_DIRECT` is active. -/
  direct : Bool
  readOnly : Bool
  /-- The outcomes of the calls to come; calls after the last one are done. -/
  script : List Outcome
  log : List Disk.Event

abbrev IoM := Prog DeviceIo RawStoreError

def alignLen (n : Nat) : Nat := alignUp n blockAlignment

namespace DeviceIo

def nextOutcome : IoM Outcome := fun io =>
  match io.script with
  | [] => (.ok .done, io)
  | o :: rest => (.ok o, { io with script := rest })

def push (io : DeviceIo) (e : Disk.Event) : DeviceIo := { io with dev := io.dev.apply e, log := io.log ++ [e] }

def writeAllAt (offset : Nat) (data : Bytes) : IoM Unit := do
  let io ← get
  if io.dev.size < offset + data.length then throw (.io "write past the end of the device")
  match ← nextOutcome with
  | .done => modify (·.push (.write offset data fun _ => true))
  | .failed landed =>
    modify (·.push (.write offset data fun a => landed (a / blockAlignment)))
    throw (.io "write failed")

def readExactAt (offset len : Nat) : IoM Bytes := do
  match ← nextOutcome with
  | .done =>
    let io ← get
    if io.dev.size < offset + len then throw (.io "failed to fill whole buffer")
    pure (io.dev.read offset len)
  | .failed _ => throw (.io "read failed")

/-- Write `data` at the given byte offset. With `O_DIRECT` the write is padded to whole blocks. -/
def pwrite (offset : Nat) (data : Bytes) : IoM Unit := do
  let io ← get
  if io.readOnly then throw .readOnly
  if io.direct then
    if offset % blockAlignment ≠ 0 then throw (.panic "O_DIRECT pwrite: offset is not aligned")
    if data = [] then throw (.panic "aligned_buf: len must be > 0")
    writeAllAt offset (data ++ List.replicate (alignLen data.length - data.length) 0)
  else writeAllAt offset data

/-- Read `len` bytes from the given byte offset. With `O_DIRECT` whole blocks are read. -/
def pread (offset len : Nat) : IoM Bytes := do
  if len = 0 then pure []
  else
    let io ← get
    if io.direct then
      if offset % blockAlignment ≠ 0 then throw (.panic "O_DIRECT pread: offset is not aligned")
      let buf ← readExactAt offset (alignLen len)
      pure (buf.take len)
    else readExactAt offset len

def sync : IoM Unit := do
  let io ← get
  if io.readOnly then throw .readOnly
  match ← nextOutcome with
  | .done => modify (·.push .sync)
  | .failed _ => throw (.io "sync failed")

/-! ## What a call can do to the device -/

/-- The device went from `io` to `io'` through events that all satisfy `P`. -/
structure Wrote (P : Disk.Event → Prop) (io io' : DeviceIo) : Prop where
  direct_eq : io'.direct = io.direct
  readOnly_eq : io'.readOnly = io.readOnly
  events : ∃ evs, io'.log = io.log ++ evs ∧ io'.dev = io.dev.replay evs ∧ ∀ e ∈ evs, P e

variable {P Q : Disk.Event → Prop} {io io' io'' : DeviceIo}

theorem Wrote.refl : Wrote P io io := ⟨rfl, rfl, [], by simp, rfl, by simp⟩

theorem Wrote.trans (h : Wrote P io io') (h' : Wrote P io' io'') : Wrote P io io'' := by
  obtain ⟨l, hl, hd, hp⟩ := h.events
  obtain ⟨m, hm, hd', hp'⟩ := h'.events
  refine ⟨h'.direct_eq.trans h.direct_eq, h'.readOnly_eq.trans h.readOnly_eq, l ++ m, ?_, ?_, ?_⟩
  · rw [hm, hl, List.append_assoc]
  · rw [hd', hd, Disk.replay_append]
  · intro e he
    rcases List.mem_append.mp he with he | he
    · exact hp e he
    · exact hp' e he

theorem Wrote.mono (h : Wrote P io io') (hPQ : ∀ e, P e → Q e) : Wrote Q io io' := by
  obtain ⟨l, hl, hd, hp⟩ := h.events
  exact ⟨h.direct_eq, h.readOnly_eq, l, hl, hd, fun e he => hPQ e (hp e he)⟩

theorem Wrote.size_eq (h : Wrote P io io') : io'.dev.size = io.dev.size := by
  obtain ⟨l, -, hd, -⟩ := h.events
  rw [hd, Disk.replay_size]

/-- What no event reaches is unchanged. -/
theorem Wrote.byte_eq (h : Wrote P io io') {a : Nat} (ha : ∀ e, P e → ¬ e.Reaches a) : io'.dev.byte a = io.dev.byte a := by
  obtain ⟨l, -, hd, hp⟩ := h.events
  rw [hd, Disk.replay_frame (fun e he => ha e (hp e he))]

theorem Wrote.read_eq (h : Wrote P io io') {off len : Nat}
    (ha : ∀ e a, P e → off ≤ a → a < off + len → ¬ e.Reaches a) : io'.dev.read off len = io.dev.read off len :=
  Disk.read_congr fun a h1 h2 => h.byte_eq fun e he => ha e a he h1 h2

/-- The device went from `io` to `io'` through these events. -/
structure Logged (io : DeviceIo) (evs : List Disk.Event) (io' : DeviceIo) : Prop where
  direct_eq : io'.direct = io.direct
  readOnly_eq : io'.readOnly = io.readOnly
  log_eq : io'.log = io.log ++ evs
  dev_eq : io'.dev = io.dev.replay evs

theorem Logged.trans {evs evs' : List Disk.Event} (h : Logged io evs io') (h' : Logged io' evs' io'') :
    Logged io (evs ++ evs') io'' :=
  ⟨h'.direct_eq.trans h.direct_eq, h'.readOnly_eq.trans h.readOnly_eq,
    by rw [h'.log_eq, h.log_eq, List.append_assoc], by rw [h'.dev_eq, h.dev_eq, Disk.replay_append]⟩

theorem Wrote.logged (h : Wrote P io io') : ∃ evs, Logged io evs io' ∧ ∀ e ∈ evs, P e := by
  obtain ⟨evs, h1, h2, h3⟩ := h.events
  exact ⟨evs, ⟨h.direct_eq, h.readOnly_eq, h1, h2⟩, h3⟩

theorem Logged.wrote {evs : List Disk.Event} (h : Logged io evs io') (hp : ∀ e ∈ evs, P e) : Wrote P io io' :=
  ⟨h.direct_eq, h.readOnly_eq, evs, h.log_eq, h.dev_eq, hp⟩

/-- No event at all. -/
def Quiet : DeviceIo → DeviceIo → Prop := Wrote fun _ => False

theorem Quiet.dev_eq (h : Quiet io io') : io'.dev = io.dev ∧ io'.log = io.log := by
  obtain ⟨l, hl, hd, hp⟩ := h.events
  have : l = [] := List.eq_nil_iff_forall_not_mem.mpr hp
  subst this
  exact ⟨hd, by simpa using hl⟩

theorem Quiet.wrote (h : Quiet io io') : Wrote P io io' := Wrote.mono h fun _ hf => hf.elim

def Inside (span : Span) : Disk.Event → Prop
  | .write off data _ => span.1 ≤ off ∧ off + data.length ≤ span.1 + span.2
  | .sync => True

theorem Inside.reaches {span : Span} {e : Disk.Event} (h : Inside span e) {a : Nat} (ha : e.Reaches a) : span.Has a := by
  cases e with
  | write off data landed =>
    simp only [Inside, Disk.Event.Reaches, Span.Has] at *
    omega
  | sync => exact ha.elim

theorem wrote_push {e : Disk.Event} (h : P e) : Wrote P io (io.push e) := ⟨rfl, rfl, [e], rfl, rfl, by simpa using h⟩

/-! ## Specifications -/

/-- The same device later in its script. -/
structure Aged (io io' : DeviceIo) : Prop where
  dev_eq : io'.dev = io.dev
  log_eq : io'.log = io.log
  direct_eq : io'.direct = io.direct
  readOnly_eq : io'.readOnly = io.readOnly
  script_nil : io.script = [] → io'.script = []

theorem Aged.refl : Aged io io := ⟨rfl, rfl, rfl, rfl, id⟩

theorem Aged.trans (h : Aged io io') (h' : Aged io' io'') : Aged io io'' :=
  ⟨h'.dev_eq.trans h.dev_eq, h'.log_eq.trans h.log_eq, h'.direct_eq.trans h.direct_eq,
    h'.readOnly_eq.trans h.readOnly_eq, fun hn => h'.script_nil (h.script_nil hn)⟩

/-- Without a script nothing is left to differ. -/
theorem Aged.eq (h : Aged io io') (hn : io.script = []) : io' = io := by
  cases io; cases io'
  obtain ⟨h1, h2, h3, h4, h5⟩ := h
  simp only at *
  simp [h1, h2, h3, h4, h5 hn, hn]

theorem Aged.quiet (h : Aged io io') : Quiet io io' :=
  ⟨h.direct_eq, h.readOnly_eq, [], by simp [h.log_eq], h.dev_eq, by simp⟩

theorem Aged.wrote (h : Aged io io') : Wrote P io io' := h.quiet.wrote

theorem Aged.logged (h : Aged io io') : Logged io [] io' :=
  ⟨h.direct_eq, h.readOnly_eq, by simp [h.log_eq], h.dev_eq⟩

theorem Aged.logged_push (h : Aged io io') (e : Disk.Event) : Logged io [e] (io'.push e) :=
  ⟨h.direct_eq, h.readOnly_eq, by rw [← h.log_eq]; rfl, by rw [← h.dev_eq]; rfl⟩

theorem Aged.wrote_push (h : Aged io io') {e : Disk.Event} (he : P e) : Wrote P io (io'.push e) :=
  h.wrote.trans (DeviceIo.wrote_push he)

theorem wp_nextOutcome {Q : Outcome → DeviceIo → Prop} {E : RawStoreError → DeviceIo → Prop}
    (h : ∀ o io', Aged io io' → (io.script = [] → o = .done) → Q o io') : Prog.wp nextOutcome Q E io := by
  unfold Prog.wp nextOutcome
  cases hs : io.script with
  | nil => exact h .done io Aged.refl fun _ => rfl
  | cons o rest => exact h o _ ⟨rfl, rfl, rfl, rfl, by simp [hs]⟩ (by simp [hs])

/-- How many bytes a call of this length touches. -/
def extent (io : DeviceIo) (len : Nat) : Nat := if io.direct then alignLen len else len

/-- Nothing can go wrong with a call on these bytes: no outcome is scripted, they exist, they are aligned where
    `O_DIRECT` needs it. -/
structure Calm (io : DeviceIo) (offset len : Nat) : Prop where
  script_nil : io.script = []
  aligned : io.direct = true → offset % blockAlignment = 0
  inside : offset + io.extent len ≤ io.dev.size

theorem Calm.aged {offset len : Nat} (h : Calm io offset len) (ha : Aged io io') : Calm io' offset len := by
  refine ⟨ha.script_nil h.script_nil, fun hd => h.aligned (by rw [← ha.direct_eq]; exact hd), ?_⟩
  have := h.inside
  unfold extent at *
  rw [ha.dev_eq, ha.direct_eq]
  exact this

/-- The bytes a `pwrite` of `data` puts on the device. -/
def padded (io : DeviceIo) (data : Bytes) : Bytes :=
  if io.direct then data ++ List.replicate (alignLen data.length - data.length) 0 else data

theorem le_alignLen (n : Nat) : n ≤ alignLen n := by
  unfold alignLen alignUp blockAlignment
  omega

theorem length_padded (io : DeviceIo) (data : Bytes) :
    data.length ≤ (io.padded data).length ∧ (io.padded data).length ≤ alignLen data.length := by
  have := le_alignLen data.length
  unfold padded
  split
  · simp; omega
  · exact ⟨Nat.le_refl _, this⟩

theorem length_padded_eq (io : DeviceIo) (data : Bytes) : (io.padded data).length = io.extent data.length := by
  have := le_alignLen data.length
  unfold padded extent
  split
  · simp; omega
  · rfl

theorem take_padded (io : DeviceIo) (data : Bytes) : (io.padded data).take data.length = data := by
  unfold padded
  split <;> simp

def DoneWrite (offset : Nat) (data : Bytes) (io io' : DeviceIo) : Prop :=
  ∃ io1, Aged io io1 ∧ io' = io1.push (.write offset (io.padded data) fun _ => true)

/-- A write that failed: it did nothing, or reached some of its blocks. -/
def FailedWrite (offset : Nat) (data : Bytes) (io io' : DeviceIo) : Prop :=
  ∃ io1, Aged io io1 ∧ (io' = io1 ∨
    ∃ landed : Nat → Bool, io' = io1.push (.write offset (io.padded data) fun a => landed (a / blockAlignment)))

theorem wp_writeAllAt (offset : Nat) (data : Bytes) :
    Prog.wp (writeAllAt offset data)
      (fun _ io' => ∃ io1, Aged io io1 ∧ io' = io1.push (.write offset data fun _ => true))
      (fun _ io' => (∃ io1, Aged io io1 ∧ (io' = io1 ∨
        ∃ landed : Nat → Bool, io' = io1.push (.write offset data fun a => landed (a / blockAlignment)))) ∧
        ¬ (io.script = [] ∧ offset + data.length ≤ io.dev.size)) io := by
  unfold writeAllAt
  simp only [Prog.wp_bind, Prog.wp_get]
  split
  · next h => exact ⟨⟨io, Aged.refl, Or.inl rfl⟩, by omega⟩
  · rw [Prog.wp_bind]
    apply wp_nextOutcome
    intro o io1 ha ho
    cases o with
    | done => exact ⟨io1, ha, rfl⟩
    | failed landed => exact ⟨⟨io1, ha, Or.inr ⟨landed, rfl⟩⟩, fun h => by simpa using ho h.1⟩

theorem wp_pwrite (offset : Nat) (data : Bytes) :
    Prog.wp (pwrite offset data) (fun _ io' => io.readOnly = false ∧ DoneWrite offset data io io')
      (fun _ io' => FailedWrite offset data io io' ∧
        ¬ (Calm io offset data.length ∧ io.readOnly = false ∧ data ≠ [])) io := by
  have hquiet : FailedWrite offset data io io := ⟨io, Aged.refl, Or.inl rfl⟩
  unfold pwrite
  simp only [Prog.wp_bind, Prog.wp_get]
  cases hro : io.readOnly with
  | true => exact ⟨hquiet, by simp⟩
  | false =>
    have hend := length_padded_eq io data
    cases hd : io.direct with
    | true =>
      simp only [Bool.false_eq_true, if_false, if_true]
      split
      · next h => exact ⟨hquiet, fun hc => h (hc.1.aligned hd)⟩
      · split
        · next h => exact ⟨hquiet, fun hc => hc.2.2 h⟩
        · refine Prog.wp_mono (wp_writeAllAt _ _) ?_ ?_
          · intro _ io' h
            exact ⟨trivial, by simpa [DoneWrite, padded, hd] using h⟩
          · rintro _ io' ⟨h, hc⟩
            have hp : io.padded data = data ++ List.replicate (alignLen data.length - data.length) 0 := by
              simp [padded, hd]
            refine ⟨by simpa [FailedWrite, hp] using h, fun hcalm => hc ⟨hcalm.1.script_nil, ?_⟩⟩
            rw [← hp, hend]
            exact hcalm.1.inside
    | false =>
      simp only [Bool.false_eq_true, if_false]
      refine Prog.wp_mono (wp_writeAllAt _ _) ?_ ?_
      · intro _ io' h
        exact ⟨trivial, by simpa [DoneWrite, padded, hd] using h⟩
      · rintro _ io' ⟨h, hc⟩
        have hp : io.padded data = data := by simp [padded, hd]
        refine ⟨by simpa [FailedWrite, hp] using h, fun hcalm => hc ⟨hcalm.1.script_nil, ?_⟩⟩
        rw [hp] at hend
        rw [hend]
        exact hcalm.1.inside

theorem wp_sync :
    Prog.wp sync (fun _ io' => io.readOnly = false ∧ ∃ io1, Aged io io1 ∧ io' = io1.push .sync)
      (fun _ io' => Aged io io' ∧ ¬ (io.script = [] ∧ io.readOnly = false)) io := by
  unfold sync
  simp only [Prog.wp_bind, Prog.wp_get]
  split
  · next h => exact ⟨Aged.refl, by simp [h]⟩
  · next h =>
    rw [Prog.wp_bind]
    apply wp_nextOutcome
    intro o io1 ha ho
    cases o with
    | done => exact ⟨by simpa using h, io1, ha, rfl⟩
    | failed landed => exact ⟨ha, fun hc => by simpa using ho hc.1⟩

theorem wp_sync_of {Q : Unit → DeviceIo → Prop} {E : RawStoreError → DeviceIo → Prop}
    (hok : ∀ io', Aged io io' → Q () (io'.push .sync)) (herr : ∀ e io', Aged io io' → E e io') : Prog.wp sync Q E io := by
  refine Prog.wp_mono wp_sync ?_ (fun e io' h => herr e io' h.1)
  rintro _ io' ⟨-, io1, ha, rfl⟩
  exact hok io1 ha

theorem wp_readExactAt (offset len : Nat) :
    Prog.wp (readExactAt offset len) (fun b io' => b = io.dev.read offset len ∧ Aged io io')
      (fun _ io' => Aged io io' ∧ ¬ (io.script = [] ∧ offset + len ≤ io.dev.size)) io := by
  unfold readExactAt
  simp only [Prog.wp_bind]
  apply wp_nextOutcome
  intro o io1 ha ho
  cases o with
  | done =>
    simp only [Prog.wp_bind, Prog.wp_get, ha.dev_eq]
    split
    · exact ⟨ha, by omega⟩
    · exact ⟨rfl, ha⟩
  | failed landed => exact ⟨ha, fun h => by simpa using ho h.1⟩

theorem wp_pread (offset len : Nat) :
    Prog.wp (pread offset len) (fun b io' => b = io.dev.read offset len ∧ Aged io io')
      (fun _ io' => Aged io io' ∧ ¬ Calm io offset len) io := by
  have hle := le_alignLen len
  unfold pread
  split
  · next h => subst h; exact ⟨rfl, Aged.refl⟩
  · simp only [Prog.wp_bind, Prog.wp_get]
    cases hd : io.direct with
    | true =>
      simp only [if_true]
      split
      · next h => exact ⟨Aged.refl, fun hc => h (hc.aligned hd)⟩
      · rw [Prog.wp_bind]
        refine Prog.wp_mono (wp_readExactAt _ _) ?_ ?_
        · rintro b io' ⟨rfl, h⟩
          refine ⟨?_, h⟩
          have := Disk.read_drop_take io.dev offset (alignLen len) 0 len (by omega)
          simpa using this
        · rintro _ io' ⟨h, hc⟩
          refine ⟨h, fun hcalm => hc ⟨hcalm.script_nil, ?_⟩⟩
          simpa [extent, hd] using hcalm.inside
    | false =>
      refine Prog.wp_mono (wp_readExactAt _ _) (fun _ _ h => h) ?_
      rintro _ io' ⟨h, hc⟩
      refine ⟨h, fun hcalm => hc ⟨hcalm.script_nil, ?_⟩⟩
      simpa [extent, hd] using hcalm.inside

theorem Inside.mono {a b : Span} (h1 : b.1 ≤ a.1) (h2 : a.1 + a.2 ≤ b.1 + b.2) {e : Disk.Event} (h : Inside a e) :
    Inside b e := by
  cases e with
  | sync => trivial
  | write off data landed =>
    simp only [Inside] at *
    omega

theorem FailedWrite.wrote_padded {offset : Nat} {data : Bytes} (h : FailedWrite offset data io io') :
    Wrote (Inside (offset, (io.padded data).length)) io io' := by
  obtain ⟨io1, ha, rfl | ⟨landed, rfl⟩⟩ := h
  · exact ha.wrote
  · exact ha.wrote_push ⟨Nat.le_refl _, Nat.le_refl _⟩

theorem DoneWrite.wrote_padded {offset : Nat} {data : Bytes} (h : DoneWrite offset data io io') :
    Wrote (Inside (offset, (io.padded data).length)) io io' := by
  obtain ⟨io1, ha, rfl⟩ := h
  exact ha.wrote_push ⟨Nat.le_refl _, Nat.le_refl _⟩

theorem FailedWrite.wrote {offset : Nat} {data : Bytes} (h : FailedWrite offset data io io') :
    Wrote (Inside (offset, alignLen data.length)) io io' :=
  h.wrote_padded.mono fun _ he => Inside.mono (Nat.le_refl offset) (by have := (length_padded io data).2; simp only; omega) he

/-- A write that succeeded stays inside its blocks and reads back. -/
theorem DoneWrite.wrote {offset : Nat} {data : Bytes} (h : DoneWrite offset data io io') :
    Wrote (Inside (offset, alignLen data.length)) io io' ∧ io'.dev.read offset data.length = data := by
  have hlen := length_padded io data
  refine ⟨h.wrote_padded.mono fun _ he => Inside.mono (Nat.le_refl offset) (by simp only; omega) he, ?_⟩
  · obtain ⟨io1, ha, rfl⟩ := h
    have h1 := Disk.read_write_same io1.dev offset (io.padded data)
    have h2 := Disk.read_drop_take (io1.dev.write offset (io.padded data) fun _ => true) offset (io.padded data).length 0
      data.length (by omega)
    rw [h1, List.drop_zero, take_padded] at h2
    exact h2.symm

/-! ## Errors of device calls -/

theorem errors_writeAllAt (offset : Nat) (data : Bytes) :
    Prog.wp (writeAllAt offset data) (fun _ _ => True) (fun e _ => e.OfDevice) io := by
  unfold writeAllAt
  simp only [Prog.wp_bind, Prog.wp_get]
  split
  · exact trivial
  · rw [Prog.wp_bind]
    apply wp_nextOutcome
    intro o io1 _ _
    cases o <;> exact trivial

theorem errors_pwrite (offset : Nat) (data : Bytes) :
    Prog.wp (pwrite offset data) (fun _ _ => True) (fun e _ => e.OfDevice) io := by
  unfold pwrite
  simp only [Prog.wp_bind, Prog.wp_get]
  repeat' split
  all_goals first | exact trivial | exact errors_writeAllAt _ _

theorem errors_sync : Prog.wp sync (fun _ _ => True) (fun e _ => e.OfDevice) io := by
  unfold sync
  simp only [Prog.wp_bind, Prog.wp_get]
  split
  · exact trivial
  · rw [Prog.wp_bind]
    apply wp_nextOutcome
    intro o io1 _ _
    cases o <;> exact trivial

theorem errors_readExactAt (offset len : Nat) :
    Prog.wp (readExactAt offset len) (fun _ _ => True) (fun e _ => e.OfDevice) io := by
  unfold readExactAt
  simp only [Prog.wp_bind]
  apply wp_nextOutcome
  intro o io1 _ _
  cases o with
  | done =>
    simp only [Prog.wp_bind, Prog.wp_get]
    split <;> exact trivial
  | failed landed => exact trivial

theorem errors_pread (offset len : Nat) :
    Prog.wp (pread offset len) (fun _ _ => True) (fun e _ => e.OfDevice) io := by
  unfold pread
  split
  · exact trivial
  · simp only [Prog.wp_bind, Prog.wp_get]
    repeat' split
    · exact trivial
    · rw [Prog.wp_bind]
      exact Prog.wp_mono (errors_readExactAt _ _) (fun _ _ _ => trivial) (fun _ _ h => h)
    · exact errors_readExactAt _ _

end DeviceIo

end ObjStr.Raw
