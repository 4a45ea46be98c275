/-
  ObjStr.Raw.Ranges — ranged GETs: the bytes of a clamped range, read from the blocks that cover it.

  A range is clamped to the body (`GetRange.resolve`). A compressed payload is decompressed whole and sliced; of a plain
  one only the blocks from `start / 4092` to `(stop - 1) / 4092` are read. When the clamped range is empty and starts
  at a block boundary other than 0, the first of these lies behind the last, and their distance is subtracted unchecked.
  - `decodeBlockRange_holds`: the blocks of an extent, from any one on, give the slice they cover.
  - `getRanged_slices_iff`: a ranged GET returns the slice, and reads inside the extent, if and only if
    the range is not such a one (`OnBoundary`).
  - `a_range_from_the_end_of_a_full_block_unwinds`: a body of one full block, read from its end on.
-/

import ObjStr.Raw.Sample
import ObjStr.Raw.Streams

namespace ObjStr.Raw

open ObjStr.Lib DeviceIo

/-! ## Slices -/

/-- The bytes `[start, stop)`. -/
def slice (p : Bytes) (start stop : Nat) : Bytes := (p.drop start).take (stop - start)

theorem slice_empty (p : Bytes) {start stop : Nat} (h : stop ≤ start) : slice p start stop = [] := by
  rw [slice, Nat.sub_eq_zero_of_le h, List.take_zero]

theorem slice_append (p : Bytes) {i j k : Nat} (hij : i ≤ j) (hjk : j ≤ k) : slice p i j ++ slice p j k = slice p i k := by
  obtain ⟨m, rfl⟩ := Nat.exists_eq_add_of_le hij
  obtain ⟨n, rfl⟩ := Nat.exists_eq_add_of_le hjk
  unfold slice
  rw [Nat.add_sub_cancel_left, Nat.add_sub_cancel_left, Nat.add_assoc, Nat.add_sub_cancel_left, ← List.drop_drop,
    List.take_add]

/-- The front of the payload is all that matters. -/
theorem slice_take (p : Bytes) {m start stop : Nat} (h : stop ≤ m) : slice (p.take m) start stop = slice p start stop := by
  unfold slice
  rw [List.drop_take, List.take_take]
  congr 1
  omega

/-- A slice of a block's data region, padding aside, is a slice of the payload. -/
theorem slice_block (p : Bytes) {b i j : Nat} (hi : b * blockDataSize ≤ i) (hij : i ≤ j) (hj : j ≤ b * blockDataSize + blockDataSize)
    (hp : j ≤ p.length) :
    ((padTo blockDataSize (blockPart p b)).drop (i - b * blockDataSize)).take (j - i) = slice p i j := by
  have hlen : (blockPart p b).length = min blockDataSize (p.length - b * blockDataSize) := by simp [blockPart]
  obtain ⟨m, rfl⟩ := Nat.exists_eq_add_of_le hi
  rw [Nat.add_sub_cancel_left, padTo, List.drop_append_of_le_length (by omega),
    List.take_append_of_le_length (by rw [List.length_drop]; omega), blockPart, slice, List.drop_take, List.drop_drop,
    List.take_take]
  congr 1
  omega

section Ranges

variable [Crates]

/-! ## Decoding a range of blocks -/

def rangeRound (raw : Bytes) (first start stop : Nat) (result : Bytes) (i : Nat) : Except RawStoreError Bytes := do
  let data ← verifyBlockCrc (rawBlock raw i) (first + i)
  if max start ((first + i) * blockDataSize) < min stop ((first + i) * blockDataSize + blockDataSize) then
    pure (result ++ (data.drop (max start ((first + i) * blockDataSize) - (first + i) * blockDataSize)).take
      (min stop ((first + i) * blockDataSize + blockDataSize) - max start ((first + i) * blockDataSize)))
  else pure result

theorem decodeBlockRange_eq (raw : Bytes) (first start stop : Nat) :
    decodeBlockRange raw first start stop = (List.range (raw.length / blockAlignment)).foldlM (rangeRound raw first start stop) [] :=
  rfl

/-- A round extends the slice by what the block covers of it. -/
theorem rangeRound_holds {d : Disk} {off first n start stop i : Nat} {p : Bytes} (h : Holds d off p) (hi : i < n)
    (hn : first + n ≤ numBlocks p.length) (hstop : stop ≤ p.length) :
    rangeRound (d.read (off + first * blockAlignment) (n * blockAlignment)) first start stop
      (slice p start (min stop ((first + i) * blockDataSize))) i =
      .ok (slice p start (min stop ((first + (i + 1)) * blockDataSize))) := by
  have hblock : rawBlock (d.read (off + first * blockAlignment) (n * blockAlignment)) i = encodeBlock (blockPart p (first + i)) := by
    have hall := rawBlock_read d off (show first + i < numBlocks p.length by omega)
    rw [h, encodeBlocks, rawBlock_encodeRange p (by omega)] at hall
    rw [rawBlock_read d _ hi, hall, Nat.add_mul, Nat.add_assoc]
  have hnext : (first + (i + 1)) * blockDataSize = (first + i) * blockDataSize + blockDataSize := by
    rw [← Nat.add_assoc, Nat.succ_mul]
  unfold rangeRound
  rw [hblock, verifyBlockCrc_encodeBlock, hnext]
  generalize hb : first + i = b
  show (if max start (b * blockDataSize) < min stop (b * blockDataSize + blockDataSize) then _ else _) = _
  split
  · next hlt =>
    have hpiece := slice_block p (b := b) (Nat.le_max_right start _) (Nat.le_of_lt hlt) (Nat.min_le_right _ _) (by omega)
    rw [hpiece]
    show Except.ok _ = Except.ok _
    by_cases hs : start ≤ b * blockDataSize
    · rw [Nat.max_eq_right hs, Nat.min_eq_right (by omega), slice_append p hs (by omega)]
    · rw [Nat.max_eq_left (by omega), slice_empty p (show min stop (b * blockDataSize) ≤ start by omega), List.nil_append]
  · next hge =>
    show Except.ok _ = Except.ok _
    by_cases hs : stop ≤ b * blockDataSize
    · rw [Nat.min_eq_left hs, Nat.min_eq_left (by omega)]
    · have hpos : 0 < blockDataSize := by decide
      rw [slice_empty p (by omega), slice_empty p (by omega)]

/-- The blocks from `first` on give the slice, if they cover it. -/
theorem decodeBlockRange_holds {d : Disk} {off first n start stop : Nat} {p : Bytes} (h : Holds d off p)
    (hn : first + n ≤ numBlocks p.length) (hfirst : first * blockDataSize ≤ start) (hstop : stop ≤ p.length)
    (hlast : stop ≤ (first + n) * blockDataSize) :
    decodeBlockRange (d.read (off + first * blockAlignment) (n * blockAlignment)) first start stop = .ok (slice p start stop) := by
  rw [decodeBlockRange_eq, Disk.length_read, Nat.mul_div_cancel _ (by decide)]
  have hrounds : ∀ k ≤ n, (List.range k).foldlM
      (rangeRound (d.read (off + first * blockAlignment) (n * blockAlignment)) first start stop) [] =
        .ok (slice p start (min stop ((first + k) * blockDataSize))) := by
    intro k
    induction k with
    | zero =>
      intro _
      rw [slice_empty p (by rw [Nat.add_zero]; omega)]
      rfl
    | succ k ih =>
      intro hk
      rw [List.range_succ, List.foldlM_append, ih (by omega)]
      show (rangeRound _ first start stop _ k >>= pure) = _
      rw [rangeRound_holds h (by omega) hn hstop]
      rfl
  rw [hrounds n (Nat.le_refl n), Nat.min_eq_left hlast]

/-! ## Objects -/

/-- The store lists an object under this key: its extent stores the payload, and no device call on it fails. -/
structure IsObject (s : Store) (key : Key) (info : ExtentInfo) (payload : Bytes) : Prop where
  listed : s.files.lookup key = some info
  stored : Stores s.compression s.io.dev info payload
  sized : 0 < info.size
  inside : info.offset + numBlocks info.size * blockAlignment ≤ u64Max
  calm : Calm s.io info.offset (numBlocks info.size * blockAlignment)

def ExtentInfo.Encloses (info : ExtentInfo) (span : Span) : Prop :=
  info.offset ≤ span.1 ∧ span.1 + span.2 ≤ info.offset + numBlocks info.size * blockAlignment

/-- The range is empty and lies on a block boundary of a plain payload, behind a block. -/
def ExtentInfo.OnBoundary (info : ExtentInfo) (r : Nat × Nat) : Prop :=
  info.uncompressedSize = 0 ∧ r.1 = r.2 ∧ 0 < r.1 ∧ r.1 % blockDataSize = 0

/-! ## Ranged GETs -/

omit [Crates] in
theorem GetRange.resolve_le (range : GetRange) (total : Nat) : (range.resolve total).1 ≤ (range.resolve total).2 ∧
    (range.resolve total).2 ≤ total := by
  cases range with
  | bounded start stop => exact ⟨Nat.min_le_right _ _, Nat.min_le_right _ _⟩
  | offset start => exact ⟨Nat.min_le_right _ _, Nat.le_refl _⟩
  | suffix len => exact ⟨Nat.sub_le _ _, Nat.le_refl _⟩

omit [Crates] in
/-- The first block lies behind the last one exactly for such a range. -/
theorem last_lt_first_iff {start stop : Nat} (h : start ≤ stop) :
    (stop - 1) / blockDataSize < start / blockDataSize ↔ start = stop ∧ 0 < start ∧ start % blockDataSize = 0 := by
  unfold blockDataSize blockAlignment blockCrcSize
  omega

section

variable {s : Store} {key : Key} {info : ExtentInfo} {payload : Bytes}

omit [Crates] in
theorem exec_getFile_listed (h : s.files.lookup key = some info) : (getFile key).exec s = (.ok info, s) := by
  unfold getFile Prog.exec
  simp only [h]

/-- A compressed payload is read whole. -/
theorem IsObject.exec_doGet (h : IsObject s key info payload) : (doGet key).exec s = (.ok (payload, info), s) := by
  have hread : (readPayload s.compression info).exec s.io = (.ok payload, s.io) := by
    have hwp := wp_readPayload s.compression info s.io
    unfold Prog.wp at hwp
    unfold Prog.exec
    cases hrun : readPayload s.compression info s.io with
    | mk r io' =>
      rw [hrun, h.stored.payloadOf] at hwp
      cases r with
      | ok b =>
        obtain ⟨ha, hb⟩ := hwp
        obtain rfl := ha.eq h.calm.script_nil
        rw [Except.ok.inj hb]
      | error e => exact absurd (hwp.2 h.calm) (by simp)
  unfold doGet
  rw [Prog.exec_bind, exec_getFile_listed h.listed]
  dsimp only
  rw [Prog.exec_bind, Prog.exec_get]
  dsimp only
  rw [Prog.exec_bind, exec_onDevice, exec_nameCorruption_ok key hread]
  rfl

omit [Crates] in
/-- What a read of the device gives where nothing can go wrong. -/
theorem exec_pread_calm {io : DeviceIo} {off len : Nat} (h : Calm io off len) :
    (pread off len).exec io = (.ok (io.dev.read off len), io) := by
  have hwp : Prog.wp (pread off len) (fun b io' => b = io.dev.read off len ∧ Aged io io')
      (fun _ io' => Aged io io' ∧ ¬ Calm io off len) io := wp_pread off len
  unfold Prog.wp at hwp
  unfold Prog.exec
  cases hrun : pread off len io with
  | mk r io' =>
    rw [hrun] at hwp
    cases r with
    | ok b =>
      obtain ⟨rfl, ha⟩ := hwp
      obtain rfl := ha.eq h.script_nil
      rfl
    | error e => exact absurd h hwp.2

omit [Crates] in
/-- The covering blocks are blocks of the extent. -/
theorem ExtentInfo.encloses_rangeSpan {start stop : Nat} (hstop : stop ≤ info.size) (hsize : 0 < info.size)
    (hb : start / blockDataSize ≤ (stop - 1) / blockDataSize) :
    start / blockDataSize + ((stop - 1) / blockDataSize + 1 - start / blockDataSize) ≤ numBlocks info.size ∧
      info.Encloses (info.rangeSpan start stop) := by
  have hlast : (stop - 1) / blockDataSize + 1 ≤ numBlocks info.size := by
    unfold numBlocks blockDataSize blockAlignment blockCrcSize
    split <;> omega
  have hspan := Nat.mul_le_mul_right blockAlignment hlast
  refine ⟨by omega, Nat.le_add_right _ _, ?_⟩
  show info.offset + start / blockDataSize * blockAlignment +
    ((stop - 1) / blockDataSize + 1 - start / blockDataSize) * blockAlignment ≤ _
  rw [Nat.add_assoc, ← Nat.add_mul, show start / blockDataSize + ((stop - 1) / blockDataSize + 1 - start / blockDataSize) =
    (stop - 1) / blockDataSize + 1 by omega]
  omega

/-- The blocks that cover a range of a plain payload give it. -/
theorem IsObject.exec_readRange (h : IsObject s key info payload) (hplain : info.uncompressedSize = 0) {start stop : Nat}
    (hstop : stop ≤ payload.length) (hb : start / blockDataSize ≤ (stop - 1) / blockDataSize) :
    (readRange info start stop).exec s.io = (.ok (slice payload start stop), s.io) := by
  obtain ⟨p, hsize, hholds, -, hpayload⟩ := h.stored
  obtain rfl : p = payload := by
    rcases hpayload with ⟨-, hp⟩ | ⟨hpos, -⟩
    · exact hp
    · omega
  obtain ⟨hblocks, hlow, hhigh⟩ := ExtentInfo.encloses_rangeSpan (hsize ▸ hstop) h.sized hb
  have hinside := h.inside
  have hspan : info.rangeSpan start stop = (info.offset + start / blockDataSize * blockAlignment,
    ((stop - 1) / blockDataSize + 1 - start / blockDataSize) * blockAlignment) := rfl
  have hcalm : Calm s.io (info.rangeSpan start stop).1 (info.rangeSpan start stop).2 := h.calm.batch hblocks
  have hdecode := decodeBlockRange_holds (n := (stop - 1) / blockDataSize + 1 - start / blockDataSize) hholds (hsize ▸ hblocks)
    (Nat.div_mul_le_self start blockDataSize) hstop (by
      rw [show start / blockDataSize + ((stop - 1) / blockDataSize + 1 - start / blockDataSize) =
        (stop - 1) / blockDataSize + 1 by omega]
      unfold blockDataSize blockAlignment blockCrcSize
      omega)
  rw [hspan] at hlow hhigh hcalm
  simp only at hlow hhigh
  unfold readRange
  dsimp only
  rw [hspan]
  dsimp only
  rw [Prog.exec_bind, Prog.exec_failIf, if_neg (by omega)]
  dsimp only
  rw [Prog.exec_bind, Prog.exec_failIf, if_neg (by omega)]
  dsimp only
  rw [Prog.exec_bind, Prog.exec_failIf, if_neg (by omega)]
  dsimp only
  rw [Prog.exec_bind, Prog.exec_failIf, if_neg (by omega)]
  dsimp only
  rw [Prog.exec_bind, exec_pread_calm hcalm]
  dsimp only
  rw [hdecode]
  rfl

/-- An empty range on a boundary: the first block lies behind the last. -/
theorem IsObject.exec_readRange_boundary (h : IsObject s key info payload) {start : Nat} (hstart : start ≤ info.size)
    (hb : (start - 1) / blockDataSize < start / blockDataSize) :
    (readRange info start start).exec s.io = (.error (.panic "attempt to subtract with overflow"), s.io) := by
  have hblocks : start / blockDataSize ≤ numBlocks info.size := by
    unfold numBlocks blockDataSize blockAlignment blockCrcSize
    split <;> omega
  have hspan := Nat.mul_le_mul_right blockAlignment hblocks
  have hinside := h.inside
  have hfst : (info.rangeSpan start start).1 = info.offset + start / blockDataSize * blockAlignment := rfl
  unfold readRange
  dsimp only
  rw [Prog.exec_bind, Prog.exec_failIf, if_neg (by omega)]
  dsimp only
  rw [Prog.exec_bind, Prog.exec_failIf, if_neg (by omega)]
  dsimp only
  rw [Prog.exec_bind, Prog.exec_failIf, if_pos hb]

/-- The call returns the slice of the body, with the range it is, and reads inside the extent. -/
def GetsSlice (s : Store) (key : Key) (info : ExtentInfo) (payload : Bytes) (range : GetRange) : Prop :=
  let body := payload.take info.bodySize
  let r := range.resolve body.length
  (getRanged key range).exec s = (.ok (slice body r.1 r.2, r), s) ∧
    (info.uncompressedSize = 0 → info.Encloses (info.rangeSpan r.1 r.2))

theorem IsObject.length_body (h : IsObject s key info payload) : (payload.take info.bodySize).length = info.bodySize := by
  have hlen := h.stored.length
  rw [List.length_take, hlen, ExtentInfo.bodySize]
  omega

/-- A ranged GET looks the entry up, clamps the range, and reads it. -/
theorem IsObject.exec_getRanged (h : IsObject s key info payload) (range : GetRange) :
    (getRanged key range).exec s = match (doGetRange key (range.resolve info.bodySize).1 (range.resolve info.bodySize).2).exec s with
      | (.ok (data, _), s') => (.ok (data, range.resolve info.bodySize), s')
      | (.error e, s') => (.error e, s') := by
  unfold getRanged
  rw [Prog.exec_bind, exec_getFile_listed h.listed]
  dsimp only
  rw [Prog.exec_bind]
  cases (doGetRange key (range.resolve info.bodySize).1 (range.resolve info.bodySize).2).exec s with
  | mk r s' => cases r <;> rfl

theorem IsObject.exec_doGetRange_compressed (h : IsObject s key info payload) (hu : 0 < info.uncompressedSize)
    (hmax : info.uncompressedSize ≤ compressedRangeReadMax) {start stop : Nat} (hle : start ≤ stop) (hstop : stop ≤ payload.length) :
    (doGetRange key start stop).exec s = (.ok (slice payload start stop, info), s) := by
  unfold doGetRange
  rw [Prog.exec_bind, exec_getFile_listed h.listed]
  dsimp only
  rw [if_pos hu, Prog.exec_bind, Prog.exec_failIf, if_neg (by omega)]
  dsimp only
  rw [Prog.exec_bind, h.exec_doGet]
  dsimp only
  rw [Nat.min_eq_left hstop, Nat.min_eq_left hle]
  rfl

theorem IsObject.exec_doGetRange_plain (h : IsObject s key info payload) (hplain : info.uncompressedSize = 0) (start stop : Nat) :
    (doGetRange key start stop).exec s = match (nameCorruption key (readRange info start stop)).exec s.io with
      | (.ok data, io) => (.ok (data, info), s.withIo io)
      | (.error e, io) => (.error e, s.withIo io) := by
  unfold doGetRange
  rw [Prog.exec_bind, exec_getFile_listed h.listed]
  dsimp only
  rw [if_neg (by omega), Prog.exec_bind, exec_onDevice]
  cases (nameCorruption key (readRange info start stop)).exec s.io with
  | mk r io => cases r <;> rfl

/-- The bytes of a range that is not empty. -/
theorem IsObject.exec_doGetRange (h : IsObject s key info payload) (hmax : info.uncompressedSize ≤ compressedRangeReadMax)
    {start stop : Nat} (hlt : start < stop) (hstop : stop ≤ payload.length) :
    (doGetRange key start stop).exec s = (.ok (slice payload start stop, info), s) := by
  by_cases hu : 0 < info.uncompressedSize
  · exact h.exec_doGetRange_compressed hu hmax (Nat.le_of_lt hlt) hstop
  · have hplain : info.uncompressedSize = 0 := by omega
    have hfirst : start / blockDataSize ≤ (stop - 1) / blockDataSize := by
      by_contra hlast
      have hempty := (last_lt_first_iff (Nat.le_of_lt hlt)).mp (by omega)
      omega
    rw [h.exec_doGetRange_plain hplain, exec_nameCorruption_ok key (h.exec_readRange hplain hstop hfirst)]
    rfl

theorem IsObject.exec_getRanged_boundary (h : IsObject s key info payload) {range : GetRange}
    (hb : info.OnBoundary (range.resolve info.bodySize)) : ∃ e, (getRanged key range).exec s = (.error e, s) := by
  obtain ⟨hplain, heq, hpos, hmod⟩ := hb
  have hle : (range.resolve info.bodySize).1 ≤ info.size := by
    have hbody := (range.resolve_le info.bodySize).2
    have hsize := bodySize_le (show ¬ 0 < info.uncompressedSize by omega)
    omega
  have hlast := (last_lt_first_iff (Nat.le_refl (range.resolve info.bodySize).1)).mpr ⟨rfl, hpos, hmod⟩
  obtain ⟨e, he⟩ := exec_nameCorruption_error key (h.exec_readRange_boundary hle hlast)
  refine ⟨e, ?_⟩
  rw [h.exec_getRanged, h.exec_doGetRange_plain hplain, ← heq, he]
  rfl

/-- A ranged GET returns the slice exactly if the range is not an empty one on a boundary. -/
theorem getRanged_slices_iff (h : IsObject s key info payload) (hmax : info.uncompressedSize ≤ compressedRangeReadMax)
    (range : GetRange) :
    GetsSlice s key info payload range ↔ ¬ info.OnBoundary (range.resolve (payload.take info.bodySize).length) := by
  have hbody : info.bodySize ≤ payload.length := by
    have := h.length_body
    rw [List.length_take] at this
    omega
  obtain ⟨hle, hstop⟩ := range.resolve_le info.bodySize
  unfold GetsSlice
  dsimp only
  rw [h.length_body, slice_take payload hstop]
  constructor
  · intro hgets hb
    obtain ⟨e, he⟩ := h.exec_getRanged_boundary hb
    rw [he] at hgets
    cases (Prod.mk.inj hgets.1).1
  · intro hb
    by_cases hu : 0 < info.uncompressedSize
    · refine ⟨?_, fun h0 => absurd h0 (by omega)⟩
      rw [h.exec_getRanged, h.exec_doGetRange_compressed hu hmax hle (by omega)]
    · have hplain : info.uncompressedSize = 0 := by omega
      have hfirst : (range.resolve info.bodySize).1 / blockDataSize ≤ ((range.resolve info.bodySize).2 - 1) / blockDataSize := by
        by_contra hlt
        have hrange := (last_lt_first_iff hle).mp (by omega)
        exact hb ⟨hplain, hrange⟩
      have hsize := bodySize_le hu
      refine ⟨?_, fun _ => (ExtentInfo.encloses_rangeSpan (by omega) h.sized hfirst).2⟩
      rw [h.exec_getRanged, h.exec_doGetRange_plain hplain,
        exec_nameCorruption_ok key (h.exec_readRange hplain (by omega) hfirst)]
      rfl

end

/-! ## Objects of one block -/

/-- A store that lists one plain object, without metadata. -/
def Sample.plainInfo (payload : Bytes) : ExtentInfo :=
  ⟨dataStart, payload.length, numBlocks payload.length * blockAlignment, crc32c payload, 0, 0, 0, 0⟩

def Sample.plainStore (payload : Bytes) : Store :=
  { FormatOptions.newStore ⟨1048576, false, 16777216, 1024, .none, size_fits, slots_fit, keys_fit, size_whole⟩
      ⟨(⟨1048576, fun _ => 0⟩ : Disk).write dataStart (encodeBlocks payload) fun _ => true, false, false, [], []⟩ with
    files := (∅ : FMap ExtentInfo).insert "k" (plainInfo payload) }

theorem Sample.bodySize_plainInfo (payload : Bytes) : (plainInfo payload).bodySize = payload.length := rfl

theorem Sample.plainStore_isObject {payload : Bytes} (h : numBlocks payload.length = 1) (hpos : 0 < payload.length) :
    IsObject (plainStore payload) "k" (plainInfo payload) payload := by
  have hinside : dataStart + numBlocks payload.length * blockAlignment ≤ 1048576 := by
    rw [h]
    decide
  refine ⟨AList.lookup_insert _, ⟨payload, rfl, ?_, rfl, .inl ⟨rfl, rfl⟩⟩, hpos, ?_, rfl, (fun hd => Bool.noConfusion hd), hinside⟩
  · show Disk.read _ dataStart _ = _
    rw [← length_encodeBlocks]
    exact Disk.read_write_same _ _ _
  · exact Nat.le_trans hinside (by decide)

end Ranges

open Sample

/-- A byte from the middle of an object. -/
theorem a_range_inside_a_block : GetsSlice (plainStore [1, 2, 3]) "k" (plainInfo [1, 2, 3]) [1, 2, 3] (.bounded 1 2) :=
  (getRanged_slices_iff (plainStore_isObject (by decide) (by decide)) (Nat.zero_le _) _).mpr fun h => absurd h.2.1 (by decide)

/-- The object fills its block, and the range starts at its end. -/
theorem a_range_from_the_end_of_a_full_block_unwinds :
    ¬ ∀ (s : Store) (key : Key) (info : ExtentInfo) (payload : Bytes), IsObject s key info payload →
      info.uncompressedSize ≤ compressedRangeReadMax → ∀ range : GetRange, GetsSlice s key info payload range := by
  intro h
  have hlen : (List.replicate blockDataSize (7 : UInt8)).length = blockDataSize := List.length_replicate ..
  have hobj : IsObject (plainStore (List.replicate blockDataSize 7)) "k" _ _ :=
    plainStore_isObject (by rw [hlen]; decide) (by rw [hlen]; decide)
  have hsize : (plainInfo (List.replicate blockDataSize 7)).bodySize = blockDataSize := by rw [bodySize_plainInfo, hlen]
  have hboundary : (plainInfo (List.replicate blockDataSize 7)).OnBoundary ((GetRange.offset blockDataSize).resolve
      (plainInfo (List.replicate blockDataSize 7)).bodySize) := by
    rw [hsize]
    exact ⟨rfl, rfl, by decide, by decide⟩
  obtain ⟨e, he⟩ := hobj.exec_getRanged_boundary hboundary
  have hgets := (h _ _ _ _ hobj (Nat.zero_le _) (.offset blockDataSize)).1
  rw [he] at hgets
  cases (Prod.mk.inj hgets).1

end ObjStr.Raw
