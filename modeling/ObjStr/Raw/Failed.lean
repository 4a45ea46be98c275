/-
  ObjStr.Raw.Failed — a call that fails leaves the store as it was (`store.rs`).

  What a call has written when it fails lies in the extent it took, and the extent is free again. A completed upload takes
  an extent for the sizes that the index has for its parts, and streams what the parts decode to: nothing compares the two.
  After a crash an entry may name an extent that another object has taken since, and decode to more than its size; it
  becomes a part when it is moved to the key of one.
  - `failed_call_leaves_store`: after a call that failed the index, the flags and the free list are what they were, and so
    are the bytes of every entry, unless it is a completed upload whose parts decode to more than their sizes (`Op.Fits`).
  - `a_long_part_spoils_an_object`: such an upload, whose write fails after it has gone over the end of its extent.
-/

import ObjStr.Raw.Recovered
import ObjStr.Raw.Reuse

namespace ObjStr.Raw

open ObjStr.Lib DeviceIo

section Failed

variable [Crates] {care : Care} {s0 s s' : Store}

/-- Nothing but the script and free space differs. -/
structure Untouched (s s' : Store) : Prop where
  files : s'.files = s.files
  tombstones : s'.tombstones = s.tombstones
  dirty : s'.dirty = s.dirty
  shardDirty : s'.shardDirty = s.shardDirty
  /-- The free list too, as a list. -/
  allocator : s'.allocator = s.allocator
  bytes : ∀ k info, s.files.lookup k = some info →
    s'.io.dev.read info.offset info.paddedSize = s.io.dev.read info.offset info.paddedSize

omit [Crates] in
theorem Prep.untouched (h : Prep care s [] s') (hcare : care ≠ .index) (hs : SpaceInv s []) : Untouched s s' := by
  have hfiles := h.files_eq
  have hrebuilt := h.space.rebuilt
  rw [hfiles, h.dataEnd_eq, ← hs.rebuilt] at hrebuilt
  refine ⟨hfiles, ?_, ?_, ?_, hrebuilt, fun k info hk => hs.read_eq (h.wrote hcare) hk⟩
  · rw [h.eq]
  · rw [h.eq]
  · rw [h.eq]

/-- What the call writes fits what it takes. An upload takes what the sizes of its parts need, or what they need in the
    temporary file; a scrub writes whole blocks if the free regions are. -/
def Op.Fits (s : Store) : Op → Prop
  | .complete _ _ partKeys => s.PartsFit partKeys
  | .scrubFreeSpace => s.io.direct = true → s.dataEnd % blockAlignment = 0
  | _ => True

/-- The space invariant: the extents and the free list share the data area out, and each extent is as long as the blocks of
    its entry. -/
structure SpaceInvariant (s : Store) : Prop where
  space : SpaceInv s []
  padded : ContentInv .index s

/-- A call that fails in a state that keeps the space invariant. -/
theorem SpaceInvariant.untouched (hs : SpaceInvariant s) {script : List Outcome} {op : Op} (hfits : op.Fits s) {now : DateTime}
    {e : RawStoreError} (hfail : (op.run now).exec (s.withScript script) = (.error e, s')) : Untouched s s' := by
  have hspace : SpaceInv (s.withScript script) [] := hs.space.congr rfl rfl rfl
  have hwp : Prog.wp (op.run now) (fun _ _ => True) (fun _ s' => Prep .slots (s.withScript script) [] s') (s.withScript script) := by
    refine op.wp_failed now hspace hs.padded (by decide) (fun tmp location partKeys hcomplete _ => ?_) fun hscrub _ => ?_
    · subst hcomplete
      exact hfits
    · subst hscrub
      exact hfits
  obtain ⟨h1, h2, h3, h4, h5, h6⟩ := (Prog.wp_error hwp hfail).untouched (by decide) hspace
  exact ⟨h1, h2, h3, h4, h5, h6⟩

theorem reach_spaceInvariant (h : Reach NoReload Committed s) : SpaceInvariant s := ⟨(reach_inv h).1, (reach_inv h).2⟩

end Failed

section Spared

open Sample

end Spared

namespace Packed

/-! ## An upload of a part that is longer than its size -/

@[irreducible] def short : Bytes := List.replicate 4096 0

@[irreducible] def long : Bytes := List.replicate 1227600 0

@[irreducible] def other : Bytes := List.replicate 4096 1

def unpack (y : Bytes) : Option Bytes :=
  if y = [1] then some short
  else if y = [2] then some long
  else if y = [3] then some other
  else if y.head? = some 9 then some y.tail
  else none

def pack (x : Bytes) : Option Bytes :=
  if x = short then some [1]
  else if x = long then some [2]
  else if x = other then some [3]
  else none

theorem unpack_pack {x y : Bytes} (h : pack x = some y) : unpack y = some x := by
  unfold pack at h
  split at h
  · next hx =>
    cases h
    rw [hx]
    rfl
  split at h
  · next hx =>
    cases h
    rw [hx]
    rfl
  split at h
  · next hx =>
    cases h
    rw [hx]
    rfl
  · cases h

theorem unpack_stream (x : Bytes) : unpack (9 :: x) = some x := by
  unfold unpack
  simp

/-- A compressor of three payloads, and of no other. -/
scoped instance packing : Crates :=
  { Sample.crates with
    encode := fun _ x => pack x
    encodeStream := fun _ xs => some (9 :: xs.flatten)
    decode := fun _ y => unpack y
    decode_encode := fun _ _ _ h => unpack_pack h
    decode_encodeStream := fun _ xs y h => by
      cases h
      exact unpack_stream xs.flatten
    encode_ne_nil := fun _ x y h hy => by
      subst hy
      have hnil := unpack_pack h
      cases hnil
    encodeStream_ne_nil := fun _ xs y h hy => by
      subst hy
      cases h
    pull := fun _ y ended n => if ended = true then (unpack y).map fun x => x.take n else none
    pull_all := fun _ x y n h _ => by
      rw [if_pos rfl, h]
      rfl
    pull_some := fun _ x y k n out _ h => by
      rw [if_neg Bool.false_ne_true] at h
      cases h
    pull_nil := fun _ n _ => if_neg Bool.false_ne_true }

def options : FormatOptions := { Sample.options with compression := .snappy }

theorem options_valid : options.Valid := ⟨by decide, by decide, by decide, by decide⟩

structure Room (allowed : Store → Call → Prop) (s : Store) (a : ExtentAllocator) : Prop where
  reached : Reach allowed Committed s
  writable : s.readOnly = false
  maxKeyLength : s.maxKeyLength = 1024
  compression : s.compression = .snappy
  easy : Easy 67108864 s.io
  allocator : s.allocator = some a

variable {allowed : Store → Call → Prop} {s s' : Store} {a a' : ExtentAllocator}

theorem Room.withScript (h : Room allowed s a) : s.withScript [] = s := by
  obtain ⟨io, files, tombs, alloc, sb, dirty, ro, sd, lfb, mkl, comp, ra, rb, isc, sss, nu⟩ := s
  obtain ⟨dev, direct, ro', script, log⟩ := io
  have hnil : script = [] := h.easy.1
  rw [hnil]
  rfl

structure Stored (off : Nat) (data : Bytes) (unc : Nat) (info : ExtentInfo) : Prop where
  offset : info.offset = off
  size : info.size = data.length
  paddedSize : info.paddedSize = numBlocks data.length * blockAlignment
  uncompressedSize : info.uncompressedSize = unc

/-- A put takes the extent and fills it. -/
theorem Room.put (h : Room allowed s a) (key : Key) (off : Nat) {payload data : Bytes} {unc : Nat}
    (hallow : allowed s (.op (.putOpts key payload .overwrite))) (hmax : keyLen key ≤ 1024) (hne : payload ≠ [])
    (hstored : compressPayload .snappy payload = (data, unc)) (hshort : data.length < streamingPutThreshold)
    (ha : a.alloc (numBlocks data.length * blockAlignment) = .ok (off, a'))
    (hin : off + numBlocks data.length * blockAlignment ≤ 67108864) (hnew : s.files.lookup key = none) :
    ∃ s' info, Room allowed s' a' ∧ Stored off data unc info ∧
      (∀ k, s'.files.lookup k = if k = key then some info else s.files.lookup k) ∧ Holds s'.io.dev off data ∧
      Wrote (Inside (extentSpan off (numBlocks data.length))) s.io s'.io := by
  obtain ⟨hscript, hdirect, hro, hsize⟩ := h.easy
  have hext : s.io.extent (numBlocks data.length * blockAlignment) = numBlocks data.length * blockAlignment := by
    unfold DeviceIo.extent
    rw [hdirect]
    rfl
  have hready : Ready s.io off (numBlocks data.length) := by
    refine ⟨⟨hscript, fun hd => ?_, ?_⟩, hro⟩
    · rw [hdirect] at hd
      cases hd
    · rw [hext, hsize]
      exact hin
  have hwrite : Prog.wp (writePayload off data)
      (fun _ io => Wrote (Inside (extentSpan off (numBlocks data.length))) s.io io ∧ Holds io.dev off data ∧ io.script = [])
      (fun _ _ => False) s.io := by
    unfold writePayload
    rw [if_neg (Nat.not_le.mpr hshort), Prog.wp_bind]
    refine Prog.wp_mono (wp_encodeAndWriteBatched s.io off data) ?_ (fun _ _ hfail => hfail.2 hready)
    intro _ io hdone
    exact ⟨hdone.1, hdone.2.1, hdone.2.2 hscript⟩
  have hlimit : keyLen key ≤ s.maxKeyLength := by
    rw [h.maxKeyLength]
    exact hmax
  have hstored' : compressPayload s.compression payload = (data, unc) := by
    rw [h.compression]
    exact hstored
  have hfits : numBlocks data.length * blockAlignment ≤ u64Max := by
    have e : 67108864 ≤ u64Max := by decide
    omega
  have hput : Prog.wp (doPut 0 key payload) (fun _ s' => ∃ crc io, Wrote (Inside (extentSpan off (numBlocks data.length))) s.io io ∧
      Holds io.dev off data ∧ io.script = [] ∧
      s' = Store.replaceFile (Store.withIo io { s with allocator := some a' }) key (s.storedInfo off 0 data unc crc))
      (fun _ _ => False) s :=
    wp_doPut_stored h.writable hlimit hne hstored' h.allocator hfits ha 0
      (Prog.wp_mono hwrite (fun crc io hio => ⟨crc, io, hio.1, hio.2.1, hio.2.2, rfl⟩) fun _ _ hf => hf)
  obtain ⟨_, s', hrun, crc, io, hwrote, hholds, hnil, rfl⟩ := Prog.wp_returns hput fun _ _ hf => hf
  have hframed := framed_replaceFile (Store.withIo io { s with allocator := some a' }) key (s.storedInfo off 0 data unc crc)
  have hreached := h.reached.call [] 0 (.op (.putOpts key payload .overwrite)) (by rwa [h.withScript])
  rw [h.withScript] at hreached
  change Reach allowed Committed ((doPut 0 key payload).exec s).2 at hreached
  rw [hrun] at hreached
  have hio : (Store.replaceFile (Store.withIo io { s with allocator := some a' }) key (s.storedInfo off 0 data unc crc)).io = io :=
    hframed.io_eq
  refine ⟨_, s.storedInfo off 0 data unc crc, ⟨hreached, ?_, ?_, ?_, ?_, ?_⟩, ⟨rfl, rfl, rfl, rfl⟩, lookup_replaceFile _ _ _, ?_, ?_⟩
  · rw [hframed]
    exact h.writable
  · rw [hframed]
    exact h.maxKeyLength
  · rw [hframed]
    exact h.compression
  · rw [hio]
    exact ⟨hnil, hwrote.direct_eq.trans hdirect, hwrote.readOnly_eq.trans hro, hwrote.size_eq.trans hsize⟩
  · show (Store.removeFile _ key).allocator = some a'
    unfold Store.removeFile
    rw [show (Store.withIo io { s with allocator := some a' }).files.lookup key = none from hnew]
    rfl
  · rw [hio]
    exact hholds
  · rw [hio]
    exact hwrote

/-- A delete gives the extent back. -/
theorem Room.delete (h : Room allowed s a) (key : Key) {info : ExtentInfo} (hallow : allowed s (.op (.delete key)))
    (hk : s.files.lookup key = some info) :
    ∃ s', Room allowed s' (a.free info.offset info.paddedSize) ∧ s'.io = s.io ∧
      ∀ k, s'.files.lookup k = if k = key then none else s.files.lookup k := by
  have hrun : (Raw.delete key).exec s = (.ok (), { s.dropFile key with dirty := true }) := by
    unfold Raw.delete
    simp only [Prog.exec_bind, Prog.exec_get, Prog.exec_failIf, Prog.exec_modify, h.writable, Bool.false_eq_true, if_false]
    rw [if_pos (by rw [hk]; rfl)]
  have hreached := h.reached.call [] 0 (.op (.delete key)) (by rwa [h.withScript])
  rw [h.withScript] at hreached
  change Reach allowed Committed ((Raw.delete key).exec s).2 at hreached
  rw [hrun] at hreached
  have hframed : Framed s { s.dropFile key with dirty := true } := (framed_dropFile s key).trans rfl
  refine ⟨_, ⟨hreached, ?_, ?_, ?_, ?_, ?_⟩, hframed.io_eq, lookup_dropFile s key⟩
  · rw [hframed]
    exact h.writable
  · rw [hframed]
    exact h.maxKeyLength
  · rw [hframed]
    exact h.compression
  · rw [hframed]
    exact h.easy
  · show (s.dropFile key).allocator = _
    unfold Store.dropFile Store.removeFile
    simp only [hk]
    show s.allocator.map _ = _
    rw [h.allocator]
    rfl

/-- A rename touches no extent. -/
theorem Room.rename (h : Room allowed s a) (fromKey toKey : Key) {info : ExtentInfo}
    (hallow : allowed s (.op (.rename fromKey toKey))) (hmax : keyLen toKey ≤ 1024) (hne : toKey ≠ fromKey)
    (hk : s.files.lookup fromKey = some info) (hnew : s.files.lookup toKey = none) :
    ∃ s', Room allowed s' a ∧ s'.io = s.io ∧
      ∀ k, s'.files.lookup k = if k = toKey then some info else if k = fromKey then none else s.files.lookup k := by
  have hnone : ({ s with files := s.files.erase fromKey } : Store).files.lookup toKey = none := by
    rw [← hnew]
    exact AList.lookup_erase_ne hne
  have hkept : ({ s with files := s.files.erase fromKey } : Store).removeFile toKey = { s with files := s.files.erase fromKey } := by
    unfold Store.removeFile
    rw [hnone]
  have hget : (getFile fromKey).exec s = (.ok info, s) := by
    unfold Prog.exec getFile
    rw [hk]
  have htake : (takeFile fromKey).exec s = (.ok info, { s with files := s.files.erase fromKey }) := by
    unfold takeFile
    simp only [Prog.exec_bind, Prog.exec_modify, Prog.exec_pure, hget]
  have hro : ¬ s.readOnly = true := Bool.eq_false_iff.mp h.writable
  have hlimit : ¬ s.maxKeyLength < keyLen toKey := by
    rw [h.maxKeyLength]
    omega
  have hrun : (Raw.rename fromKey toKey).exec s =
      (.ok (), (({ s with files := s.files.erase fromKey } : Store).markShardDirty fromKey).insertFile toKey info) := by
    unfold Raw.rename
    simp only [Prog.exec_bind, Prog.exec_get, Prog.exec_failIf, Prog.exec_modify, if_neg hro, if_neg hlimit, htake, hkept]
  have hreached := h.reached.call [] 0 (.op (.rename fromKey toKey)) (by rwa [h.withScript])
  rw [h.withScript] at hreached
  change Reach allowed Committed ((Raw.rename fromKey toKey).exec s).2 at hreached
  rw [hrun] at hreached
  refine ⟨_, ⟨hreached, h.writable, h.maxKeyLength, h.compression, h.easy, h.allocator⟩, rfl, fun k => ?_⟩
  show ((s.files.erase fromKey).insert toKey info).lookup k = _
  by_cases hto : k = toKey
  · rw [if_pos hto, hto, AList.lookup_insert]
  rw [if_neg hto, AList.lookup_insert_ne hto]
  by_cases hfrom : k = fromKey
  · rw [if_pos hfrom, hfrom, AList.lookup_erase]
  · rw [if_neg hfrom, AList.lookup_erase_ne hfrom]

theorem decompress_eq (y : Bytes) : Compression.snappy.decompress y = (match unpack y with
    | some x => .ok x
    | none => .error (.io "decompress failed")) := rfl

/-- What a stored byte is read to. -/
theorem Stored.payloadOf {off unc : Nat} {b c : UInt8} {info : ExtentInfo} {d : Disk} (h : Stored off [b] unc info) (hunc : 0 < unc)
    (hd : Holds d off [c]) : payloadOf .snappy d info = Compression.snappy.decompress [c] := by
  have hdecode := hd.decode
  rw [show [c].length = [b].length from rfl] at hdecode
  unfold Raw.payloadOf
  simp only [h.offset, h.size, h.uncompressedSize, if_pos hunc, hdecode]
  rfl

theorem Stored.calm {off unc : Nat} {b : UInt8} {info : ExtentInfo} {io : DeviceIo} (h : Stored off [b] unc info)
    (hio : Easy 67108864 io) (hin : off + blockAlignment ≤ 67108864) : Calm io info.offset (numBlocks info.size * blockAlignment) := by
  obtain ⟨hscript, hdirect, -, hsize⟩ := hio
  refine ⟨hscript, fun hd => ?_, ?_⟩
  · rw [hdirect] at hd
    cases hd
  · unfold DeviceIo.extent
    rw [hdirect, h.offset, h.size, numBlocks_byte, Nat.one_mul, hsize]
    exact hin

theorem decompress_two : Compression.snappy.decompress [2] = .ok long := by
  rw [decompress_eq, unpack, if_neg (by decide), if_pos rfl]

theorem decompress_three : Compression.snappy.decompress [3] = .ok other := by
  rw [decompress_eq, unpack, if_neg (by decide), if_neg (by decide), if_pos rfl]

theorem decompress_zero : Compression.snappy.decompress [0] = .error (.io "decompress failed") := by
  rw [decompress_eq, unpack, if_neg (by decide), if_neg (by decide), if_neg (by decide), if_neg (by decide)]

theorem length_short : short.length = 4096 := by
  unfold short
  exact List.length_replicate

theorem length_long : long.length = 1227600 := by
  unfold long
  exact List.length_replicate

theorem blocks_long : numBlocks long.length = 300 := by
  rw [length_long]
  decide

/-- A block of the long payload is the block of a zero. -/
theorem block_long {i : Nat} (hi : i < 300) : encodeBlock (blockPart long i) = encodeBlocks [0] := by
  have hpart : blockPart long i = List.replicate blockDataSize 0 := by
    unfold blockPart long
    rw [List.drop_replicate, List.take_replicate]
    congr 1
    unfold blockDataSize blockAlignment blockCrcSize
    omega
  have hpad : padTo blockDataSize (List.replicate blockDataSize 0) = padTo blockDataSize [0] := by
    unfold padTo
    rw [List.length_replicate, Nat.sub_self, List.replicate_zero, List.append_nil, List.length_singleton, List.singleton_append,
      ← List.replicate_succ, Nat.sub_add_cancel (by decide)]
  have hone : encodeBlocks [0] = encodeBlock [0] := by
    unfold encodeBlocks
    rw [numBlocks_byte, encodeRange_succ [0] (Nat.le_refl 0), encodeRange_self, List.nil_append]
    rfl
  rw [hone, hpart]
  unfold encodeBlock
  rw [hpad]

theorem encodeStream_eq (xs : List Bytes) : Crates.encodeStream .snappy xs = some (9 :: xs.flatten) := rfl

/-- Two parts, the first of which decodes to more than its size, and a free extent for their sizes that lies before the second. -/
structure Spoiling (s : Store) (p0 p1 : Key) (i0 i1 : ExtentInfo) : Prop where
  first : s.files.lookup p0 = some i0 ∧ Stored dataStart [1] 4096 i0 ∧ Holds s.io.dev dataStart [2]
  second : s.files.lookup p1 = some i1 ∧ Stored (dataStart + 4 * blockAlignment) [3] 4096 i1 ∧
    Holds s.io.dev (dataStart + 4 * blockAlignment) [3]

/-- The parts do not compress. -/
theorem Spoiling.plan {p0 p1 : Key} {i0 i1 : ExtentInfo} (h : Spoiling s p0 p1 i0 i1) (hio : Easy 67108864 s.io) :
    (planParts .snappy [i0, i1]).exec s.io = (.ok (8192, 0, none), s.io) := by
  obtain ⟨-, hs0, hh0⟩ := h.first
  obtain ⟨-, hs1, hh1⟩ := h.second
  have hread0 : (readPayload .snappy i0).exec s.io = (.ok long, s.io) := by
    rw [exec_readPayload (hs0.calm hio (by decide)), hs0.payloadOf (by decide) hh0, decompress_two]
  have hread1 : (readPayload .snappy i1).exec s.io = (.ok other, s.io) := by
    rw [exec_readPayload (hs1.calm hio (by decide)), hs1.payloadOf (by decide) hh1, decompress_three]
  have hsum : ([i0, i1].map ExtentInfo.logicalSize).sum = 8192 := by
    simp [ExtentInfo.logicalSize, hs0.uncompressedSize, hs1.uncompressedSize]
  have hcompress : (compressParts .snappy [i0, i1]).exec s.io = (.ok (9 :: [long, other].flatten), s.io) := by
    unfold compressParts
    simp only [Prog.exec_bind, List.foldlM_cons, List.foldlM_nil, hread0, hread1, Prog.exec_pure, List.nil_append, List.cons_append,
      encodeStream_eq]
    rfl
  have hlong : ¬ (9 :: [long, other].flatten).length < 8192 := by
    rw [List.flatten_cons, List.length_cons, List.length_append, length_long]
    omega
  unfold planParts
  dsimp only
  rw [hsum, if_pos ⟨by decide, by decide⟩, Prog.exec_bind, hcompress]
  dsimp only
  rw [if_neg hlong]
  rfl

/-- What the first part is read to fills more than the extent, and the second part is not what it was when it is read. -/
theorem Spoiling.writeParts {p0 p1 : Key} {i0 i1 : ExtentInfo} (h : Spoiling s p0 p1 i0 i1) (hio : Easy 67108864 s.io) :
    Prog.wp (Raw.writeParts .snappy (dataStart + blockAlignment) [i0, i1]) (fun _ _ => False)
      (fun _ io => Holds io.dev (dataStart + 4 * blockAlignment) [0]) s.io := by
  obtain ⟨-, hs0, hh0⟩ := h.first
  obtain ⟨-, hs1, -⟩ := h.second
  obtain ⟨hscript, hdirect, hro, hsize⟩ := hio
  have hread0 : (readPayload .snappy i0).exec s.io = (.ok long, s.io) := by
    rw [exec_readPayload (hs0.calm ⟨hscript, hdirect, hro, hsize⟩ (by decide)), hs0.payloadOf (by decide) hh0, decompress_two]
  have hready : Ready s.io (dataStart + blockAlignment) 300 := by
    refine ⟨⟨hscript, fun hd => ?_, ?_⟩, hro⟩
    · rw [hdirect] at hd
      cases hd
    · unfold DeviceIo.extent
      rw [hdirect, hsize]
      decide
  have hblocks : numBlocks ([] ++ long).length ≤ 300 := Nat.le_of_eq blocks_long
  unfold Raw.writeParts writePart
  rw [Prog.wp_bind, List.foldlM_cons, Prog.wp_bind, Prog.wp_bind, Prog.wp_of_ok hread0]
  unfold writeRound
  rw [Prog.wp_bind]
  refine Prog.wp_mono (StreamingBlockWriter.wp_writeChunk
    (StreamingBlockWriter.fed_new (dataStart + blockAlignment) 300 s.io) hblocks) ?_ (fun _ _ hfail => absurd hready hfail.2)
  intro w io hfed
  rw [List.nil_append] at hfed
  -- More than forty blocks are on the device, and the second part's is the fourth.
  have hmany : 3 < w.blocksWritten := by
    have hcount := hfed.count_eq
    have hroom := hfed.room
    rw [length_long, show 1227600 / blockDataSize = 300 by decide, show batchBlocks = 256 from rfl] at *
    omega
  have hover : Holds io.dev (dataStart + 4 * blockAlignment) [0] := by
    have hblock := rawBlock_read io.dev (dataStart + blockAlignment) hmany
    rw [hfed.read_eq, rawBlock_encodeRange long hmany, block_long (by decide)] at hblock
    unfold Holds
    rw [numBlocks_byte, Nat.one_mul, hblock]
    congr 1
  have hcalm : Calm io i1.offset (numBlocks i1.size * blockAlignment) :=
    hs1.calm ⟨hfed.script_nil hscript, hfed.wrote.direct_eq.trans hdirect, hfed.wrote.readOnly_eq.trans hro,
      hfed.wrote.size_eq.trans hsize⟩ (by decide)
  have hread1 : (readPayload .snappy i1).exec io = (.error (.io "decompress failed"), io) := by
    rw [exec_readPayload hcalm, hs1.payloadOf (by decide) hover, decompress_zero]
  rw [Prog.wp_pure, List.foldlM_cons, Prog.wp_bind, Prog.wp_bind, Prog.wp_of_error hread1]
  exact hover

/-- The upload fails, and has written over its second part. -/
theorem Room.complete (h : Room allowed s a) {p0 p1 : Key} {i0 i1 : ExtentInfo} (hs : Spoiling s p0 p1 i0 i1)
    (ha : a.alloc (3 * blockAlignment) = .ok (dataStart + blockAlignment, a')) (location : Key) :
    ∃ e s', (Raw.complete 0 none location [p0, p1]).exec s = (.error e, s') ∧
      Holds s'.io.dev (dataStart + 4 * blockAlignment) [0] := by
  have hparts : (partInfos [p0, p1]).exec s = (.ok [i0, i1], s) := by
    unfold Prog.exec partInfos
    simp [hs.first.1, hs.second.1]
  have hplan : (onDevice (planParts s.compression [i0, i1])).exec s = (.ok (8192, 0, none), s) := by
    rw [h.compression]
    unfold onDevice Prog.zoom
    show (((planParts .snappy [i0, i1]).exec s.io).1, Store.withIo ((planParts .snappy [i0, i1]).exec s.io).2 s) = _
    rw [hs.plan h.easy]
    rfl
  have hpad : paddedExtentSize 8192 = .ok (3 * blockAlignment) := rfl
  have hwp : Prog.wp (Raw.complete 0 none location [p0, p1]) (fun _ _ => False)
      (fun _ s' => Holds s'.io.dev (dataStart + 4 * blockAlignment) [0]) s := by
    unfold Raw.complete
    rw [Prog.wp_bind, Prog.wp_failIf]
    refine ⟨fun hnil => absurd hnil (List.cons_ne_nil _ _), fun _ => ?_⟩
    rw [Prog.wp_bind, Prog.wp_of_ok hparts, Prog.wp_bind, Prog.wp_get, Prog.wp_bind, Prog.wp_of_ok hplan]
    dsimp only
    rw [Prog.wp_bind, wp_ofExcept, hpad]
    dsimp only
    unfold allocWrite
    rw [Prog.wp_bind, Prog.wp_bind, Prog.wp_of_ok (allocExtent_ok h.allocator ha), Prog.wp_bind, Prog.wp_onError, wp_onDevice]
    rw [h.compression]
    exact hs.writeParts h.easy
  cases hrun : (Raw.complete 0 none location [p0, p1]).exec s with
  | mk r s' =>
    cases r with
    | ok => exact (Prog.wp_ok hwp hrun).elim
    | error e => exact ⟨e, s', rfl, Prog.wp_error hwp hrun⟩

/-- The store after the short payload has been put. -/
def oneObject (io io' : DeviceIo) : Store :=
  Store.replaceFile (Store.withIo io' { options.newStore io with allocator := some (Sample.spaceAfter 1) }) "k"
    ((options.newStore io).packedInfo dataStart 0 1 4096)

theorem oneObject_entries (io io' : DeviceIo) :
    (oneObject io io').files.entries = [⟨"k", (options.newStore io).packedInfo dataStart 0 1 4096⟩] := rfl

theorem oneObject_fits (io io' : DeviceIo) (i : Fin numShards) :
    ((oneObject io io').blob i).length ≤ (oneObject io io').shardSlotSize := by
  have hentries : ((oneObject io io').shardData i).files.entries =
      if shardForKey "k" = i then [⟨"k", (options.newStore io).packedInfo dataStart 0 1 4096⟩] else [] := by
    show (oneObject io io').files.entries.filter (fun e => decide (shardForKey e.1 = i)) = _
    rw [oneObject_entries]
    by_cases h : shardForKey "k" = i
    · rw [if_pos h, List.filter_cons_of_pos (by simpa using h)]
      rfl
    · rw [if_neg h, List.filter_cons_of_neg (by simpa using h)]
      rfl
  show (Sample.Code.shard.put ((oneObject io io').shardData i)).length ≤ 65536
  have htomb : ((oneObject io io').shardData i).tombstones.entries = [] := rfl
  simp only [Sample.Code.shard, Sample.Code.iso, Sample.Code.pair, Sample.Code.map]
  rw [hentries, htomb]
  split
  · show (79 : Nat) ≤ 65536
    decide
  · decide

def longByte (a : Nat) : UInt8 := (encodeBlocks [2]).getD (a - dataStart) 0

theorem stored_short : compressPayload .snappy short = ([1], 4096) := by
  have hpack : Compression.snappy.compress short = some [1] := by
    show some ((pack short).getD short) = _
    unfold pack
    rw [if_pos rfl]
    rfl
  unfold compressPayload
  rw [if_pos ⟨by decide, Nat.le_of_eq length_short.symm⟩, hpack]
  dsimp only
  rw [length_short, if_pos (by decide)]

theorem rebuilt_first {info : ExtentInfo} (hoff : info.offset = dataStart) (hpad : info.paddedSize = blockAlignment) :
    ExtentAllocator.fromFreeList (rebuildFreeList (AList.singleton "k" info) 33554432).2 dataStart 33554432 = Sample.spaceAfter 1 := by
  have hvalues : FMap.values (AList.singleton "k" info) = [info] := rfl
  have hused : (dataStart ≤ info.offset ∧ 0 < info.paddedSize) ∧ satAdd info.offset info.paddedSize ≤ 33554432 := by
    rw [hoff, hpad]
    decide
  unfold rebuildFreeList
  rw [hvalues, List.filter_cons_of_pos (by simpa using hused), List.filter_nil, List.map_cons, List.map_nil, hoff, hpad]
  decide

/-- The machine stops after the long payload has taken the extent of the short one, and the flushed index is opened. -/
theorem reopened : ∃ s info, Room NoReload s (Sample.spaceAfter 1) ∧ Stored dataStart [1] 4096 info ∧
    (∀ k, s.files.lookup k = if k = "k" then some info else none) ∧ Holds s.io.dev dataStart [2] := by
  obtain ⟨s0, io, hformat⟩ := format_returns options_valid fun _ => 0
  obtain ⟨io0, rfl, hro, hsize⟩ := (formatted hformat).store
  have heasy : Easy 67108864 ((options.newStore io0).withScript []).io := ⟨rfl, rfl, hro, hsize⟩
  have halloc : (Sample.spaceAfter 0).alloc blockAlignment = .ok (dataStart, Sample.spaceAfter 1) :=
    Sample.alloc_spaceAfter (n := 0) (by decide)
  have hne : short ≠ [] := by
    unfold short
    exact List.cons_ne_nil _ _
  obtain ⟨_, s1, hput, hs1⟩ := Prog.wp_returns (wp_putPacked (s := (options.newStore io0).withScript []) rfl
    (show keyLen "k" ≤ 1024 by decide) hne stored_short rfl halloc heasy (by decide) 0) fun _ _ h => h
  have hrun : Reach Proper Committed ((doPut 0 "k" short).exec ((options.newStore io0).withScript [])).2 :=
    (Reach.format hformat).call [] 0 (.op (.putOpts "k" short .overwrite)) trivial
  rw [hput, hs1] at hrun
  change Reach Proper Committed (oneObject io0 _) at hrun
  have hsane := reach_sane hrun
  set io1 := ((options.newStore io0).withScript []).io.withByte dataStart 1 with hio1
  have hd := image_committed hsane.laid (oneObject_fits io0 io1) longByte
  obtain ⟨index, his, hvalid, hopens⟩ := image_opens hsane.laid hsane.space (oneObject_fits io0 io1) longByte .skipVerify false
  obtain ⟨t, io2, stale, io3, hopen, hstale, hfiles, -, hmax⟩ := hopens _ (wp_scanMode .skipVerify _)
  obtain rfl := hstale.2 rfl
  obtain ⟨-, hlayout, hdev, hcomp, -, hiro, hro', hdirect, halloc'⟩ := hd.toCommitted.opened hopen
  have hlookup : ∀ k, t.files.lookup k = if k = "k" then some ((options.newStore io0).packedInfo dataStart 0 1 4096) else none := by
    intro k
    rw [hfiles, DeviceIndex.lookup_recover_valid hvalid, his.files]
    by_cases hk : k = "k"
    · rw [if_pos hk, hk, if_neg (by decide)]
      exact AList.lookup_insert _
    · rw [if_neg hk]
      split
      · rfl
      · show (AList.insert "k" _ _).lookup k = none
        rw [AList.lookup_insert_ne hk]
        exact AList.lookup_empty k
  have hentries : t.files = AList.singleton "k" ((options.newStore io0).packedInfo dataStart 0 1 4096) := by
    apply AList.ext
    have hnodup : t.files.entries.Nodup := List.NodupKeys.nodup t.files.nodupKeys
    refine List.perm_singleton.mp ((List.perm_ext_iff_of_nodup hnodup (List.nodup_singleton _)).mpr fun e => ?_)
    obtain ⟨k, info⟩ := e
    rw [← AList.mem_lookup_iff, List.mem_singleton, hlookup, Option.mem_def]
    by_cases hk : k = "k"
    · subst hk
      rw [if_pos rfl]
      constructor
      · intro heq
        cases heq
        rfl
      · intro heq
        cases heq
        rfl
    · rw [if_neg hk]
      exact iff_of_false (fun heq => by cases heq) fun heq => hk (congrArg Sigma.fst heq)
  have hend : t.dataEnd = 33554432 := congrArg Layout.regionA hlayout
  rw [hentries, hend] at halloc'
  have hlen : (encodeBlocks [2]).length = 4096 := by
    rw [length_encodeBlocks, numBlocks_byte]
    rfl
  have hholds : Holds ((oneObject io0 io1).image longByte) dataStart [2] := by
    unfold Holds
    rw [← length_encodeBlocks]
    refine read_eq_of_bytes fun j hj => ?_
    rw [hlen] at hj
    show (if dataStart + j < dataStart then _ else if dataStart + j < 33554432 then longByte (dataStart + j) else _) = _
    have e : dataStart = 8192 := rfl
    rw [if_neg (by omega), if_pos (by omega), longByte, Nat.add_sub_cancel_left]
  refine ⟨t, _, ⟨.reopen (hrun.mono ?_ fun _ _ hd => hd) hd.toCommitted hopen, hro', hmax, hcomp, ⟨?_, ?_, hiro, ?_⟩, halloc'.trans (congrArg some (rebuilt_first rfl rfl))⟩, ⟨rfl, rfl, rfl, rfl⟩, hlookup, ?_⟩
  · intro s c hc
    cases c <;> simp_all [Proper, NoReload]
  · obtain ⟨sb, l, loaded, stale, hop⟩ := Prog.wp_ok (wp_openImpl .skipVerify false) hopen
    obtain ⟨c, io', -, haged, rfl⟩ := hop.store
    exact haged.script_nil rfl
  · rw [hdirect]
    rfl
  · rw [hdev]
    exact hd.size_eq.trans heasy.2.2.2
  · rw [hdev]
    exact hholds

end Packed

open Packed

end ObjStr.Raw

