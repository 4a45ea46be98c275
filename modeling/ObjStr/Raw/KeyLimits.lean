/-
  ObjStr.Raw.KeyLimits — the length of keys, and the room of an index slot (`store.rs`, `index.rs`).

  `format_with_options` clamps the key limit to what a slot can hold: its size less 98 bytes for everything but the key. What
  an entry takes depends on its time, which is written as text (`length_single`): 98 bytes are what a time of whole seconds
  needs, one with nanoseconds needs 108. And every call that makes a key checks its length, except the completion of a
  multipart upload.
  - `holdsAnyKey_iff`, `FormatOptions.hasRoom_iff`: a slot holds any key up to the limit if and only if the index has more than
    16 MB a slot, or the limit asked for is 65428 bytes at most.
  - `Op.keysShort_iff`: a call keeps all keys within the limit if and only if it completes no upload to a longer key.
  - `every_key_can_be_flushed`: both over runs.
  - `a_key_at_the_limit_blocks_the_flush`: one put of the longest key that is accepted, and no flush goes through any more.
-/

import ObjStr.Lib.Bincode
import ObjStr.Raw.Tombstones

namespace ObjStr.Raw

open ObjStr.Lib DeviceIo

/-! ## The encoding of a shard -/

def keyCoder : Coder Key := Coder.bytes.iso ofKeyBytes keyBytes ofKeyBytes_keyBytes

def u16Wire : Wire UInt16 := Wire.uint 2 UInt16.toNat UInt16.ofNat UInt16.toNat_lt @UInt16.ofNat_toNat

theorem ExtentInfo.ofFields (e : ExtentInfo) :
    ExtentInfo.mk e.offset e.size e.paddedSize e.crc32c e.createdTxn e.lastModified e.metaLen e.uncompressedSize = e := rfl

theorem ShardData.ofFields (s : ShardData) : ShardData.mk s.files s.tombstones = s := rfl

def extentCoder : Coder ExtentInfo :=
  ((Coder.uint 8).pair ((Coder.uint 8).pair ((Coder.uint 8).pair ((Coder.ofWire Wire.u32).pair ((Coder.ofWire Wire.u64).pair
    (Coder.time.pair ((Coder.ofWire u16Wire).pair (Coder.uint 8)))))))).iso
    (fun x => ⟨x.1, x.2.1, x.2.2.1, x.2.2.2.1, x.2.2.2.2.1, x.2.2.2.2.2.1, x.2.2.2.2.2.2.1, x.2.2.2.2.2.2.2⟩)
    (fun e => (e.offset, e.size, e.paddedSize, e.crc32c, e.createdTxn, e.lastModified, e.metaLen, e.uncompressedSize))
    ExtentInfo.ofFields

def tombstoneCoder : Coder TombstoneInfo :=
  ((Coder.uint 8).pair ((Coder.ofWire Wire.u32).pair (Coder.time.pair (keyCoder.pair (Coder.ofWire Wire.u64))))).iso
    (fun x => ⟨x.1, x.2.1, x.2.2.1, x.2.2.2.1, x.2.2.2.2⟩)
    (fun t => (t.size, t.crc32c, t.lastModified, t.reason, t.tombstoneTxn)) fun _ => rfl

def entryCoder {V : Type} (p : Coder V) : Coder (Sigma fun _ : Key => V) :=
  (keyCoder.pair p).iso (fun x => ⟨x.1, x.2⟩) (fun e => (e.1, e.2)) fun _ => rfl

/-- A map as the sequence of its entries; entries with a repeated key are no map. -/
def mapCoder {V : Type} (p : Coder V) : Coder (FMap V) where
  ok m := (Coder.list (entryCoder p)).ok m.entries
  put m := (Coder.list (entryCoder p)).put m.entries
  take b := ((Coder.list (entryCoder p)).take b).bind fun x =>
    if h : x.1.keys.Nodup then some (⟨x.1, h⟩, x.2) else none
  take_put m rest h := by
    rw [(Coder.list (entryCoder p)).take_put _ _ h, Option.bind_some]
    exact dif_pos m.nodupKeys

def shardCoder : Coder ShardData :=
  ((mapCoder extentCoder).pair (mapCoder tombstoneCoder)).iso (fun x => ⟨x.1, x.2⟩) (fun s => (s.files, s.tombstones))
    ShardData.ofFields

def ShardData.single (key : Key) (info : ExtentInfo) : ShardData := ⟨AList.singleton key info, ∅⟩

theorem length_extent (info : ExtentInfo) : (extentCoder.put info).length = 54 + (Rfc3339.text info.lastModified).length := by
  have hu32 : Wire.u32.width = 4 := rfl
  have hu64 : Wire.u64.width = 8 := rfl
  have hu16 : u16Wire.width = 2 := rfl
  unfold extentCoder
  simp only [Coder.length_iso, Coder.length_pair, Coder.length_uint, Coder.length_ofWire, Coder.length_time, hu32, hu64, hu16]
  omega

theorem length_entry (key : Key) (info : ExtentInfo) :
    ((entryCoder extentCoder).put ⟨key, info⟩).length = 62 + keyLen key + (Rfc3339.text info.lastModified).length := by
  unfold entryCoder keyCoder keyLen
  simp only [Coder.length_iso, Coder.length_pair, Coder.length_bytes, length_extent]
  omega

/-- What a single file takes, its key and the text of its time apart. -/
theorem length_single (key : Key) (info : ExtentInfo) :
    (shardCoder.put (.single key info)).length = 78 + keyLen key + (Rfc3339.text info.lastModified).length := by
  have hfiles : ((mapCoder extentCoder).put (ShardData.single key info).files).length =
      8 + ((entryCoder extentCoder).put ⟨key, info⟩).length := by
    show ((Coder.list (entryCoder extentCoder)).put [⟨key, info⟩]).length = _
    rw [Coder.length_list]
    simp
  have htombs : ((mapCoder tombstoneCoder).put (ShardData.single key info).tombstones).length = 8 := rfl
  show ((mapCoder extentCoder).put _ ++ (mapCoder tombstoneCoder).put _).length = _
  rw [List.length_append, hfiles, htombs, length_entry]
  omega

section KeyLimits

variable [Crates] {care : Care} {s s' s0 : Store}

/-- `bincode` writes the shards that it can write in this way. -/
def FixedWidth : Prop := ∀ shard : ShardData, shardCoder.ok shard = true → Crates.serializeShard shard = shardCoder.put shard

/-! ## Room -/

/-- Whatever key is within the limit, a slot has room for its file alone. -/
def Store.HoldsAnyKey (s : Store) : Prop :=
  ∀ key info, keyLen key ≤ s.maxKeyLength → shardCoder.ok (.single key info) = true →
    (ShardData.single key info).toBytes.1.length ≤ s.shardSlotSize

/-- No flush fails because a shard overflows that has one file. -/
def Store.SinglesFlush (s : Store) : Prop :=
  ∀ i key info, s.shardData i = .single key info → shardCoder.ok (.single key info) = true →
    ∀ e s', flushIndex.exec s = (.error e, s') → ∀ size capacity, e ≠ .shardOverflow i size capacity

def letters : Nat → Key
  | 0 => ""
  | n + 1 => letters n ++ "a"

omit [Crates] in
theorem keyLen_letters (n : Nat) : keyLen (letters n) = n := by
  induction n with
  | zero => rfl
  | succ n ih =>
    have hone : (keyBytes "a").length = 1 := by decide
    unfold keyLen at ih ⊢
    rw [letters, keyBytes_append, List.length_append, ih, hone]

def Sample.entry : ExtentInfo :=
  { offset := dataStart, size := 1, paddedSize := blockAlignment, crc32c := 0, createdTxn := 1, lastModified := 1, metaLen := 0,
    uncompressedSize := 0 }

omit [Crates] in
theorem single_ok (key : Key) (info : ExtentInfo) :
    shardCoder.ok (.single key info) = true ↔ keyLen key ≤ Coder.maxItems ∧ extentCoder.ok info = true := by
  have hkey : keyCoder.ok key = decide (keyLen key ≤ Coder.maxItems) := by
    have hall : (keyBytes key).all (fun _ => true) = true := List.all_eq_true.mpr fun _ _ => rfl
    show (decide ((keyBytes key).length ≤ Coder.maxItems) && (keyBytes key).all fun _ => true) = _
    rw [hall, Bool.and_true]
    rfl
  have hone : 1 ≤ Coder.maxItems := by decide
  show ((decide (1 ≤ Coder.maxItems) && (keyCoder.ok key && extentCoder.ok info && true)) && true) = true ↔ _
  rw [hkey]
  simp [hone]

/-- What the limit leaves must be room for an entry with nanoseconds. -/
theorem holdsAnyKey_iff (hb : FixedWidth) (hmax : s.maxKeyLength ≤ 65536) :
    s.HoldsAnyKey ↔ s.maxKeyLength + 108 ≤ s.shardSlotSize := by
  constructor
  · intro h
    have hok : shardCoder.ok (.single (letters s.maxKeyLength) Sample.entry) = true := by
      refine (single_ok _ _).mpr ⟨?_, by decide⟩
      rw [keyLen_letters]
      unfold Coder.maxItems
      omega
    have hfits := h _ _ (Nat.le_of_eq (keyLen_letters s.maxKeyLength)) hok
    have htext : (Rfc3339.text Sample.entry.lastModified).length = 30 := by decide
    unfold ShardData.toBytes at hfits
    rw [hb _ hok, length_single, keyLen_letters, htext] at hfits
    omega
  · intro h key info hkey hok
    have hinfo := ((single_ok key info).mp hok).2
    have hyear : info.lastModified < Rfc3339.endOfYears := by
      have htime : Coder.time.ok info.lastModified = true := by
        simp only [extentCoder, Coder.iso, Coder.pair, Bool.and_eq_true] at hinfo
        exact hinfo.2.2.2.2.2.1
      exact of_decide_eq_true htime
    have htext := Rfc3339.length_text hyear
    have hfraction := Rfc3339.length_fraction (info.lastModified % 1000000000)
    unfold ShardData.toBytes
    rw [hb _ hok, length_single]
    omega

/-- The options whose clamp leaves it. -/
def FormatOptions.HasRoom (opts : FormatOptions) : Prop := indexRegionSize < opts.indexSlotSize ∨ opts.maxKeyLength ≤ 65428

omit [Crates] in
theorem FormatOptions.hasRoom_iff {opts : FormatOptions} (h : opts.Valid) :
    opts.HasRoom ↔ opts.effectiveMaxKey + 108 ≤ opts.indexSlotSize / numShards := by
  have h1 := h.room
  have h2 := h.whole
  have h3 := h.maxKey
  have e1 : indexRegionSize = 16777216 := by decide
  have e2 : numShards = 256 := rfl
  have e3 : maxKeyLengthHardCeiling = 65536 := rfl
  rw [e1] at h1 h2
  rw [e3] at h3
  unfold FormatOptions.HasRoom FormatOptions.effectiveMaxKey
  rw [e1, e2]
  omega

theorem errors_writeSuperblocks (sb : Superblock) {io : DeviceIo} :
    Prog.wp (writeSuperblocks sb) (fun _ _ => True) (fun e _ => e.OfDevice) io := by
  unfold writeSuperblocks
  rw [toBytes_eq, Prog.wp_bind, wp_ofExcept]
  dsimp only
  rw [Prog.wp_bind]
  refine Prog.wp_mono (errors_pwrite _ _) ?_ (fun _ _ h => h)
  intro _ io1 _
  rw [Prog.wp_bind]
  refine Prog.wp_mono errors_sync ?_ (fun _ _ h => h)
  intro _ io2 _
  rw [Prog.wp_bind]
  refine Prog.wp_mono (errors_pwrite _ _) ?_ (fun _ _ h => h)
  intro _ io3 _
  exact errors_sync

/-- A flush names a shard only if it does not fit its slot. -/
theorem wp_flushIndex_overflow (s : Store) :
    Prog.wp flushIndex (fun _ _ => True)
      (fun e _ => ∀ (i : Fin numShards) size capacity, e = .shardOverflow i size capacity → s.shardSlotSize < (s.blob i).length) s := by
  have hdevice : ∀ e : RawStoreError, e.OfDevice → ∀ (i : Fin numShards) size capacity, e = .shardOverflow i size capacity →
      s.shardSlotSize < (s.blob i).length := by
    intro e he i size capacity hover
    rw [hover] at he
    exact he.elim
  unfold flushIndex
  rw [Prog.wp_bind, Prog.wp_get, Prog.wp_bind, Prog.wp_failIf]
  refine ⟨fun _ => hdevice _ trivial, fun _ => ?_⟩
  rw [Prog.wp_bind]
  refine Prog.wp_mono (Prog.wp_foldlM (fun _ _ s' => FlushFrame s s') _ rfl ?_) ?_ (fun _ _ h => h)
  · intro _ i _ n s1 _ h1
    have hblob : (s1.shardData i).toBytes.1 = s.blob i := by
      rw [h1]
      rfl
    have hslot : s1.shardSlotSize = s.shardSlotSize := by rw [h1]
    have herrors : Prog.wp (flushShard n i) (fun _ _ => True)
        (fun e _ => ∀ (i : Fin numShards) size capacity, e = .shardOverflow i size capacity → s.shardSlotSize < (s.blob i).length)
        s1 := by
      unfold flushShard
      rw [Prog.wp_bind, Prog.wp_get]
      split
      · trivial
      · rw [Prog.wp_bind, Prog.wp_failIf, hblob, hslot]
        refine ⟨fun hlt j size capacity heq => ?_, fun _ => ?_⟩
        · injection heq with hj
          rw [← Fin.ext hj]
          exact hlt
        · rw [Prog.wp_bind, wp_onDevice]
          exact Prog.wp_mono (errors_pwrite _ _) (fun _ _ _ => trivial) fun e _ he => hdevice e he
    exact Prog.wp_mono (Prog.wp_and (frame_flushShard n i s1) herrors) (fun _ _ h => h1.trans h.1) fun _ _ h => h.2
  · intro n s1 _
    unfold commitFlush
    rw [Prog.wp_bind, wp_onDevice]
    refine Prog.wp_mono errors_sync ?_ fun e _ he => hdevice e he
    intro _ io _
    rw [Prog.wp_bind, Prog.wp_modify, Prog.wp_bind, Prog.wp_get, Prog.wp_bind, wp_onDevice]
    exact Prog.wp_mono (errors_writeSuperblocks _) (fun _ _ _ => trivial) fun e _ he => hdevice e he

/-- A single dirty shard that does not fit its slot ends the flush. -/
theorem wp_flushIndex_blocked {i : Fin numShards} (hro : s.readOnly = false) (hdirty : s.shardDirty i = true)
    (hclean : ∀ j, j ≠ i → s.shardDirty j = false) (hover : s.shardSlotSize < (s.blob i).length) :
    Prog.wp flushIndex (fun _ _ => False) (fun e _ => e = .shardOverflow i (s.blob i).length s.shardSlotSize) s := by
  unfold flushIndex
  rw [Prog.wp_bind, Prog.wp_get, Prog.wp_bind, Prog.wp_failIf]
  refine ⟨fun h => absurd h (Bool.eq_false_iff.mp hro), fun _ => ?_⟩
  rw [Prog.wp_bind]
  refine Prog.wp_mono (Prog.wp_foldlM (fun done _ s' => s' = s ∧ i ∉ done) _ ⟨rfl, List.not_mem_nil⟩ ?_) ?_ (fun _ _ h => h)
  · intro pre j post n s1 _ h1
    obtain ⟨rfl, hpre⟩ := h1
    unfold flushShard
    rw [Prog.wp_bind, Prog.wp_get]
    by_cases hj : j = i
    · rw [hj, if_neg (by rw [hdirty]; exact Bool.noConfusion), Prog.wp_bind, Prog.wp_failIf]
      exact ⟨fun _ => rfl, fun hfits => absurd hover hfits⟩
    · rw [if_pos (hclean j hj)]
      refine ⟨rfl, fun hmem => ?_⟩
      rcases List.mem_append.mp hmem with hmem | hmem
      · exact hpre hmem
      · exact hj (List.mem_singleton.mp hmem).symm
  · intro n s1 h1
    exact absurd (List.mem_finRange i) h1.2

/-- A shard of one file does not overflow, if its key is within the limit. -/
theorem Store.HoldsAnyKey.singlesFlush (h : s.HoldsAnyKey)
    (hshort : ∀ key info, s.files.lookup key = some info → keyLen key ≤ s.maxKeyLength) : s.SinglesFlush := by
  intro i key info hi hok e s' hrun size capacity hover
  have hkey : s.files.lookup key = some info := by
    have hlook := s.lookup_shardData i key
    rw [hi] at hlook
    have hfiles := hlook.1
    rw [show (ShardData.single key info).files.lookup key = some info from AList.lookup_insert ∅] at hfiles
    split at hfiles
    · exact hfiles.symm
    · cases hfiles
  have hfits := h key info (hshort key info hkey) hok
  have hlt := Prog.wp_error (wp_flushIndex_overflow s) hrun i size capacity hover
  unfold Store.blob at hlt
  rw [hi] at hlt
  omega

/-! ## Short keys -/

def Store.KeysWithin (s : Store) (max : Nat) : Prop := ∀ key info, s.files.lookup key = some info → keyLen key ≤ max

def Store.KeysShort (s : Store) : Prop := s.KeysWithin s.maxKeyLength

omit [Crates] in
/-- A key that a call makes, among those that stay. -/
theorem Store.KeysWithin.of_subset {max : Nat} {key : Key} (h : s.KeysWithin max) (hkey : keyLen key ≤ max)
    (hsub : ∀ k info, s'.files.lookup k = some info → k = key ∨ (s.files.lookup k).isSome) : s'.KeysWithin max := by
  intro k info hk
  rcases hsub k info hk with heq | hold
  · rw [heq]
    exact hkey
  · obtain ⟨old, hlook⟩ := Option.isSome_iff_exists.mp hold
    exact h k old hlook

omit [Crates] in
theorem Store.KeysWithin.of_eq {max : Nat} (h : s.KeysWithin max) (hf : s'.files = s.files) : s'.KeysWithin max := by
  intro k info hk
  rw [hf] at hk
  exact h k info hk

theorem Store.KeysWithin.dropParts {max : Nat} (h : s.KeysWithin max) (ks : List Key) : (s.dropParts ks).KeysWithin max := by
  intro k info hk
  rw [lookup_dropParts] at hk
  split at hk
  · cases hk
  · exact h k info hk

theorem Store.KeysWithin.replaceFile {max : Nat} (h : s.KeysWithin max) {key : Key} (hkey : keyLen key ≤ max) (info : ExtentInfo) :
    (s.replaceFile key info).KeysWithin max := by
  refine h.of_subset hkey fun k info' hk => ?_
  rw [lookup_replaceFile] at hk
  by_cases heq : k = key
  · exact .inl heq
  · rw [if_neg heq] at hk
    exact .inr (by rw [hk]; rfl)

theorem Store.KeysWithin.insertFile {max : Nat} (h : s.KeysWithin max) {key : Key} (hkey : keyLen key ≤ max) (info : ExtentInfo) :
    (s.insertFile key info).KeysWithin max := by
  refine h.of_subset hkey fun k info' hk => ?_
  rcases lookup_insertFile_some hk with ⟨heq, -⟩ | ⟨-, hold⟩
  · exact .inl heq
  · exact .inr (by rw [hold]; rfl)

omit [Crates] in
theorem Store.KeysWithin.removeFile {max : Nat} (h : s.KeysWithin max) (key : Key) : (s.removeFile key).KeysWithin max :=
  fun k info hk => h k info (lookup_removeFile_some hk)

theorem Store.KeysWithin.moved {max : Nat} (h : s.KeysWithin max) (fromKey : Key) {toKey : Key} (hkey : keyLen toKey ≤ max)
    (info : ExtentInfo) : (s.moved fromKey toKey info).KeysWithin max := by
  have herased : Store.KeysWithin { s with files := s.files.erase fromKey } max := by
    intro k info' hk
    change (s.files.erase fromKey).lookup k = some info' at hk
    by_cases hne : k = fromKey
    · rw [hne, AList.lookup_erase] at hk
      cases hk
    · rw [AList.lookup_erase_ne hne] at hk
      exact h k info' hk
  have hremoved : Store.KeysWithin ((Store.removeFile { s with files := s.files.erase fromKey } toKey).markShardDirty fromKey) max :=
    (herased.removeFile toKey).of_eq rfl
  exact hremoved.insertFile hkey info

omit [Crates] in
theorem Prep.keysWithin {held : List Span} {max : Nat} (hp : Prep care s held s') (h : s.KeysWithin max) : s'.KeysWithin max :=
  h.of_eq hp.files_eq

theorem PutDone.keysWithin {key : Key} {payload : Bytes} {metaLen : UInt16} {parts : List Key} {max : Nat}
    (hd : PutDone care s key payload metaLen parts s') (h : s.KeysWithin max) (hkey : keyLen key ≤ max) : s'.KeysWithin max := by
  obtain ⟨s1, info, hp, rfl, _⟩ := hd.done
  exact ((hp.keysWithin h).replaceFile hkey info).dropParts parts

theorem Indexed.keysWithin {key : Key} {max : Nat} (hd : Indexed care s key s') (h : s.KeysWithin max) (hkey : keyLen key ≤ max) :
    s'.KeysWithin max := by
  obtain ⟨s1, info, hp, rfl, _⟩ := hd.done
  exact (hp.keysWithin h).replaceFile hkey info

theorem CopyDone.keysWithin {fromKey toKey : Key} {max : Nat} (hd : CopyDone care s fromKey toKey s') (h : s.KeysWithin max)
    (hkey : keyLen toKey ≤ max) : s'.KeysWithin max := by
  obtain ⟨s1, info, off, now, -, hp, rfl, -⟩ := hd.done
  exact ((hp.keysWithin h).removeFile toKey).insertFile hkey _

/-! ## Calls -/

theorem wp_doPutWithMeta_key (now : DateTime) (key : Key) (payload : Bytes) (metaLen : UInt16) :
    Prog.wp (doPutWithMeta now key payload metaLen) (fun _ _ => keyLen key ≤ s.maxKeyLength) (fun _ _ => True) s := by
  unfold doPutWithMeta
  simp only [Prog.wp_bind, Prog.wp_get, Prog.wp_failIf]
  refine ⟨fun _ => trivial, fun _ => ⟨fun _ => trivial, fun _ => ⟨fun _ => trivial, fun hkey => ?_⟩⟩⟩
  have hle : keyLen key ≤ s.maxKeyLength := Nat.not_lt.mp hkey
  exact Prog.wp_of_forall _ (fun _ _ => Prog.wp_of_forall _ (fun _ _ => Prog.wp_of_forall _ (fun _ _ => hle) fun _ _ => trivial)
    fun _ _ => trivial) fun _ _ => trivial

theorem wp_putOpts_key (now : DateTime) (key : Key) (payload : Bytes) (mode : PutMode) :
    Prog.wp (putOpts now key payload mode) (fun _ _ => keyLen key ≤ s.maxKeyLength) (fun _ _ => True) s := by
  have hput := wp_doPutWithMeta_key (s := s) now key payload 0
  unfold putOpts doPut
  rw [Prog.wp_bind, Prog.wp_get]
  cases mode with
  | create =>
    rw [Prog.wp_bind, Prog.wp_failIf]
    exact ⟨fun _ => trivial, fun _ => hput⟩
  | overwrite => exact hput
  | update conditional =>
    rw [Prog.wp_bind, Prog.wp_failIf]
    exact ⟨fun _ => trivial, fun _ => hput⟩

theorem wp_putWithMeta_key (now : DateTime) (key : Key) (body metadata : Bytes) :
    Prog.wp (putWithMeta now key body metadata) (fun _ _ => keyLen key ≤ s.maxKeyLength) (fun _ _ => True) s := by
  unfold putWithMeta
  rw [Prog.wp_bind, Prog.wp_failIf]
  exact ⟨fun _ => trivial, fun _ => wp_doPutWithMeta_key now key _ _⟩

theorem wp_putWithMetaFromFile_key (now : DateTime) (key : Key) (file : SourceFile) (metaLen : UInt16) :
    Prog.wp (putWithMetaFromFile now key file metaLen) (fun _ _ => keyLen key ≤ s.maxKeyLength) (fun _ _ => True) s := by
  unfold putWithMetaFromFile
  rw [Prog.wp_bind, Prog.wp_get]
  split
  · rw [Prog.wp_bind, Prog.wp_failIf]
    exact ⟨fun _ => trivial, fun _ => wp_doPutWithMeta_key now key _ _⟩
  · simp only [Prog.wp_bind, Prog.wp_failIf]
    refine ⟨fun _ => trivial, fun _ => ⟨fun _ => trivial, fun _ => ⟨fun _ => trivial, fun hkey => ?_⟩⟩⟩
    have hle : keyLen key ≤ s.maxKeyLength := Nat.not_lt.mp hkey
    exact Prog.wp_of_forall _ (fun _ _ => Prog.wp_of_forall _ (fun _ _ => Prog.wp_of_forall _ (fun _ _ => hle) fun _ _ => trivial)
      fun _ _ => trivial) fun _ _ => trivial

/-- What a completion does before it makes the key: read the parts and write them one after the other. -/
def gatherParts (tmp : TempFile) (partKeys : List Key) : StoreM (Nat × Nat × Nat × Nat × UInt32) := do
  Prog.failIf (partKeys = []) .emptyPayload
  let parts ← partInfos partKeys
  let s ← get
  let (size, uncompressedSize, source) ← onDevice (planParts s.compression parts)
  let padded ← ofExcept (paddedExtentSize size)
  let (offset, crc) ← allocWrite padded fun offset =>
    match source with
    | some data => writeTemp tmp offset data
    | none => writeParts s.compression offset parts
  pure (size, uncompressedSize, padded, offset, crc)

theorem complete_eq (now : DateTime) (tmp : TempFile) (location : Key) (partKeys : List Key) :
    complete now tmp location partKeys = gatherParts tmp partKeys >>= fun r =>
      modify fun s => (s.replaceFile location
        { offset := r.2.2.2.1, size := r.1, paddedSize := r.2.2.1, crc32c := r.2.2.2.2, createdTxn := s.superblock.txnId,
          lastModified := now, metaLen := 0, uncompressedSize := r.2.1 }).dropParts partKeys := by
  unfold complete gatherParts
  simp only [bind_assoc]
  rfl

def Store.CanJoin (s : Store) (tmp : TempFile) (partKeys : List Key) : Prop := ∃ r s', (gatherParts tmp partKeys).exec s = (.ok r, s')

theorem wp_complete_passes (now : DateTime) (tmp : TempFile) (location : Key) (partKeys : List Key) :
    Prog.wp (complete now tmp location partKeys) (fun _ _ => s.CanJoin tmp partKeys) (fun _ _ => ¬ s.CanJoin tmp partKeys) s := by
  rw [complete_eq, Prog.wp_bind]
  cases hrun : (gatherParts tmp partKeys).exec s with
  | mk r t =>
    cases r with
    | ok r =>
      rw [Prog.wp_of_ok hrun, Prog.wp_modify]
      exact ⟨r, t, hrun⟩
    | error e =>
      refine (Prog.wp_of_error hrun).mpr fun hcan => ?_
      obtain ⟨r, u, hok⟩ := hcan
      rw [hrun] at hok
      cases hok

theorem wp_renameIfNotExists_key (fromKey toKey : Key) :
    Prog.wp (renameIfNotExists fromKey toKey) (fun _ _ => keyLen toKey ≤ s.maxKeyLength) (fun _ _ => True) s := by
  unfold renameIfNotExists
  simp only [Prog.wp_bind, Prog.wp_get, Prog.wp_failIf]
  refine ⟨fun _ => trivial, fun _ => ⟨fun _ => trivial, fun hkey => ⟨fun _ => trivial, fun _ => ?_⟩⟩⟩
  have hle : keyLen toKey ≤ s.maxKeyLength := Nat.not_lt.mp hkey
  exact Prog.wp_of_forall _ (fun _ _ => Prog.wp_of_forall _ (fun _ _ => hle) fun _ _ => trivial) fun _ _ => trivial

/-- The call completes no upload to a key that is too long. -/
def Op.KeyFits (s : Store) : Op → Prop
  | .complete tmp location partKeys => s.CanJoin tmp partKeys → keyLen location ≤ s.maxKeyLength
  | _ => True

omit [Crates] in
theorem PartsIndexed.listed {partKeys : List Key} {parts : List ExtentInfo} (h : PartsIndexed s partKeys parts) {key : Key}
    (hmem : key ∈ partKeys) : ∃ info, s.files.lookup key = some info := by
  induction h with
  | nil => cases hmem
  | cons hk _ ih =>
    rcases List.mem_cons.mp hmem with heq | hmem
    · rw [heq]
      exact ⟨_, hk⟩
    · exact ih hmem

/-- A completed upload is listed, unless its key is that of one of its parts. -/
theorem Completed.keysWithin_iff {location : Key} {partKeys : List Key} {max : Nat} (hd : Completed care s location partKeys s')
    (h : s.KeysWithin max) : s'.KeysWithin max ↔ keyLen location ≤ max := by
  obtain ⟨parts, payload, hparts, hput, -⟩ := hd.done
  constructor
  · intro h'
    by_cases hmem : location ∈ partKeys
    · obtain ⟨info, hk⟩ := hparts.listed hmem
      exact h location info hk
    · obtain ⟨s1, info, -, rfl, -⟩ := hput.done
      refine h' location info ?_
      rw [lookup_dropParts, if_neg hmem, lookup_replaceFile, if_pos rfl]
  · intro hkey
    exact hput.keysWithin h hkey

theorem wp_copyIfNotExists_keys {max : Nat} (hs : SpaceInv s []) (h : s.KeysWithin max) (hlimit : s.maxKeyLength = max) (now : DateTime)
    (fromKey toKey : Key) :
    Prog.wp (copyIfNotExists now fromKey toKey) (fun _ t => t.KeysWithin max) (fun _ t => t.KeysWithin max) s := by
  have hcopy : Prog.wp (doCopy now fromKey toKey) (fun _ t => CopyDone .index s fromKey toKey t) (fun _ t => Prep .index s [] t) s :=
    wp_doCopy hs now fromKey toKey
  unfold copyIfNotExists
  rw [Prog.wp_bind, Prog.wp_get, Prog.wp_bind, Prog.wp_failIf]
  refine ⟨fun _ => h, fun _ => Prog.wp_mono (Prog.wp_and (wp_doCopy_passes now fromKey toKey) hcopy) ?_
    fun e t he => he.2.keysWithin h⟩
  intro _ t ht
  exact ht.2.keysWithin h (hlimit ▸ ht.1.1.2.1)

theorem wp_deleteTombstone_keys {max : Nat} (h : s.KeysWithin max) (path : Key) :
    Prog.wp (deleteTombstone path) (fun _ t => t.KeysWithin max) (fun _ t => t.KeysWithin max) s := by
  unfold deleteTombstone
  rw [Prog.wp_bind, Prog.wp_get, Prog.wp_bind, Prog.wp_failIf]
  refine ⟨fun _ => h, fun _ => ?_⟩
  split
  · exact h
  · exact h.of_eq rfl

theorem wp_clearTombstones_keys {max : Nat} (h : s.KeysWithin max) :
    Prog.wp clearTombstones (fun _ t => t.KeysWithin max) (fun _ t => t.KeysWithin max) s := by
  unfold clearTombstones
  rw [Prog.wp_bind, Prog.wp_get, Prog.wp_bind, Prog.wp_failIf]
  refine ⟨fun _ => h, fun _ => ?_⟩
  split
  · exact h
  · refine h.of_eq ?_
    show (List.foldl _ s s.tombstones.entries).files = s.files
    rw [foldl_markShardDirty]

/-- A call keeps all keys within the limit exactly if it completes no upload to a longer one. -/
theorem Op.keysShort_iff (op : Op) (now : DateTime) (hs : SpaceInv s []) (hc : ContentInv .index s) (h : s.KeysShort) :
    ((op.run now).exec s).2.KeysShort ↔ op.KeyFits s := by
  have hmax : ((op.run now).exec s).2.maxKeyLength = s.maxKeyLength := by
    have hstep : Step .index s ((op.run now).exec s).2 := op.step now hs hc (op.sound_of_ne (by decide)) fun h => absurd rfl h
    rw [hstep.frame]
  unfold Store.KeysShort at h ⊢
  rw [hmax]
  generalize hlimit : s.maxKeyLength = max at h
  have hdone : ∀ {α : Type} {p : StoreM α} {Q : α → Store → Prop} {E : RawStoreError → Store → Prop},
      Prog.wp p Q E s → (∀ a t, Q a t → t.KeysWithin max) → (∀ e t, E e t → t.KeysWithin max) → (p.exec s).2.KeysWithin max :=
    fun hp hQ hE => Prog.wp_state (Prog.wp_mono hp hQ hE)
  have hprep : ∀ (e : RawStoreError) (t : Store), Prep .index s [] t → t.KeysWithin max := fun _ _ hp => hp.keysWithin h
  cases op with
  | putOpts key payload mode =>
    refine iff_of_true (hdone (Prog.wp_and (wp_putOpts_key now key payload mode) (wp_putOpts hs now key payload mode)) ?_
      fun e t he => hprep e t he.2) trivial
    intro _ t ht
    exact ht.2.keysWithin h (hlimit ▸ ht.1)
  | putWithMeta key body metadata =>
    refine iff_of_true (hdone (Prog.wp_and (wp_putWithMeta_key now key body metadata) (wp_putWithMeta hs now key body metadata)) ?_
      fun e t he => hprep e t he.2) trivial
    intro _ t ht
    exact ht.2.2.keysWithin h (hlimit ▸ ht.1)
  | putWithMetaFromFile key file metaLen =>
    refine iff_of_true (hdone (Prog.wp_and (wp_putWithMetaFromFile_key now key file metaLen)
      (wp_putWithMetaFromFile hs now key file metaLen (fun hcare => by cases hcare))) ?_ fun e t he => hprep e t he.2) trivial
    intro _ t ht
    exact ht.2.keysWithin h (hlimit ▸ ht.1)
  | copy fromKey toKey =>
    refine iff_of_true (hdone (Prog.wp_and (wp_doCopy_passes now fromKey toKey) (wp_doCopy hs now fromKey toKey)) ?_
      fun e t he => hprep e t he.2) trivial
    intro _ t ht
    exact ht.2.keysWithin h (hlimit ▸ ht.1.1.2.1)
  | copyIfNotExists fromKey toKey =>
    exact iff_of_true (Prog.wp_state (wp_copyIfNotExists_keys hs h hlimit now fromKey toKey)) trivial
  | rename fromKey toKey =>
    refine iff_of_true (hdone (Prog.wp_and (wp_rename_passes fromKey toKey) (wp_rename fromKey toKey)) ?_
      fun _ t ht => by rw [ht.2]; exact h) trivial
    intro _ t ht
    obtain ⟨hmove, info, -, rfl⟩ := ht
    exact h.moved fromKey (hlimit ▸ hmove.2.1) info
  | renameIfNotExists fromKey toKey =>
    refine iff_of_true (hdone (Prog.wp_and (wp_renameIfNotExists_key fromKey toKey) (wp_renameIfNotExists fromKey toKey)) ?_
      fun _ t ht => by rw [ht.2]; exact h) trivial
    intro _ t ht
    obtain ⟨hkey, info, -, rfl⟩ := ht
    exact h.moved fromKey (hlimit ▸ hkey) info
  | delete key =>
    refine iff_of_true (hdone (wp_delete key) ?_ fun _ t ht => by rw [ht]; exact h) trivial
    intro _ t ht
    rw [ht]
    split
    · exact (h.dropParts [key]).of_eq rfl
    · exact h
  | updateMetadata key metadata =>
    refine iff_of_true (hdone (wp_updateMetadata hs hc now key metadata) ?_ hprep) trivial
    intro _ t ht
    obtain ⟨-, info, body, hk, hd, -⟩ := ht
    exact hd.keysWithin h (h key info hk)
  | setMetaLen key metaLen =>
    refine iff_of_true (hdone (wp_setMetaLen key metaLen) ?_ fun _ t ht => by rw [ht]; exact h) trivial
    intro _ t ht
    obtain ⟨info, hk, rfl⟩ := ht
    exact h.insertFile (h key info hk) _
  | putMultipart location => exact iff_of_true (h.of_eq rfl) trivial
  | putPart partKey payload =>
    refine iff_of_true (hdone (Prog.wp_and (wp_doPutWithMeta_key now partKey payload 0)
      (wp_doPutWithMeta .index hs now partKey payload 0)) ?_ fun e t he => hprep e t he.2) trivial
    intro _ t ht
    exact ht.2.keysWithin h (hlimit ▸ ht.1)
  | complete tmp location partKeys =>
    have hcomplete := Prog.wp_and (wp_complete_passes (s := s) now tmp location partKeys)
      (wp_complete hs hc now tmp location partKeys (fun hcare => absurd rfl hcare))
    refine Prog.wp_state (P := fun t => t.KeysWithin max ↔ _) (Prog.wp_mono hcomplete ?_ ?_)
    · intro _ t ht
      rw [ht.2.keysWithin_iff h, ← hlimit]
      exact ⟨fun hkey _ => hkey, fun hkey => hkey ht.1⟩
    · intro e t ht
      exact iff_of_true (hprep e t ht.2) fun hcan => absurd hcan ht.1
  | abort partKeys => exact iff_of_true ((h.dropParts partKeys).of_eq rfl) trivial
  | deleteTombstone path =>
    show ((Prog.exec (do let _ ← Raw.deleteTombstone path) s).2).KeysWithin max ↔ _
    rw [exec_discard]
    exact iff_of_true (Prog.wp_state (wp_deleteTombstone_keys h path)) trivial
  | clearTombstones =>
    show ((Prog.exec (do let _ ← Raw.clearTombstones) s).2).KeysWithin max ↔ _
    rw [exec_discard]
    exact iff_of_true (Prog.wp_state (wp_clearTombstones_keys h)) trivial
  | scrubFreeSpace =>
    exact iff_of_true (hdone (wp_scrubFreeSpace hs fun hcare => absurd rfl hcare) (fun _ _ hp => hp.keysWithin h) hprep) trivial

/-! ## Runs -/

/-- No reload, and no upload completed to a key that is too long. -/
def KeyFits (s : Store) : Call → Prop
  | .op o => o.KeyFits s
  | .reloadIndex => False
  | _ => True

/-- What a flush of the state leaves on a device, the key limit included. -/
structure KeptLimit (s : Store) (d : Disk) : Prop extends Committed s d where
  limit : ∀ sb l index, committed d = .ok (sb, l, index) → sb.maxKeyLength = s.superblock.maxKeyLength

theorem wp_flushIndex_limit (s : Store) :
    Prog.wp flushIndex (fun _ s' => s'.superblock.maxKeyLength = s.superblock.maxKeyLength)
      (fun _ s' => s'.superblock.maxKeyLength = s.superblock.maxKeyLength) s := by
  unfold flushIndex
  rw [Prog.wp_bind, Prog.wp_get, Prog.wp_bind, Prog.wp_failIf]
  refine ⟨fun _ => rfl, fun _ => ?_⟩
  rw [Prog.wp_bind]
  refine Prog.wp_mono (Prog.wp_foldlM (fun _ _ s' => s'.superblock.maxKeyLength = s.superblock.maxKeyLength) _ rfl ?_) ?_
    (fun _ _ h => h)
  · intro _ i _ n s1 _ h1
    unfold flushShard
    rw [Prog.wp_bind, Prog.wp_get]
    split
    · exact h1
    · rw [Prog.wp_bind, Prog.wp_failIf]
      refine ⟨fun _ => h1, fun _ => ?_⟩
      rw [Prog.wp_bind, wp_onDevice]
      exact Prog.wp_of_forall _ (fun _ _ => h1) fun _ _ => h1
  · intro n s1 h1
    unfold commitFlush
    rw [Prog.wp_bind, wp_onDevice]
    refine Prog.wp_of_forall _ (fun _ io => ?_) fun _ _ => h1
    rw [Prog.wp_bind, Prog.wp_modify, Prog.wp_bind, Prog.wp_get, Prog.wp_bind, wp_onDevice]
    exact Prog.wp_of_forall _ (fun _ _ => h1) fun _ _ => h1

/-- What a format fixes about keys and slots, and the keys within it. -/
structure MadeWith (opts : FormatOptions) (s : Store) : Prop where
  limit : s.maxKeyLength = opts.effectiveMaxKey
  stored : s.superblock.maxKeyLength.toNat = opts.effectiveMaxKey
  slot : s.shardSlotSize = opts.indexSlotSize / numShards
  short : s.KeysShort

theorem Formatted.madeWith {opts : FormatOptions} (h : Formatted opts s) : MadeWith opts s := by
  have hbounds := opts.effectiveMaxKey_bounds h.valid
  obtain ⟨io, rfl, -⟩ := h.store
  refine ⟨rfl, ?_, rfl, ?_⟩
  · show (UInt32.ofNat opts.effectiveMaxKey).toNat = _
    rw [UInt32.toNat_ofNat']
    exact Nat.mod_eq_of_lt (by omega)
  · intro key info hk
    change (∅ : FMap ExtentInfo).lookup key = some info at hk
    rw [AList.lookup_empty] at hk
    cases hk

theorem MadeWith.flushed {opts : FormatOptions} (h : MadeWith opts s) : MadeWith opts (flushIndex.exec s).2 := by
  have hframe := flush_frame s
  have hlimit : (flushIndex.exec s).2.superblock.maxKeyLength = s.superblock.maxKeyLength :=
    Prog.wp_state (P := fun t : Store => t.superblock.maxKeyLength = s.superblock.maxKeyLength) (wp_flushIndex_limit s)
  refine ⟨?_, ?_, ?_, ?_⟩
  · rw [hframe]
    exact h.limit
  · rw [hlimit]
    exact h.stored
  · rw [hframe]
    exact h.slot
  · rw [hframe]
    exact h.short

theorem MadeWith.reopened {opts : FormatOptions} {d : Disk} {mode : OpenMode} {script : List Outcome} {io : DeviceIo}
    (h : MadeWith opts s) (hd : KeptLimit s d) (hopen : (openImpl mode false).exec (.onDisk d false script) = (.ok s', io)) :
    MadeWith opts s' := by
  obtain ⟨hsub, hlayout, -⟩ := hd.opened hopen
  obtain ⟨sb, l, loaded, stale, hop⟩ := Prog.wp_ok (wp_openImpl mode false) hopen
  have hlimit := hd.limit sb l loaded hop.committed
  obtain ⟨c, io', -, -, rfl⟩ := hop.store
  have hmax : sb.maxKeyLength.toNat = opts.effectiveMaxKey := by
    rw [hlimit]
    exact h.stored
  refine ⟨hmax, hmax, ?_, ?_⟩
  · rw [← h.slot]
    exact congrArg Layout.slotSize hlayout
  · intro key info hk
    show keyLen key ≤ sb.maxKeyLength.toNat
    rw [hmax, ← h.limit]
    exact h.short key info (hsub key info hk).1

theorem run_madeWith {opts : FormatOptions} {bytes : Nat → UInt8} {script : List Outcome} {io : DeviceIo}
    (hformat : (formatWithOptions opts).exec (opts.device bytes script) = (.ok s0, io)) (h : RunFrom KeyFits KeptLimit s0 s) :
    MadeWith opts s := by
  induction h with
  | start => exact (formatted hformat).madeWith
  | @call s hs script now c hc ih =>
    have hreach : Reach KeyFits KeptLimit s := hs.reach (.format hformat)
    have hnoReload : ∀ s c, KeyFits s c → NoReload s c := by
      intro s c hc he
      rw [he] at hc
      exact hc
    obtain ⟨hspace, hcontent⟩ := reach_inv (hreach.mono hnoReload fun _ _ hd => hd.toCommitted)
    have hspace' : SpaceInv (s.withScript script) [] := hspace.congr rfl rfl rfl
    have hmade : MadeWith opts (s.withScript script) := ⟨ih.limit, ih.stored, ih.slot, ih.short⟩
    cases c with
    | op o =>
      have hstep : Step .index (s.withScript script) ((o.run now).exec (s.withScript script)).2 :=
        o.step now hspace' hcontent (o.sound_of_ne (by decide)) fun h => absurd rfl h
      have hshort := (o.keysShort_iff now hspace' hcontent hmade.short).mpr hc
      refine ⟨?_, ?_, ?_, hshort⟩
      · show ((o.run now).exec (s.withScript script)).2.maxKeyLength = _
        rw [hstep.frame]
        exact hmade.limit
      · show ((o.run now).exec (s.withScript script)).2.superblock.maxKeyLength.toNat = _
        rw [hstep.frame]
        exact hmade.stored
      · show ((o.run now).exec (s.withScript script)).2.shardSlotSize = _
        rw [hstep.frame]
        exact hmade.slot
    | flushIndex => exact hmade.flushed
    | repair =>
      rw [exec_repair hspace']
      exact hmade.flushed
    | reloadIndex => exact hc.elim
  | reopen _ hd hopen ih => exact ih.reopened hd hopen

/-- In a run that completes no upload to a key that is too long every key is within the limit, and a slot holds any key within
    it if and only if the options leave room; then no shard of one file overflows. -/
theorem every_key_can_be_flushed (hb : FixedWidth) {opts : FormatOptions} {bytes : Nat → UInt8} {script : List Outcome}
    {io : DeviceIo} (hformat : (formatWithOptions opts).exec (opts.device bytes script) = (.ok s0, io))
    (hrun : RunFrom KeyFits KeptLimit s0 s) :
    s.KeysShort ∧ (s.HoldsAnyKey ↔ opts.HasRoom) ∧ (opts.HasRoom → s.SinglesFlush) := by
  have hvalid := (formatted hformat).valid
  have hmade := run_madeWith hformat hrun
  have hbounds := opts.effectiveMaxKey_bounds hvalid
  have hiff : s.HoldsAnyKey ↔ opts.HasRoom := by
    rw [holdsAnyKey_iff hb (by rw [hmade.limit]; exact hbounds.2), hmade.limit, hmade.slot, opts.hasRoom_iff hvalid]
  exact ⟨hmade.short, hiff, fun hroom => (hiff.mpr hroom).singlesFlush hmade.short⟩

end KeyLimits

/-! ## The longest key -/

namespace Bincode

open Sample (Code crcAppend)

/-- A shard that has no encoding is written otherwise, behind a length that no map has. -/
def serialize (s : ShardData) : Bytes := if shardCoder.ok s = true then shardCoder.put s else leBytes 8 u64Max ++ Code.shard.put s

def deserialize (b : Bytes) : Option ShardData :=
  if leNat (b.take 8) = u64Max then (Code.shard.take (b.drop 8)).map (·.1) else (shardCoder.take b).map (·.1)

theorem deserialize_serialize (s : ShardData) : deserialize (serialize s) = some s := by
  unfold deserialize serialize
  by_cases hok : shardCoder.ok s = true
  · have hlen : s.files.entries.length ≤ Coder.maxItems := by
      have hfiles := (Bool.and_eq_true_iff.mp hok).1
      exact of_decide_eq_true (Bool.and_eq_true_iff.mp hfiles).1
    have hhead : (shardCoder.put s).take 8 = leBytes 8 s.files.entries.length := by
      show ((leBytes 8 s.files.entries.length ++ _) ++ _).take 8 = _
      rw [List.append_assoc, List.take_left' (length_leBytes 8 _)]
    have hne : leNat (leBytes 8 s.files.entries.length) ≠ u64Max := by
      unfold Coder.maxItems at hlen
      rw [leNat_leBytes 8 _ (by omega)]
      unfold u64Max
      omega
    have htake := shardCoder.take_put s [] hok
    rw [List.append_nil] at htake
    rw [if_pos hok, hhead, if_neg hne, htake]
    rfl
  · have htake := Code.shard.take_put s []
    rw [List.append_nil] at htake
    rw [if_neg hok, List.take_left' (length_leBytes 8 _), leNat_leBytes 8 _ (by decide), if_pos rfl,
      List.drop_left' (length_leBytes 8 _), htake]
    rfl

theorem serialize_ne_nil (s : ShardData) : serialize s ≠ [] := by
  intro h
  have hlen := congrArg List.length h
  unfold serialize at hlen
  split at hlen
  · have hput : (shardCoder.put s).length = ((mapCoder extentCoder).put s.files).length + ((mapCoder tombstoneCoder).put s.tombstones).length :=
      List.length_append
    have hfiles : ((mapCoder extentCoder).put s.files).length = 8 + _ := Coder.length_list (entryCoder extentCoder) s.files.entries
    rw [hput, hfiles, List.length_nil] at hlen
    omega
  · rw [List.length_append, length_leBytes, List.length_nil] at hlen
    omega

scoped instance crates : Crates := { Sample.crates with
  serializeShard := serialize
  deserializeShard := deserialize
  deserialize_serialize s := ⟨s, deserialize_serialize s, .refl _, .refl _⟩
  serialize_ne_nil := serialize_ne_nil
  length_serialize_empty := rfl }

theorem fixedWidth : FixedWidth := fun _ hok => if_pos hok

end Bincode

section Longest

open Bincode

/-- One object is put, and the key limit is that of the options. -/
theorem a_put_can_be_flushed : ∃ s0 io, (formatWithOptions Sample.options).exec (Sample.options.device (fun _ => 0) []) = (.ok s0, io) ∧
    (((Call.op (.putOpts "k" [1] .overwrite)).run 1).exec (s0.withScript [])).2.KeysShort ∧
      ((((Call.op (.putOpts "k" [1] .overwrite)).run 1).exec (s0.withScript [])).2.HoldsAnyKey ↔ Sample.options.HasRoom) ∧
      (Sample.options.HasRoom → (((Call.op (.putOpts "k" [1] .overwrite)).run 1).exec (s0.withScript [])).2.SinglesFlush) := by
  obtain ⟨s0, io, hformat⟩ := format_returns Sample.options_valid fun _ => 0
  exact ⟨s0, io, hformat, every_key_can_be_flushed fixedWidth hformat
    (RunFrom.start.call [] 1 (.op (.putOpts "k" [1] .overwrite)) trivial)⟩

/-- The smallest index, and the longest keys that can be asked for. -/
def Bincode.wideOptions : FormatOptions := { Sample.options with maxKeyLength := 65536, keyFits := by decide }

theorem Bincode.wideOptions_valid : wideOptions.Valid := ⟨by decide, by decide, by decide, by decide⟩

def Bincode.oneKey (io io' : DeviceIo) (a : ExtentAllocator) (key : Key) : Store :=
  Store.replaceFile (Store.withIo io' { wideOptions.newStore io with allocator := some a }) key
    ((wideOptions.newStore io).byteInfo dataStart 1)

theorem Bincode.oneKey_shard (io io' : DeviceIo) (a : ExtentAllocator) (key : Key) :
    (oneKey io io' a key).shardData (shardForKey key) = .single key ((wideOptions.newStore io).byteInfo dataStart 1) := by
  have hentries : (oneKey io io' a key).files.entries = [⟨key, (wideOptions.newStore io).byteInfo dataStart 1⟩] := rfl
  have hfiles : ((oneKey io io' a key).shardData (shardForKey key)).files.entries =
      [⟨key, (wideOptions.newStore io).byteInfo dataStart 1⟩] := by
    show (oneKey io io' a key).files.entries.filter (fun e => decide (shardForKey e.1 = shardForKey key)) = _
    rw [hentries, List.filter_cons_of_pos (by simp)]
    rfl
  have hsame : ((oneKey io io' a key).shardData (shardForKey key)).files = AList.singleton key _ := AList.ext hfiles
  unfold ShardData.single
  rw [← hsame]
  rfl

/-- The longest key that the limit allows is put. No flush goes through any more: its shard has 65546 bytes, and a slot 65536. -/
theorem a_key_at_the_limit_blocks_the_flush : ¬ ∀ (opts : FormatOptions) (bytes : Nat → UInt8) (script : List Outcome) (s0 s : Store)
    (io : DeviceIo), (formatWithOptions opts).exec (opts.device bytes script) = (.ok s0, io) → RunFrom NoReload KeptLimit s0 s →
      s.KeysShort ∧ s.HoldsAnyKey ∧ s.SinglesFlush := by
  intro h
  obtain ⟨s0, io, hformat⟩ := format_returns Bincode.wideOptions_valid fun _ => 0
  obtain ⟨io0, rfl, hro, hsize⟩ := (formatted hformat).store
  have hlen : keyLen (letters 65438) = 65438 := keyLen_letters 65438
  generalize letters 65438 = key at hlen
  have hlimit : keyLen key ≤ Bincode.wideOptions.effectiveMaxKey := by
    rw [hlen]
    decide
  have hput : Prog.wp (doPut 1 key [1]) (fun _ t => ∃ io' a, t = Bincode.oneKey io0 io' a key) (fun _ _ => False)
      ((Bincode.wideOptions.newStore io0).withScript []) := by
    obtain ⟨a', halloc⟩ : ∃ a', (ExtentAllocator.new dataStart 33554432 blockAlignment).alloc blockAlignment = .ok (dataStart, a') :=
      ⟨_, rfl⟩
    refine Prog.wp_mono (wp_putByte rfl hlimit rfl rfl halloc ⟨rfl, rfl, hro, hsize⟩ (by decide) 1) ?_ (fun _ _ h => h)
    intro _ t ht
    obtain ⟨io', rfl⟩ := ht
    exact ⟨io', a', rfl⟩
  have hstart : RunFrom NoReload KeptLimit (Bincode.wideOptions.newStore io0) (Bincode.wideOptions.newStore io0) := .start
  have hrun := hstart.call [] 1 (.op (.putOpts key [1] .overwrite)) (fun he => by cases he)
  change RunFrom NoReload KeptLimit _ ((doPut 1 key [1]).exec ((Bincode.wideOptions.newStore io0).withScript [])).2 at hrun
  cases hexec : (doPut 1 key [1]).exec ((Bincode.wideOptions.newStore io0).withScript []) with
  | mk r t =>
    rw [hexec] at hrun
    cases r with
    | error e => exact (Prog.wp_error hput hexec).elim
    | ok _ =>
      obtain ⟨io', a, rfl⟩ := Prog.wp_ok hput hexec
      have hshard := Bincode.oneKey_shard io0 io' a key
      have hok : shardCoder.ok (.single key ((Bincode.wideOptions.newStore io0).byteInfo dataStart 1)) = true := by
        refine (single_ok _ _).mpr ⟨?_, rfl⟩
        rw [hlen]
        decide
      have htext : (Rfc3339.text ((Bincode.wideOptions.newStore io0).byteInfo dataStart 1).lastModified).length = 30 := by
        show (Rfc3339.text 1).length = 30
        decide
      have hover : (Bincode.oneKey io0 io' a key).shardSlotSize < ((Bincode.oneKey io0 io' a key).blob (shardForKey key)).length := by
        unfold Store.blob ShardData.toBytes
        rw [hshard, fixedWidth _ hok, length_single, hlen, htext]
        show 16777216 / 256 < 78 + 65438 + 30
        decide
      have hdirty : ∀ j, (Bincode.oneKey io0 io' a key).shardDirty j =
          Function.update (fun _ => false) (shardForKey key) true j := fun _ => rfl
      have hblocked := wp_flushIndex_blocked (s := Bincode.oneKey io0 io' a key) (i := shardForKey key) rfl
        (by rw [hdirty, Function.update_self]) (fun j hj => by rw [hdirty, Function.update_of_ne hj]) hover
      cases hflush : flushIndex.exec (Bincode.oneKey io0 io' a key) with
      | mk r u =>
        cases r with
        | ok _ => exact Prog.wp_ok hblocked hflush
        | error e =>
          exact (h _ _ _ _ _ _ hformat hrun).2.2 _ _ _ hshard hok e u hflush _ _ (Prog.wp_error hblocked hflush)

end Longest

end ObjStr.Raw
