/-
  ObjStr.Raw.Calls — one lemma per call: what it leaves when it succeeds, and that it is a `Step`
  whether it succeeds or fails.

  `PutDone` is the outcome of every call that writes a payload (put, put from a file, a
  metadata update, a completed upload), `CopyDone` that of a copy.
-/

import ObjStr.Raw.Step

namespace ObjStr.Raw

open ObjStr.Lib DeviceIo

/-! ## Sizes -/

theorem paddedExtentSize_ok {n padded : Nat} (h : paddedExtentSize n = .ok padded) :
    padded = numBlocks n * blockAlignment ∧ padded % blockAlignment = 0 := by
  unfold paddedExtentSize at h
  split at h
  · obtain rfl := Except.ok.inj h
    exact ⟨rfl, Nat.mul_mod_left _ _⟩
  · exact absurd h (by simp)

theorem numBlocks_pos {n : Nat} (h : 0 < n) : 0 < numBlocks n := by
  have := numBlocks_spec n
  rcases Nat.eq_zero_or_pos (numBlocks n) with h0 | h0
  · rw [h0] at this; omega
  · exact h0

theorem wp_padded {s : Store} {n : Nat} {Q : Nat → Store → Prop} {E : RawStoreError → Store → Prop}
    (hok : 0 < n → ∀ padded, padded = numBlocks n * blockAlignment → padded % blockAlignment = 0 → 0 < padded → Q padded s)
    (hpos : 0 < n) (herr : ∀ e, E e s) : Prog.wp (ofExcept (paddedExtentSize n)) Q E s := by
  rw [wp_ofExcept]
  cases h : paddedExtentSize n with
  | error e => exact herr e
  | ok padded =>
    obtain ⟨rfl, h2⟩ := paddedExtentSize_ok h
    exact hok hpos _ rfl h2 (Nat.mul_pos (numBlocks_pos hpos) (by decide))

variable [Crates]

/-- What is written for a payload gives the payload back. -/
theorem compressPayload_spec (c : Compression) {payload : Bytes} (hne : payload ≠ []) :
    (compressPayload c payload).1 ≠ [] ∧
      ((compressPayload c payload).2 = 0 ∧ (compressPayload c payload).1 = payload ∨
        0 < (compressPayload c payload).2 ∧ (compressPayload c payload).2 = payload.length ∧
          c.decompress (compressPayload c payload).1 = .ok payload) := by
  have hplain : (payload, (0 : Nat)).1 ≠ [] ∧ ((payload, (0 : Nat)).2 = 0 ∧ (payload, (0 : Nat)).1 = payload ∨
      0 < (payload, (0 : Nat)).2 ∧ (payload, (0 : Nat)).2 = payload.length ∧
        c.decompress (payload, (0 : Nat)).1 = .ok payload) := ⟨hne, Or.inl ⟨rfl, rfl⟩⟩
  unfold compressPayload
  split
  · next h =>
    cases hc : c.compress payload with
    | none => exact hplain
    | some compressed =>
      dsimp only
      split
      · next hlt =>
        obtain ⟨h1, h2⟩ := Compression.decompress_compress hc hlt
        exact ⟨h2, Or.inr ⟨by dsimp only; omega, rfl, h1⟩⟩
      · exact hplain
  · exact hplain

/-! ## Put -/

structure PutDone (care : Care) (s : Store) (key : Key) (payload : Bytes) (metaLen : UInt16) (parts : List Key) (s' : Store) :
    Prop where
  done : ∃ s1 info, Prep care s [info.span] s1 ∧ s' = (s1.replaceFile key info).dropParts parts ∧ 0 < info.size ∧
    info.metaLen = metaLen ∧ info.paddedSize = numBlocks info.size * blockAlignment ∧
    (care ≠ .index → Stores s.compression s1.io.dev info payload)

theorem PutDone.step {care : Care} {s s' : Store} {key : Key} {payload : Bytes} {metaLen : UInt16} {parts : List Key}
    (h : PutDone care s key payload metaLen parts s') : Step care s s' := by
  obtain ⟨s1, info, hp, rfl, hsize, -, hpad, hst⟩ := h.done
  refine ⟨s1, _, hp, .put key info parts hsize ⟨hpad, fun hn => ⟨payload, ?_⟩⟩⟩
  rw [hp.compression_eq]
  exact hst hn.ne_index

/-- Reads before a call do not matter. -/
theorem PutDone.of_aged {care : Care} {s s' : Store} {io : DeviceIo} {key : Key} {payload : Bytes} {metaLen : UInt16}
    {parts : List Key} (ha : Aged s.io io) (h : PutDone care (s.withIo io) key payload metaLen parts s') :
    PutDone care s key payload metaLen parts s' := by
  obtain ⟨s1, info, hp, h⟩ := h.done
  exact ⟨s1, info, hp.of_aged ha, h⟩

theorem Step.of_aged {care : Care} {s s' : Store} {io : DeviceIo} (ha : Aged s.io io) (h : Step care (s.withIo io) s') :
    Step care s s' := by
  obtain ⟨s1, held, hp, hu⟩ := h
  exact ⟨s1, held, hp.of_aged ha, hu⟩

structure Indexed (care : Care) (s : Store) (key : Key) (s' : Store) : Prop where
  done : ∃ s1 info, Prep care s [info.span] s1 ∧ s' = s1.replaceFile key info ∧ 0 < info.size ∧
    Kept care s1.compression s1.io.dev info

theorem Indexed.step {care : Care} {s s' : Store} {key : Key} (h : Indexed care s key s') : Step care s s' := by
  obtain ⟨s1, info, hp, rfl, hsize, hkept⟩ := h.done
  exact ⟨s1, _, hp, .put key info [] hsize hkept⟩

/-- An extent was written for the payload and indexed under the key. It stores the payload if all of it was there to write;
    a store that does not compress has written it as it is. -/
structure IndexedAs (care : Care) (s : Store) (key : Key) (payload : Bytes) (metaLen : UInt16) (whole : Prop) (s' : Store) : Prop where
  done : ∃ s1 info, Prep care s [info.span] s1 ∧ s' = s1.replaceFile key info ∧ 0 < info.size ∧
    info.metaLen = metaLen ∧ info.paddedSize = numBlocks info.size * blockAlignment ∧
    (s.compression = .none → info.uncompressedSize = 0) ∧
    (care ≠ .index → whole ∨ 0 < info.uncompressedSize → Stores s.compression s1.io.dev info payload)

theorem IndexedAs.putDone {care : Care} {s s' : Store} {key : Key} {payload : Bytes} {metaLen : UInt16} {whole : Prop}
    (h : IndexedAs care s key payload metaLen whole s') (hwhole : whole) : PutDone care s key payload metaLen [] s' := by
  obtain ⟨s1, info, hp, rfl, hsize, hmeta, hpad, -, hst⟩ := h.done
  exact ⟨s1, info, hp, rfl, hsize, hmeta, hpad, fun hc => hst hc (.inl hwhole)⟩

theorem IndexedAs.indexed {care : Care} {s s' : Store} {key : Key} {payload : Bytes} {metaLen : UInt16} {whole : Prop}
    (h : IndexedAs care s key payload metaLen whole s') (hwhole : care = .content → whole) : Indexed care s key s' := by
  obtain ⟨s1, info, hp, rfl, hsize, -, hpad, -, hst⟩ := h.done
  refine ⟨s1, info, hp, rfl, hsize, hpad, fun hn => ⟨payload, ?_⟩⟩
  rw [hp.compression_eq]
  rcases hn with hn | ⟨hn, hpos⟩
  · exact hst (by rw [hn]; decide) (.inl (hwhole hn))
  · exact hst (by rw [hn]; decide) (.inr hpos)

theorem compressPayload_none (payload : Bytes) : (compressPayload .none payload).2 = 0 := by
  unfold compressPayload
  rw [if_neg fun h => h.1 rfl]

theorem wp_doPutWithMeta_as (care : Care) {s : Store} (hs : SpaceInv s []) (now : DateTime) (key : Key) (payload : Bytes)
    (metaLen : UInt16) :
    Prog.wp (doPutWithMeta now key payload metaLen) (fun _ s' => IndexedAs care s key payload metaLen True s')
      (fun _ s' => Prep care s [] s') s := by
  have hsame : Prep care s [] s := Prep.refl hs
  unfold doPutWithMeta
  simp only [Prog.wp_bind, Prog.wp_get, Prog.wp_failIf]
  refine ⟨fun _ => hsame, fun _ => ⟨fun _ => hsame, fun hne => ⟨fun _ => hsame, fun _ => ?_⟩⟩⟩
  obtain ⟨hdata, hcomp⟩ := compressPayload_spec s.compression hne
  have hnone : s.compression = .none → (compressPayload s.compression payload).2 = 0 := by
    intro hc
    rw [hc]
    exact compressPayload_none payload
  generalize compressPayload s.compression payload = w at hdata hcomp hnone ⊢
  obtain ⟨data, unc⟩ := w
  dsimp only at hdata hcomp hnone ⊢
  refine wp_padded ?_ (List.length_pos_iff.mpr hdata) (fun _ => hsame)
  intro hpos padded hpad hal hppos
  refine Prog.wp_mono (wp_allocWrite care (Q := fun off crc io' => Holds io'.dev off data ∧ crc = crc32c data) hs hal
    hppos ?_) ?_ (fun _ _ hp => hp)
  · intro _ off _
    refine Prog.wp_mono wp_writePayload ?_ ?_
    · rintro crc io' ⟨h1, h2, h3⟩
      exact ⟨by rw [hpad]; exact h1, h2, h3⟩
    · intro _ io' h1
      rw [hpad]
      exact h1
  · rintro ⟨off, crc⟩ s1 ⟨hp, hq⟩
    rw [Prog.wp_modify]
    refine ⟨s1,
      { offset := off, size := data.length, paddedSize := padded, crc32c := crc, createdTxn := s1.superblock.txnId,
        lastModified := now, metaLen := metaLen, uncompressedSize := unc },
      hp, rfl, hpos, rfl, hpad, hnone, fun hc _ => ?_⟩
    obtain ⟨h1, h2⟩ := hq hc
    exact ⟨data, rfl, h1, h2.symm, by simpa using hcomp⟩

theorem wp_doPutWithMeta (care : Care) {s : Store} (hs : SpaceInv s []) (now : DateTime) (key : Key) (payload : Bytes)
    (metaLen : UInt16) :
    Prog.wp (doPutWithMeta now key payload metaLen) (fun _ s' => PutDone care s key payload metaLen [] s')
      (fun _ s' => Prep care s [] s') s :=
  Prog.wp_mono (wp_doPutWithMeta_as care hs now key payload metaLen) (fun _ _ h => h.putDone trivial) (fun _ _ h => h)

theorem wp_putOpts {care : Care} {s : Store} (hs : SpaceInv s []) (now : DateTime) (key : Key) (payload : Bytes)
    (mode : PutMode) :
    Prog.wp (putOpts now key payload mode) (fun _ s' => PutDone care s key payload 0 [] s') (fun _ s' => Prep care s [] s') s := by
  have hsame : Prep care s [] s := Prep.refl hs
  have hput := wp_doPutWithMeta care hs now key payload 0
  unfold putOpts doPut
  rw [Prog.wp_bind, Prog.wp_get]
  cases mode with
  | create =>
    rw [Prog.wp_bind, Prog.wp_failIf]
    exact ⟨fun _ => hsame, fun _ => hput⟩
  | overwrite => exact hput
  | update conditional =>
    rw [Prog.wp_bind, Prog.wp_failIf]
    exact ⟨fun _ => hsame, fun _ => hput⟩

theorem wp_putWithMeta_as (care : Care) {s : Store} (hs : SpaceInv s []) (now : DateTime) (key : Key) (body metadata : Bytes) :
    Prog.wp (putWithMeta now key body metadata)
      (fun _ s' => metadata.length ≤ u16Max ∧
        IndexedAs care s key (body ++ metadata) (UInt16.ofNat metadata.length) True s')
      (fun _ s' => Prep care s [] s') s := by
  unfold putWithMeta
  rw [Prog.wp_bind, Prog.wp_failIf]
  refine ⟨fun _ => Prep.refl hs, fun hle => ?_⟩
  exact Prog.wp_mono (wp_doPutWithMeta_as care hs now key _ _) (fun _ _ h => ⟨by omega, h⟩) (fun _ _ h => h)

theorem wp_putWithMeta {care : Care} {s : Store} (hs : SpaceInv s []) (now : DateTime) (key : Key) (body metadata : Bytes) :
    Prog.wp (putWithMeta now key body metadata)
      (fun _ s' => metadata.length ≤ u16Max ∧
        PutDone care s key (body ++ metadata) (UInt16.ofNat metadata.length) [] s')
      (fun _ s' => Prep care s [] s') s :=
  Prog.wp_mono (wp_putWithMeta_as care hs now key body metadata) (fun _ _ h => ⟨h.1, h.2.putDone trivial⟩) (fun _ _ h => h)

def SourceFile.Whole (file : SourceFile) : Prop := file.reads.flatten.length = file.len

theorem wp_putWithMetaFromFile_as (care : Care) {s : Store} (hs : SpaceInv s []) (now : DateTime) (key : Key) (file : SourceFile)
    (metaLen : UInt16) :
    Prog.wp (putWithMetaFromFile now key file metaLen)
      (fun _ s' => (care ≠ .index → file.fails = false) ∧ IndexedAs care s key file.reads.flatten metaLen file.Whole s')
      (fun _ s' => Prep care s [] s') s := by
  have hsame : Prep care s [] s := Prep.refl hs
  unfold putWithMetaFromFile
  rw [Prog.wp_bind, Prog.wp_get]
  split
  · rw [Prog.wp_bind, Prog.wp_failIf]
    refine ⟨fun _ => hsame, fun hf => ?_⟩
    refine Prog.wp_mono (wp_doPutWithMeta_as care hs now key _ _) (fun _ _ h => ⟨fun _ => by simpa using hf, ?_⟩) (fun _ _ h => h)
    obtain ⟨s1, info, hp, rfl, hsize, hmeta, hpad, hnone, hst⟩ := h.done
    exact ⟨s1, info, hp, rfl, hsize, hmeta, hpad, hnone, fun hc _ => hst hc (.inl trivial)⟩
  · simp only [Prog.wp_bind, Prog.wp_failIf]
    refine ⟨fun _ => hsame, fun _ => ⟨fun _ => hsame, fun hne => ⟨fun _ => hsame, fun _ => ?_⟩⟩⟩
    refine wp_padded ?_ (Nat.pos_of_ne_zero hne) (fun _ => hsame)
    intro hpos padded hpad hal hppos
    have hfit : numBlocks file.reads.flatten.length ≤ numBlocks file.len :=
      StreamingBlockWriter.numBlocks_mono (file.fits hne)
    refine Prog.wp_mono (wp_allocWrite care
      (Q := fun off crc io' => Holds io'.dev off file.reads.flatten ∧ crc = crc32c file.reads.flatten ∧ file.fails = false)
      hs hal hppos ?_) ?_ (fun _ _ hp => hp)
    · intro _ off _
      refine Prog.wp_mono (wp_writeSource hfit) ?_ ?_
      · rintro crc io' ⟨h1, h2⟩
        exact ⟨by rw [hpad]; exact h1, h2⟩
      · intro _ io' h1
        rw [hpad]
        exact h1
    · rintro ⟨off, crc⟩ s1 ⟨hp, hq⟩
      rw [Prog.wp_modify]
      refine ⟨fun hc => (hq hc).2.2, s1,
        { offset := off, size := file.len, paddedSize := padded, crc32c := crc, createdTxn := s1.superblock.txnId,
          lastModified := now, metaLen := metaLen, uncompressedSize := 0 },
        hp, rfl, hpos, rfl, hpad, fun _ => rfl, fun hc hwhole => ?_⟩
      obtain ⟨h1, h2, -⟩ := hq hc
      rcases hwhole with hwhole | hpos
      · exact ⟨file.reads.flatten, hwhole, h1, h2.symm, Or.inl ⟨rfl, rfl⟩⟩
      · exact absurd hpos (Nat.lt_irrefl 0)

theorem wp_putWithMetaFromFile {care : Care} {s : Store} (hs : SpaceInv s []) (now : DateTime) (key : Key) (file : SourceFile)
    (metaLen : UInt16) (hwhole : care = .content → file.Whole) :
    Prog.wp (putWithMetaFromFile now key file metaLen) (fun _ s' => Indexed care s key s') (fun _ s' => Prep care s [] s') s :=
  Prog.wp_mono (wp_putWithMetaFromFile_as care hs now key file metaLen) (fun _ _ h => h.2.indexed hwhole) (fun _ _ h => h)

/-! ## Reading -/

omit [Crates] in
theorem wp_getFile {s : Store} {key : Key} {Q : ExtentInfo → Store → Prop} {E : RawStoreError → Store → Prop}
    (hok : ∀ info, s.files.lookup key = some info → Q info s)
    (herr : s.files.lookup key = none → E (.notFound key) s) : Prog.wp (getFile key) Q E s := by
  unfold Prog.wp getFile
  cases h : s.files.lookup key with
  | none => exact herr h
  | some info => exact hok info h

omit [Crates] in
theorem wp_nameCorruption {α : Type} {key : Key} {p : IoM α} {Q : α → DeviceIo → Prop} {W : DeviceIo → Prop} {io : DeviceIo}
    (h : Prog.wp p Q (fun _ io' => W io') io) : Prog.wp (nameCorruption key p) Q (fun _ io' => W io') io := by
  unfold Prog.wp nameCorruption at *
  cases hp : p io with
  | mk r io' =>
    rw [hp] at h
    cases r with
    | ok a => exact h
    | error e => cases e <;> exact h

/-- A locked read changes nothing but the script, and returns what the extent stores. -/
theorem wp_doGet {s : Store} (key : Key) :
    Prog.wp (doGet key)
      (fun r s' => ∃ info, s.files.lookup key = some info ∧ r.2 = info ∧ payloadOf s.compression s.io.dev info = .ok r.1 ∧
        ∃ io', Aged s.io io' ∧ s' = s.withIo io')
      (fun _ s' => ∃ io', Aged s.io io' ∧ s' = s.withIo io') s := by
  unfold doGet
  rw [Prog.wp_bind]
  refine wp_getFile ?_ (fun _ => ⟨s.io, Aged.refl, rfl⟩)
  intro info hk
  rw [Prog.wp_bind, Prog.wp_get, Prog.wp_bind, wp_onDevice]
  refine Prog.wp_mono (wp_nameCorruption (W := fun io' => Aged s.io io') (Prog.wp_mono (wp_readPayload _ _ _) (fun _ _ h => h)
    (fun _ _ h => h.1))) ?_ ?_
  · rintro r io' ⟨ha, hr⟩
    exact ⟨info, hk, rfl, hr, io', ha, rfl⟩
  · intro _ io' ha
    exact ⟨io', ha, rfl⟩

/-! ## Copy, rename, delete -/

/-- Equal blocks store equal payloads. -/
theorem Stores.copied {c : Compression} {d e : Disk} {info : ExtentInfo} {payload : Bytes} {off : Nat} {txn : UInt64}
    {now : DateTime} (h : Stores c d info payload) (hpad : info.paddedSize = numBlocks info.size * blockAlignment)
    (hr : e.read off info.paddedSize = d.read info.offset info.paddedSize) :
    Stores c e { info with offset := off, createdTxn := txn, lastModified := now } payload := by
  obtain ⟨p, hlen, hholds, h⟩ := h
  refine ⟨p, hlen, ?_, h⟩
  unfold Holds at *
  rw [hpad] at hr
  rw [hlen] at hholds ⊢
  rw [hr, hholds]

structure CopyDone (care : Care) (s : Store) (fromKey toKey : Key) (s' : Store) : Prop where
  done : ∃ s1 info off now, s.files.lookup fromKey = some info ∧ Prep care s [(off, info.paddedSize)] s1 ∧
    s' = (s1.removeFile toKey).insertFile toKey
      { info with offset := off, createdTxn := s1.superblock.txnId, lastModified := now } ∧
    s1.io.dev.read off info.paddedSize = s.io.dev.read info.offset info.paddedSize

theorem CopyDone.step {care : Care} {s s' : Store} {fromKey toKey : Key} (h : CopyDone care s fromKey toKey s')
    (hs : SpaceInv s []) (hc : ∀ info, s.files.lookup fromKey = some info → Kept care s.compression s.io.dev info) :
    Step care s s' := by
  obtain ⟨s1, info, off, now, hk, hp, rfl, hr⟩ := h.done
  obtain ⟨hpad, hst⟩ := hc info hk
  refine ⟨s1, _, hp, .copy toKey { info with offset := off, createdTxn := s1.superblock.txnId, lastModified := now }
    (hs.sized info (mem_values hk)) ⟨hpad, fun hn => ?_⟩⟩
  obtain ⟨payload, h⟩ := hst hn
  rw [hp.compression_eq]
  exact ⟨payload, h.copied hpad hr⟩

theorem wp_doCopy {care : Care} {s : Store} (hs : SpaceInv s []) (now : DateTime) (fromKey toKey : Key) :
    Prog.wp (doCopy now fromKey toKey) (fun _ s' => CopyDone care s fromKey toKey s') (fun _ s' => Prep care s [] s') s := by
  have hsame : Prep care s [] s := Prep.refl hs
  unfold doCopy
  rw [Prog.wp_bind, Prog.wp_get, Prog.wp_bind, Prog.wp_failIf]
  refine ⟨fun _ => hsame, fun _ => ?_⟩
  rw [Prog.wp_bind, Prog.wp_failIf]
  refine ⟨fun _ => hsame, fun _ => ?_⟩
  rw [Prog.wp_bind]
  refine wp_getFile ?_ (fun _ => hsame)
  intro info hk
  have hmem : info.span ∈ spans s.files := List.mem_map_of_mem (mem_values hk)
  obtain ⟨-, hal⟩ := hs.extents.aligned info.span hmem
  obtain ⟨-, hend, hpos⟩ := hs.extents.inside info.span hmem
  have hmax : info.offset + info.paddedSize ≤ u64Max := by
    obtain ⟨⟨a, -, hpart⟩, -⟩ := hs
    exact Nat.le_trans hend hpart.max
  rw [Prog.wp_bind]
  refine wp_takeExtent hs hal hpos (fun _ => hsame) ?_
  intro off a ht
  rw [Prog.wp_bind, Prog.wp_onError, wp_onDevice]
  refine Prog.wp_mono (wp_copyBlocks hmax ht.inside hal (ht.apart _ hmem)) ?_ ?_
  · rintro _ io' ⟨hw, hr⟩
    rw [Prog.wp_modify]
    exact ⟨_, info, off, now, hk, ht.prep fun _ => hw, rfl, hr⟩
  · rintro e io' ⟨hw, he⟩
    cases e <;> first | exact ht.prep_free fun _ => hw | exact he.elim

theorem wp_copyIfNotExists {care : Care} {s : Store} (hs : SpaceInv s []) (now : DateTime) (fromKey toKey : Key) :
    Prog.wp (copyIfNotExists now fromKey toKey) (fun _ s' => CopyDone care s fromKey toKey s')
      (fun _ s' => Prep care s [] s') s := by
  unfold copyIfNotExists
  simp only [Prog.wp_bind, Prog.wp_get, Prog.wp_failIf]
  exact ⟨fun _ => Prep.refl hs, fun _ => wp_doCopy hs now fromKey toKey⟩

def Store.moved (s : Store) (fromKey toKey : Key) (info : ExtentInfo) : Store :=
  ((Store.removeFile { s with files := s.files.erase fromKey } toKey).markShardDirty fromKey).insertFile toKey info

theorem wp_rename {s : Store} (fromKey toKey : Key) :
    Prog.wp (rename fromKey toKey)
      (fun _ s' => ∃ info, s.files.lookup fromKey = some info ∧ s' = s.moved fromKey toKey info) (fun _ s' => s' = s) s := by
  unfold rename takeFile
  simp only [Prog.wp_bind, Prog.wp_get, Prog.wp_failIf]
  refine ⟨fun _ => trivial, fun _ => ⟨fun _ => trivial, fun _ => ?_⟩⟩
  refine wp_getFile ?_ (fun _ => rfl)
  intro info hk
  exact ⟨info, hk, rfl⟩

theorem wp_renameIfNotExists {s : Store} (fromKey toKey : Key) :
    Prog.wp (renameIfNotExists fromKey toKey)
      (fun _ s' => ∃ info, s.files.lookup fromKey = some info ∧ s' = s.moved fromKey toKey info) (fun _ s' => s' = s) s := by
  unfold renameIfNotExists takeFile
  simp only [Prog.wp_bind, Prog.wp_get, Prog.wp_failIf]
  refine ⟨fun _ => trivial, fun _ => ⟨fun _ => trivial, fun _ => ⟨fun _ => trivial, fun hto => ?_⟩⟩⟩
  refine wp_getFile ?_ (fun _ => rfl)
  intro info hk
  refine ⟨info, hk, ?_⟩
  have hnone : (s.files.erase fromKey).lookup toKey = none := by
    have hne : toKey ≠ fromKey := by
      rintro rfl
      exact hto (by rw [hk]; rfl)
    rw [AList.lookup_erase_ne hne]
    simpa using hto
  have hrem : Store.removeFile { s with files := s.files.erase fromKey } toKey = { s with files := s.files.erase fromKey } := by
    unfold Store.removeFile
    simp only [hnone]
  unfold Store.moved
  rw [hrem]

theorem step_moved {care : Care} {s : Store} {fromKey toKey : Key} {info : ExtentInfo} (hs : SpaceInv s [])
    (hc : Kept care s.compression s.io.dev info) (hk : s.files.lookup fromKey = some info) :
    Step care s (s.moved fromKey toKey info) := ⟨s, [], Prep.refl hs, .move fromKey toKey info hk hc⟩

theorem wp_delete {s : Store} (key : Key) :
    Prog.wp (delete key)
      (fun _ s' => s' = if (s.files.lookup key).isSome then { s.dropFile key with dirty := true } else s)
      (fun _ s' => s' = s) s := by
  unfold delete
  simp only [Prog.wp_bind, Prog.wp_get, Prog.wp_failIf, Prog.wp_modify]
  exact ⟨fun _ => trivial, fun _ => trivial⟩

theorem step_delete {care : Care} {s : Store} (hs : SpaceInv s []) (key : Key) :
    Step care s (if (s.files.lookup key).isSome then { s.dropFile key with dirty := true } else s) := by
  split
  · exact ⟨s, [], Prep.refl hs, .drop [key]⟩
  · exact Step.refl care hs

/-! ## Metadata -/

theorem Holds.first {d : Disk} {off k : Nat} {p : Bytes} (h : Holds d off p) (hk : k ≤ numBlocks p.length) :
    decodeFirst (d.read off (numBlocks p.length * blockAlignment)) p.length k = .ok (p.take (k * blockDataSize)) := by
  rw [h]
  exact decodeFirst_encodeRange p hk

/-- The body `update_metadata` keeps is the one the object had. -/
theorem wp_compressedBody {s : Store} {key : Key} {info : ExtentInfo} (hk : s.files.lookup key = some info) :
    Prog.wp (compressedBody key info)
      (fun body s' => (∃ io', Aged s.io io' ∧ s' = s.withIo io') ∧
        ∀ old, Stores s.compression s.io.dev info old → body = old.take info.bodySize)
      (fun _ s' => ∃ io', Aged s.io io' ∧ s' = s.withIo io') s := by
  unfold compressedBody
  split
  · next h0 => exact ⟨⟨s.io, Aged.refl, rfl⟩, fun old _ => by rw [h0]; simp⟩
  · rw [Prog.wp_bind]
    refine Prog.wp_mono (wp_doGet key) ?_ (fun _ _ h => h)
    rintro ⟨data, info'⟩ s' ⟨info2, hk2, -, hpay, hio⟩
    rw [hk] at hk2
    obtain rfl := Option.some.inj hk2
    refine ⟨hio, fun old hst => ?_⟩
    rw [hst.payloadOf] at hpay
    rw [Except.ok.inj hpay]

/-- The new payload of `update_metadata`: the body the object had, and the metadata. -/
structure Amended (care : Care) (s : Store) (key : Key) (metadata : Bytes) (s' : Store) : Prop where
  fits : metadata.length ≤ u16Max
  done : ∃ info body, s.files.lookup key = some info ∧
    PutDone care s key (body ++ metadata) (UInt16.ofNat metadata.length) [] s' ∧
    (care ≠ .index → ∀ old, Stores s.compression s.io.dev info old → body = old.take info.bodySize)

theorem wp_updateMetadata {care : Care} {s : Store} (hs : SpaceInv s []) (hc : ContentInv .index s) (now : DateTime) (key : Key)
    (metadata : Bytes) :
    Prog.wp (updateMetadata now key metadata) (fun _ s' => Amended care s key metadata s') (fun _ s' => Prep care s [] s') s := by
  have hsame : Prep care s [] s := Prep.refl hs
  unfold updateMetadata
  rw [Prog.wp_bind, Prog.wp_failIf]
  refine ⟨fun _ => hsame, fun hle => ?_⟩
  rw [Prog.wp_bind]
  refine wp_getFile ?_ (fun _ => hsame)
  intro info hk
  split
  · rw [Prog.wp_bind]
    refine Prog.wp_mono (wp_compressedBody hk) ?_ ?_
    · rintro body s1 ⟨⟨io', ha, rfl⟩, hbody⟩
      refine Prog.wp_mono (wp_doPutWithMeta care (s := s.withIo io') (hs.congr rfl rfl rfl) now key _ _) ?_ ?_
      · intro _ s' hput
        exact ⟨by omega, info, body, hk, hput.of_aged ha, fun _ => hbody⟩
      · intro _ s' hp
        exact hp.of_aged ha
    · rintro _ s1 ⟨io', ha, rfl⟩
      exact prep_device hs fun _ => ha.wrote
  · next hunc =>
    rw [Prog.wp_bind, Prog.wp_get, Prog.wp_bind, Prog.wp_failIf]
    refine ⟨fun _ => hsame, fun _ => ?_⟩
    rw [Prog.wp_bind, Prog.wp_failIf]
    refine ⟨fun _ => hsame, fun hne => ?_⟩
    rw [Prog.wp_bind]
    refine wp_padded ?_ (Nat.pos_of_ne_zero hne) (fun _ => hsame)
    intro hpos padded hpad hal hppos
    rw [Prog.wp_bind]
    have hbs : info.bodySize = info.size - info.metaLen.toNat := by
      unfold ExtentInfo.bodySize ExtentInfo.logicalSize
      rw [if_neg hunc]
    refine Prog.wp_mono (wp_allocWrite care (Q := fun off crc io' => ∃ k c, k ≤ numBlocks info.size ∧
        decodeFirst (s.io.dev.read info.offset (numBlocks info.size * blockAlignment)) info.size k = .ok c ∧
        info.size - info.metaLen.toNat ≤ c.length ∧
        Holds io'.dev off (c.take (info.size - info.metaLen.toNat) ++ metadata) ∧
        crc = crc32c (c.take (info.size - info.metaLen.toNat) ++ metadata)) hs hal hppos ?_) ?_ (fun _ _ hp => hp)
    · intro _ off hap
      have hsp := hap info.span (List.mem_map_of_mem (mem_values hk))
      rw [ExtentInfo.span, (hc key info hk).padded, hpad] at hsp
      rw [hpad]
      exact wp_rewriteBody hsp (Nat.le_refl _)
    · rintro ⟨off, crc⟩ s1 ⟨hp, hq⟩
      rw [Prog.wp_modify]
      by_cases hcare : care = .index
      · refine ⟨by omega, info, [], hk, ⟨s1,
          { offset := off, size := info.size - info.metaLen.toNat + metadata.length, paddedSize := padded, crc32c := crc,
            createdTxn := s1.superblock.txnId, lastModified := now, metaLen := UInt16.ofNat metadata.length,
            uncompressedSize := 0 },
          hp, rfl, hpos, rfl, hpad, fun h => absurd hcare h⟩, fun h => absurd hcare h⟩
      · obtain ⟨k, c, hkn, hd, hlen, hholds, hcrc⟩ := hq hcare
        refine ⟨by omega, info, c.take (info.size - info.metaLen.toNat), hk, ⟨s1,
          { offset := off, size := info.size - info.metaLen.toNat + metadata.length, paddedSize := padded, crc32c := crc,
            createdTxn := s1.superblock.txnId, lastModified := now, metaLen := UInt16.ofNat metadata.length,
            uncompressedSize := 0 },
          hp, rfl, hpos, rfl, hpad, fun _ => ?_⟩, fun _ old hst => ?_⟩
        · refine ⟨_, ?_, hholds, hcrc.symm, Or.inl ⟨rfl, rfl⟩⟩
          rw [List.length_append, List.length_take, Nat.min_eq_left hlen]
        · obtain ⟨p, hplen, hph, -, hpp⟩ := hst
          have hpo : p = old := by
            rcases hpp with ⟨-, h⟩ | ⟨h, -⟩
            · exact h
            · exact absurd h hunc
          subst hpo
          have hd' := hph.first (k := k) (by rw [hplen]; exact hkn)
          rw [hplen, hd] at hd'
          rw [Except.ok.inj hd'] at hlen ⊢
          rw [List.length_take] at hlen
          rw [List.take_take, hbs, Nat.min_eq_left (by omega)]

theorem Amended.step {care : Care} {s s' : Store} {key : Key} {metadata : Bytes} (h : Amended care s key metadata s') :
    Step care s s' := by
  obtain ⟨-, info, body, -, h, -⟩ := h
  exact h.step

theorem wp_setMetaLen {s : Store} (key : Key) (metaLen : UInt16) :
    Prog.wp (setMetaLen key metaLen)
      (fun _ s' => ∃ info, s.files.lookup key = some info ∧ s' = s.insertFile key { info with metaLen := metaLen })
      (fun _ s' => s' = s) s := by
  unfold setMetaLen
  rw [Prog.wp_bind]
  exact wp_getFile (fun info hk => ⟨info, hk, rfl⟩) (fun _ => rfl)

/-! ## Multipart uploads -/

def PartsSound (s : Store) (partKeys : List Key) : Prop :=
  ∀ k ∈ partKeys, ∀ info, s.files.lookup k = some info → ∀ r, payloadOf s.compression s.io.dev info = .ok r →
    r.length = info.logicalSize

theorem partsSound_of_kept {care : Care} {s : Store} {partKeys : List Key} (hcare : care ≠ .index)
    (hc : ∀ k ∈ partKeys, ∀ info, s.files.lookup k = some info → Kept care s.compression s.io.dev info) : PartsSound s partKeys := by
  intro k hmem info hk r hr
  by_cases hu : 0 < info.uncompressedSize
  · have htracks : care.Tracks info := by
      cases care with
      | index => exact absurd rfl hcare
      | slots => exact .inr ⟨rfl, hu⟩
      | content => exact .inl rfl
    obtain ⟨payload, hst⟩ := (hc k hmem info hk).stored htracks
    rw [hst.payloadOf] at hr
    obtain rfl := Except.ok.inj hr
    exact hst.length
  · -- a plain payload has the length that is asked for
    unfold payloadOf at hr
    rw [decodeBlocks_read] at hr
    cases hd : decodeFirst (s.io.dev.read info.offset (numBlocks info.size * blockAlignment)) info.size (numBlocks info.size) with
    | error e =>
      rw [hd] at hr
      cases hr
    | ok content =>
      rw [hd] at hr
      change (if 0 < info.uncompressedSize then _ else Except.ok content) = Except.ok r at hr
      rw [if_neg hu] at hr
      obtain rfl := Except.ok.inj hr
      rw [length_decodeFirst _ _ (Nat.le_refl _) hd, ExtentInfo.logicalSize, if_neg hu]
      exact Nat.min_eq_right (numBlocks_spec info.size)

def PartsIndexed (s : Store) (partKeys : List Key) (parts : List ExtentInfo) : Prop :=
  List.Forall₂ (fun k info => s.files.lookup k = some info) partKeys parts

omit [Crates] in
theorem PartsIndexed.mem {s : Store} {partKeys : List Key} {parts : List ExtentInfo} (h : PartsIndexed s partKeys parts) :
    ∀ info ∈ parts, ∃ k ∈ partKeys, s.files.lookup k = some info := by
  induction h with
  | nil => simp
  | cons hk _ ih =>
    intro info hi
    rcases List.mem_cons.mp hi with rfl | hi
    · exact ⟨_, by simp, hk⟩
    · obtain ⟨k, h1, h2⟩ := ih info hi
      exact ⟨k, by simp [h1], h2⟩

omit [Crates] in
theorem wp_partInfos {s : Store} (partKeys : List Key) :
    Prog.wp (partInfos partKeys) (fun parts s' => s' = s ∧ PartsIndexed s partKeys parts) (fun _ s' => s' = s) s := by
  have key : ∀ ks : List Key, (∀ k ∈ ks, (s.files.lookup k).isSome) → PartsIndexed s ks (ks.filterMap s.files.lookup) := by
    intro ks
    induction ks with
    | nil => intro _; exact List.Forall₂.nil
    | cons k ks ih =>
      intro h
      obtain ⟨info, hk⟩ := Option.isSome_iff_exists.mp (h k (by simp))
      rw [List.filterMap_cons_some (f := fun a => s.files.lookup a) hk]
      exact List.Forall₂.cons hk (ih fun k' hk' => h k' (by simp [hk']))
  unfold Prog.wp partInfos
  cases hf : partKeys.find? fun k => (s.files.lookup k).isNone with
  | some k => exact rfl
  | none =>
    refine ⟨rfl, key partKeys fun k hk => ?_⟩
    have := List.find?_eq_none.mp hf k hk
    cases hl : s.files.lookup k with
    | none => simp [hl] at this
    | some info => rfl

omit [Crates] in
theorem logicalSize_pos {info : ExtentInfo} (h : 0 < info.size) : 0 < info.logicalSize := by
  unfold ExtentInfo.logicalSize
  split <;> assumption

/-- A completed upload stores the parts one after the other. -/
structure Completed (care : Care) (s : Store) (location : Key) (partKeys : List Key) (s' : Store) : Prop where
  done : ∃ parts payload, PartsIndexed s partKeys parts ∧ PutDone care s location payload 0 partKeys s' ∧
    (care ≠ .index → ∃ contents, PartsRead s.compression s.io.dev parts contents ∧ payload = contents.flatten)

/-- What an upload writes for its plan. -/
theorem wp_writePlan {off : Nat} {io0 : DeviceIo} {c : Compression} {tmp : TempFile} {parts : List ExtentInfo}
    {plan : Nat × Nat × Option Bytes} (hplan : Planned c io0.dev parts plan)
    (hap : ∀ info ∈ parts, Span.Apart (extentSpan off (numBlocks plan.1)) info.blocks)
    (hlen : ∀ info ∈ parts, ∀ r, payloadOf c io0.dev info = .ok r → r.length = info.logicalSize) :
    Prog.wp (match plan.2.2 with | some data => writeTemp tmp off data | none => writeParts c off parts)
      (fun crc io' => Wrote (Inside (extentSpan off (numBlocks plan.1))) io0 io' ∧ ∃ contents p,
        PartsRead c io0.dev parts contents ∧ p.length = plan.1 ∧ Holds io'.dev off p ∧ crc32c p = crc ∧
        (plan.2.1 = 0 ∧ p = contents.flatten ∨
          0 < plan.2.1 ∧ plan.2.1 = contents.flatten.length ∧ c.decompress p = .ok contents.flatten))
      (fun _ io' => Wrote (Inside (extentSpan off (numBlocks plan.1))) io0 io') io0 := by
  rcases hplan with rfl | ⟨contents, data, hcs, henc, hne, hlt, rfl⟩
  · refine Prog.wp_mono (wp_writeParts hap (partsWithin_of_sizes hlen)) ?_ (fun _ _ he => he)
    rintro crc io' ⟨hw, contents, hcs, hholds, hcrc⟩
    exact ⟨hw, contents, contents.flatten, hcs, hcs.length hlen, hholds, hcrc.symm, Or.inl ⟨rfl, rfl⟩⟩
  · refine Prog.wp_mono wp_writeTemp ?_ (fun _ _ he => he)
    rintro crc io' ⟨hw, hholds, hcrc⟩
    have hdec : c.decompress data = .ok contents.flatten := by
      have := Crates.decode_encodeStream c contents data henc
      unfold Compression.decompress
      cases c <;> simp_all
    exact ⟨hw, contents, data, hcs, rfl, hholds, hcrc.symm,
      Or.inr ⟨by simp only; omega, (hcs.length hlen).symm, hdec⟩⟩

theorem Planned.size_pos {c : Compression} {d : Disk} {parts : List ExtentInfo} {plan : Nat × Nat × Option Bytes}
    (h : Planned c d parts plan) (hne : parts ≠ []) (hsz : ∀ info ∈ parts, 0 < info.size) : 0 < plan.1 := by
  rcases h with rfl | ⟨contents, data, -, henc, -, -, rfl⟩
  · cases parts with
    | nil => exact absurd rfl hne
    | cons info rest =>
      have := logicalSize_pos (hsz info (by simp))
      simp only [List.map_cons, List.sum_cons]
      omega
  · exact List.length_pos_iff.mpr (Crates.encodeStream_ne_nil _ _ _ henc)

/-- What a completion does, given what is said of the write of its plan. -/
theorem wp_complete_of_write {care : Care} {s : Store} (hs : SpaceInv s []) (hc : ContentInv .index s) (now : DateTime)
    (tmp : TempFile) (location : Key) (partKeys : List Key)
    {Q : List ExtentInfo → Nat × Nat × Option Bytes → Nat → UInt32 → DeviceIo → Prop}
    (hwrite : care ≠ .index → ∀ parts plan off io1, PartsIndexed s partKeys parts → io1.dev = s.io.dev →
      Planned s.compression s.io.dev parts plan → (plan.2.2 = none → ¬ Shortened s.compression s.io.dev parts) →
      (∀ info ∈ parts, Span.Apart (extentSpan off (numBlocks plan.1)) info.blocks) →
      Prog.wp (match plan.2.2 with | some data => writeTemp tmp off data | none => writeParts s.compression off parts)
        (fun crc io' => Wrote (Inside (extentSpan off (numBlocks plan.1))) io1 io' ∧ Q parts plan off crc io')
        (fun _ io' => Wrote (Inside (extentSpan off (numBlocks plan.1))) io1 io') io1) :
    Prog.wp (complete now tmp location partKeys)
      (fun _ s' => ∃ parts plan off crc s1, PartsIndexed s partKeys parts ∧ 0 < plan.1 ∧
        Prep care s [(off, numBlocks plan.1 * blockAlignment)] s1 ∧ (care ≠ .index → Q parts plan off crc s1.io) ∧
        s' = (s1.replaceFile location
          { offset := off, size := plan.1, paddedSize := numBlocks plan.1 * blockAlignment, crc32c := crc,
            createdTxn := s1.superblock.txnId, lastModified := now, metaLen := 0,
            uncompressedSize := plan.2.1 }).dropParts partKeys)
      (fun _ s' => Prep care s [] s') s := by
  have hsame : Prep care s [] s := Prep.refl hs
  unfold complete
  rw [Prog.wp_bind, Prog.wp_failIf]
  refine ⟨fun _ => hsame, fun hne => ?_⟩
  rw [Prog.wp_bind]
  refine Prog.wp_mono (wp_partInfos partKeys) ?_ (fun _ s' h => by rw [h]; exact hsame)
  rintro parts s0 ⟨hs0, hparts⟩
  subst hs0
  have hpne : parts ≠ [] := by
    rintro rfl
    cases hparts
    exact hne rfl
  rw [Prog.wp_bind, Prog.wp_get, Prog.wp_bind, wp_onDevice]
  refine Prog.wp_mono wp_planParts ?_ (fun _ io' ha => prep_device hs fun _ => ha.wrote)
  rintro plan io1 ⟨ha, hplan, hplain⟩
  have hpos : 0 < plan.1 := hplan.size_pos hpne fun info hi => by
    obtain ⟨k, -, hk⟩ := hparts.mem info hi
    exact hs.sized info (mem_values hk)
  rw [Prog.wp_bind]
  refine wp_padded ?_ hpos (fun _ => prep_device hs fun _ => ha.wrote)
  rintro _ padded rfl hal hppos
  have hs1 : SpaceInv (s0.withIo io1) [] := hs.congr rfl rfl rfl
  rw [Prog.wp_bind]
  refine Prog.wp_mono (wp_allocWrite care (s := s0.withIo io1) (Q := Q parts plan) hs1 hal hppos ?_) ?_
    (fun _ _ hp => hp.of_aged ha)
  · intro hcare off hap
    refine hwrite hcare parts plan off io1 hparts ha.dev_eq hplan hplain fun info hi => ?_
    obtain ⟨k, -, hk⟩ := hparts.mem info hi
    have := hap info.span (List.mem_map_of_mem (mem_values hk))
    rw [ExtentInfo.span, (hc k info hk).padded] at this
    exact this
  · rintro ⟨off, crc⟩ s1 ⟨hp, hq⟩
    rw [Prog.wp_modify]
    exact ⟨parts, plan, off, crc, s1, hparts, hpos, hp.of_aged ha, hq, rfl⟩

theorem wp_complete {care : Care} {s : Store} (hs : SpaceInv s []) (hc : ContentInv .index s) (now : DateTime) (tmp : TempFile)
    (location : Key) (partKeys : List Key) (hsound : care ≠ .index → PartsSound s partKeys) :
    Prog.wp (complete now tmp location partKeys) (fun _ s' => Completed care s location partKeys s')
      (fun _ s' => Prep care s [] s') s := by
  refine Prog.wp_mono (wp_complete_of_write hs hc now tmp location partKeys (Q := fun parts plan off crc io' => ∃ contents p,
      PartsRead s.compression s.io.dev parts contents ∧ p.length = plan.1 ∧ Holds io'.dev off p ∧ crc32c p = crc ∧
      (plan.2.1 = 0 ∧ p = contents.flatten ∨
        0 < plan.2.1 ∧ plan.2.1 = contents.flatten.length ∧ s.compression.decompress p = .ok contents.flatten)) ?_) ?_
    fun _ _ hp => hp
  · intro hcare parts plan off io1 hparts hdev hplan _ hblocks
    rw [← hdev] at hplan ⊢
    refine wp_writePlan hplan hblocks fun info hi r hr => ?_
    obtain ⟨k, hkm, hk⟩ := hparts.mem info hi
    rw [hdev] at hr
    exact hsound hcare k hkm info hk r hr
  · rintro _ s' ⟨parts, plan, off, crc, s1, hparts, hpos, hp, hq, rfl⟩
    by_cases hcare : care = .index
    · refine ⟨parts, [], hparts, ⟨s1, _, ?_, rfl, hpos, rfl, rfl, fun h => absurd hcare h⟩, fun h => absurd hcare h⟩
      exact hp
    · obtain ⟨contents, p, hcs, hplen, hholds, hcrc, hcomp⟩ := hq hcare
      refine ⟨parts, contents.flatten, hparts, ⟨s1, _, ?_, rfl, hpos, rfl, rfl, fun _ => ⟨p, hplen, hholds, hcrc, hcomp⟩⟩,
        fun _ => ⟨contents, hcs, rfl⟩⟩
      exact hp

/-- What is read of the parts takes no more blocks than their sizes do, or they are joined in the temporary file. -/
def Store.PartsFit (s : Store) (partKeys : List Key) : Prop :=
  ∀ parts, PartsIndexed s partKeys parts → Shortened s.compression s.io.dev parts ∨
    PartsWithin s.compression s.io.dev parts (numBlocks (parts.map ExtentInfo.logicalSize).sum)

theorem PartsSound.fit {s : Store} {partKeys : List Key} (h : PartsSound s partKeys) : s.PartsFit partKeys := by
  intro parts hparts
  refine .inr (partsWithin_of_sizes fun info hi r hr => ?_)
  obtain ⟨k, hmem, hk⟩ := hparts.mem info hi
  exact h k hmem info hk r hr

/-- The write of a plan stays inside the extent that is taken for it. -/
theorem wp_writePlan_inside {off : Nat} {io0 : DeviceIo} {c : Compression} {tmp : TempFile} {parts : List ExtentInfo}
    {plan : Nat × Nat × Option Bytes} (hplan : Planned c io0.dev parts plan)
    (hap : ∀ info ∈ parts, Span.Apart (extentSpan off (numBlocks plan.1)) info.blocks)
    (hfit : plan.2.2 = none → PartsWithin c io0.dev parts (numBlocks (parts.map ExtentInfo.logicalSize).sum)) :
    Prog.wp (match plan.2.2 with | some data => writeTemp tmp off data | none => writeParts c off parts)
      (fun _ io' => Wrote (Inside (extentSpan off (numBlocks plan.1))) io0 io')
      (fun _ io' => Wrote (Inside (extentSpan off (numBlocks plan.1))) io0 io') io0 := by
  rcases hplan with rfl | ⟨contents, data, -, -, -, -, rfl⟩
  · exact Prog.wp_mono (wp_writeParts hap (hfit rfl)) (fun _ _ h => h.1) (fun _ _ he => he)
  · exact Prog.wp_mono wp_writeTemp (fun _ _ h => h.1) (fun _ _ he => he)

/-- A complete that fails has given back the extent it took, and written into nothing else. -/
theorem wp_complete_failed {care : Care} {s : Store} (hs : SpaceInv s []) (hc : ContentInv .index s) (now : DateTime)
    (tmp : TempFile) (location : Key) (partKeys : List Key) (hfit : care ≠ .index → s.PartsFit partKeys) :
    Prog.wp (complete now tmp location partKeys) (fun _ _ => True) (fun _ s' => Prep care s [] s') s := by
  refine Prog.wp_mono (wp_complete_of_write hs hc now tmp location partKeys (Q := fun _ _ _ _ _ => True) ?_) (fun _ _ _ => trivial)
    fun _ _ hp => hp
  intro hcare parts plan off io1 hparts hdev hplan hplain hblocks
  have hwithin : plan.2.2 = none →
      PartsWithin s.compression s.io.dev parts (numBlocks (parts.map ExtentInfo.logicalSize).sum) := fun hnone =>
    (hfit hcare parts hparts).resolve_left (hplain hnone)
  rw [← hdev] at hplan hwithin
  exact Prog.wp_mono (wp_writePlan_inside hplan hblocks hwithin) (fun _ _ h => ⟨h, trivial⟩) (fun _ _ h => h)

theorem Completed.step {care : Care} {s s' : Store} {location : Key} {partKeys : List Key}
    (h : Completed care s location partKeys s') : Step care s s' := by
  obtain ⟨parts, payload, -, h, -⟩ := h.done
  exact h.step

theorem step_drop {care : Care} {s : Store} (hs : SpaceInv s []) (keys : List Key) :
    Step care s { s.dropParts keys with dirty := true } := ⟨s, [], Prep.refl hs, .drop keys⟩

theorem wp_abort {s : Store} (partKeys : List Key) :
    Prog.wp (abort partKeys) (fun _ s' => s' = { s.dropParts partKeys with dirty := true }) (fun _ _ => False) s := rfl

theorem step_putMultipart {care : Care} {s : Store} (hs : SpaceInv s []) (location : Key) :
    Step care s ((putMultipart location).exec s).2 := ⟨s, [], Prep.refl hs, .upload⟩

/-! ## Tombstones, scrub -/

theorem wp_deleteTombstone {care : Care} {s : Store} (hs : SpaceInv s []) (path : Key) :
    Prog.wp (deleteTombstone path) (fun _ s' => Step care s s') (fun _ s' => Step care s s') s := by
  unfold deleteTombstone
  rw [Prog.wp_bind, Prog.wp_get, Prog.wp_bind, Prog.wp_failIf]
  refine ⟨fun _ => Step.refl care hs, fun _ => ?_⟩
  split
  · exact Step.refl care hs
  · exact ⟨s, [], Prep.refl hs, .forget path⟩

theorem wp_clearTombstones {care : Care} {s : Store} (hs : SpaceInv s []) :
    Prog.wp clearTombstones (fun _ s' => Step care s s') (fun _ s' => Step care s s') s := by
  unfold clearTombstones
  rw [Prog.wp_bind, Prog.wp_get, Prog.wp_bind, Prog.wp_failIf]
  refine ⟨fun _ => Step.refl care hs, fun _ => ?_⟩
  split
  · exact Step.refl care hs
  · exact ⟨s, [], Prep.refl hs, .forgetAll⟩

omit [Crates] in
/-- A free entry ends where an extent begins, or with the data area. -/
theorem Partition.free_aligned {a : ExtentAllocator} {used : List Span} {dataEnd : Nat} (h : Partition a used dataEnd)
    (hend : dataEnd % blockAlignment = 0) {e : Span} (he : e ∈ a.freeList) : e.2 % blockAlignment = 0 := by
  have hpos := h.tidy.canon.pos e he
  have hal := h.tidy.aligned e he
  have hin := h.tidy.inside e he
  have hlast : Covers a.freeList (e.1 + e.2 - 1) := ⟨e, he, by unfold Span.Has; omega⟩
  have hstop : (e.1 + e.2) % blockAlignment = 0 := by
    by_cases hd : e.1 + e.2 = dataEnd
    · rw [hd]; exact hend
    · have hnot : ¬ Covers a.freeList (e.1 + e.2) := by
        obtain ⟨pre, post, hl⟩ := List.append_of_mem he
        have hc := h.tidy.canon
        rw [hl] at hc ⊢
        obtain ⟨hpre, hmid, hbetween⟩ := canon_append.mp hc
        rw [covers_append]
        rintro (⟨f, hf, hx⟩ | hx)
        · have := hbetween f hf e (by simp)
          unfold Span.Has at hx
          omega
        · exact hmid.not_covers_end hx
      have hused : Covers used (e.1 + e.2) := by
        by_contra hu
        exact hnot ((h.covers _).mpr ⟨by omega, by omega, hu⟩)
      obtain ⟨f, hf, hx⟩ := hused
      have hnu := ((h.covers _).mp hlast).2.2
      have hstart : f.1 = e.1 + e.2 := by
        by_contra hne
        refine hnu ⟨f, hf, ?_⟩
        unfold Span.Has at *
        omega
      rw [← hstart]
      exact (h.ok.aligned f hf).1
  unfold blockAlignment at *
  omega

omit [Crates] in
theorem wp_scrubFreeSpace {care : Care} {s : Store} (hs : SpaceInv s [])
    (hdir : care ≠ .index → s.io.direct = true → s.dataEnd % blockAlignment = 0) :
    Prog.wp scrubFreeSpace (fun _ s' => Prep care s [] s') (fun _ s' => Prep care s [] s') s := by
  obtain ⟨⟨a, ha, hpart⟩, hsz⟩ := id hs
  unfold scrubFreeSpace
  rw [Prog.wp_bind, Prog.wp_get, Prog.wp_bind, Prog.wp_failIf]
  refine ⟨fun _ => Prep.refl hs, fun _ => ?_⟩
  rw [wp_onDevice]
  by_cases hcare : care = .index
  · exact Prog.wp_mono (wp_any _ _) (fun _ _ _ => prep_device hs fun h => absurd hcare h)
      (fun _ _ _ => prep_device hs fun h => absurd hcare h)
  rw [ha]
  have hloop : Prog.wp (a.freeList.forM scrubRegion) (fun _ io' => Wrote (FreeIn s) s.io io')
      (fun _ io' => Wrote (FreeIn s) s.io io') s.io := by
    have := Prog.wp_forM (f := scrubRegion) (E := fun _ io' => Wrote (FreeIn s) s.io io')
      (fun l io' => (∀ e ∈ l, e ∈ a.freeList) ∧ Wrote (FreeIn s) s.io io') a.freeList ⟨fun _ h => h, Wrote.refl⟩ ?_
    · exact Prog.wp_mono this (fun _ _ h => h.2) (fun _ _ h => h)
    · rintro e l io1 ⟨hmem, hw⟩
      have he := hmem e (by simp)
      have hin : ∀ ev, Inside e ev → FreeIn s ev := fun ev hev x hx => ⟨a, ha, e, he, Inside.reaches hev hx⟩
      refine Prog.wp_mono (wp_scrubRegion fun hd => ?_) ?_ ?_
      · rw [hw.direct_eq] at hd
        exact hpart.free_aligned (hdir hcare hd) he
      · intro _ io2 h2
        exact ⟨fun f hf => hmem f (by simp [hf]), hw.trans (h2.mono hin)⟩
      · intro _ io2 h2
        exact hw.trans (h2.mono hin)
  rw [Option.map_some, Option.getD_some, Prog.wp_bind]
  refine Prog.wp_mono hloop ?_ (fun _ _ hw => prep_device hs fun _ => hw)
  intro _ io1 hw
  refine Prog.wp_mono wp_sync ?_ ?_
  · rintro _ io2 ⟨-, io3, h3, rfl⟩
    exact prep_device hs fun _ => hw.trans (h3.wrote_push fun x hx => hx.elim)
  · rintro _ io2 ⟨h3, -⟩
    exact prep_device hs fun _ => hw.trans h3.wrote

end ObjStr.Raw
