/-
  ObjStr.Raw.PlacedCalls — the calls of a store whose extents are whole blocks, one after the other (`store.rs`).

  Each call reads and writes at block boundaries, inside the regions it targets, and leaves such a store. A flush writes into
  slots and superblocks; a reload takes over entries as they are, and keeps the store so if they are whole blocks. A completed
  upload may write more than the extent it took, if its parts decode to more than the index says: what it writes are sealed
  blocks, to which nothing is padded.
  - `Use.runs`: everything that a client asks of a store, but for reloads.
-/

import ObjStr.Raw.Placed

namespace ObjStr.Raw

open ObjStr.Lib DeviceIo

section PlacedCalls

variable [Crates] {d : Bool} {L : Layout} {b : Option ExtentAllocator} {W : Disk.Event → Prop}

/-! ## Writing objects -/

omit [Crates] in
/-- What a call does before it takes an extent. -/
theorem Runs.first {α β : Type} {p : StoreM α} {f : α → StoreM β} {R : α → Prop} {S : β → Prop}
    (hp : Runs (Here d L b) (Here d L b) W p R) (hf : ∀ a, R a → Runs (Here d L b) (Placed d L) W (f a) S) :
    Runs (Here d L b) (Placed d L) W (p >>= f) S := by
  intro s hs
  rw [Prog.wp_bind]
  refine Prog.wp_mono (hp s hs) (fun a s1 h1 => ?_) (fun _ s1 h1 => ⟨h1.1.placed, h1.2⟩)
  refine Prog.wp_mono (hf a h1.2.2 s1 h1.1) (fun _ _ h => ?_) (fun _ _ h => ?_)
  · exact ⟨h.1, h1.2.1.trans h.2.1, h.2.2⟩
  · exact ⟨h.1, h1.2.1.trans h.2.1, h.2.2⟩

omit [Crates] in
theorem runs_padded {H : Store → Prop} (n : Nat) :
    Runs H H W (ofExcept (paddedExtentSize n)) fun padded => padded = numBlocks n * blockAlignment := by
  refine runs_ofExcept (fun padded h => (paddedExtentSize_ok h).1) fun e he => not_misaligned_of_ne fun reason hp => ?_
  rw [hp] at he
  unfold paddedExtentSize at he
  split at he
  · cases he
  · cases he

omit [Crates] in
theorem legal_blocks (n : Nat) : Legal d (numBlocks n * blockAlignment) := legal_of_aligned (Nat.mul_mod_left _ _)

/-- The entry of a key is replaced by one that was written. -/
theorem runs_replaceFile (key : Key) {info : Store → ExtentInfo} (h : ∀ s, BlockSpan d (info s).span) :
    Runs (Placed d L) (Placed d L) W (modify fun s => s.replaceFile key (info s)) fun _ => True :=
  runs_modify (fun s => (framed_replaceFile s key _).io_eq) fun s hs => hs.replaceFile key (h s)

theorem atBlocks_payload {off : Nat} (hoff : Legal d off) (data : Bytes)
    (hW : ∀ e, Inside (off, numBlocks data.length * blockAlignment) e → W e) :
    AtBlocks d W (writePayload off data) fun _ => True := by
  refine (atBlocks_writePayload hoff data).within fun io => ?_
  exact Prog.wp_mono wp_writePayload (fun _ _ h => h.1.mono hW) (fun _ _ h => h.mono hW)

theorem runs_doPutWithMeta (now : DateTime) (key : Key) (payload : Bytes) (metaLen : UInt16) :
    Runs (Here d L b) (Placed d L) (InRegion L b) (doPutWithMeta now key payload metaLen) fun _ => True := by
  refine runs_get.first fun s _ => ?_
  refine (runs_failIf fun _ he => by cases he).first fun _ _ => ?_
  refine (runs_failIf fun _ he => by cases he).first fun _ _ => ?_
  refine (runs_failIf fun _ he => by cases he).first fun _ _ => ?_
  refine (runs_padded _).first fun padded hpadded => ?_
  subst hpadded
  refine (runs_allocWrite (legal_blocks _) fun off hoff hin => atBlocks_payload hoff _ hin).bind (fun r hr => ?_) fun _ h => h
  exact runs_replaceFile key fun s => ⟨hr.1, legal_blocks _⟩

theorem runs_putOpts (now : DateTime) (key : Key) (payload : Bytes) (mode : PutMode) :
    Runs (Here d L b) (Placed d L) (InRegion L b) (putOpts now key payload mode) fun _ => True := by
  refine runs_get.first fun s _ => ?_
  cases mode with
  | create => exact (runs_failIf fun _ he => by cases he).first fun _ _ => runs_doPutWithMeta now key payload 0
  | overwrite => exact runs_doPutWithMeta now key payload 0
  | update conditional => exact (runs_failIf fun _ he => by cases he).first fun _ _ => runs_doPutWithMeta now key payload 0

theorem runs_putWithMeta (now : DateTime) (key : Key) (body metadata : Bytes) :
    Runs (Here d L b) (Placed d L) (InRegion L b) (putWithMeta now key body metadata) fun _ => True :=
  (runs_failIf fun _ he => by cases he).first fun _ _ => runs_doPutWithMeta now key _ _

theorem runs_putWithMetaFromFile (now : DateTime) (key : Key) (file : SourceFile) (metaLen : UInt16) :
    Runs (Here d L b) (Placed d L) (InRegion L b) (putWithMetaFromFile now key file metaLen) fun _ => True := by
  refine runs_get.first fun s _ => ?_
  split
  · exact (runs_failIf fun _ he => by cases he).first fun _ _ => runs_doPutWithMeta now key _ metaLen
  · refine (runs_failIf fun _ he => by cases he).first fun _ _ => ?_
    refine (runs_failIf fun _ he => by cases he).first fun _ hlen => ?_
    refine (runs_failIf fun _ he => by cases he).first fun _ _ => ?_
    refine (runs_padded _).first fun padded hpadded => ?_
    subst hpadded
    have hfits : numBlocks file.reads.flatten.length ≤ numBlocks file.len := StreamingBlockWriter.numBlocks_mono (file.fits hlen)
    refine (runs_allocWrite (legal_blocks _) (R := fun _ => True) fun off hoff hin => ?_).bind (fun r hr => ?_) fun _ h => h
    · refine (atBlocks_writeSource hoff _ _).within fun io => ?_
      exact Prog.wp_mono (wp_writeSource hfits) (fun _ _ h => h.1.mono hin) (fun _ _ h => h.mono hin)
    · exact runs_replaceFile key fun s => ⟨hr.1, legal_blocks _⟩

/-! ## Reading objects -/

theorem here_doGet (key : Key) : Runs (Here d L b) (Here d L b) W (doGet key) fun r => BlockSpan d r.2.span := by
  refine (here_getFile key).seq fun info hinfo => runs_get.seq fun s _ => ?_
  refine (here_onDevice (atBlocks_nameCorruption (atBlocks_readPayload _ hinfo.start))).seq fun data _ => ?_
  exact runs_pure hinfo

theorem here_doGetRange (key : Key) (start stop : Nat) : Runs (Here d L b) (Here d L b) W (doGetRange key start stop) fun _ => True := by
  refine (here_getFile key).seq fun info hinfo => ?_
  split
  · refine (runs_failIf fun _ he => by cases he).seq fun _ _ => (here_doGet key).seq fun r _ => ?_
    exact runs_pure trivial
  · refine (here_onDevice (atBlocks_nameCorruption (atBlocks_readRange hinfo.start start stop))).seq fun data _ => ?_
    exact runs_pure trivial

theorem here_getRanged (key : Key) (range : GetRange) : Runs (Here d L b) (Here d L b) W (getRanged key range) fun _ => True :=
  (here_getFile key).seq fun _ _ => (here_doGetRange key _ _).seq fun _ _ => runs_pure trivial

theorem here_getMetadata (key : Key) : Runs (Here d L b) (Here d L b) W (getMetadata key) fun _ => True := by
  refine (here_getFile key).seq fun info _ => ?_
  split
  · exact runs_pure trivial
  · exact (here_doGetRange key _ _).seq fun r _ => runs_pure trivial

theorem here_getStream (key : Key) : Runs (Here d L b) (Here d L b) W (getStream key) (GetStream.Placed d) :=
  (here_getFile key).seq fun _ hinfo => runs_get.seq fun _ _ => here_onDevice (atBlocks_openStream _ key hinfo.start)

theorem atBlocks_drain (fuel : Nat) {g : GetStream} (h : g.Placed d) : AtBlocks d W (g.drain fuel) fun _ => True := by
  induction fuel generalizing g with
  | zero => exact atBlocks_throw (not_misaligned_of_ne nofun)
  | succ fuel ih =>
    refine (atBlocks_next h).bind fun r hr => ?_
    cases r with
    | inl g' => exact ih (hr g' rfl)
    | inr body => exact atBlocks_pure trivial

theorem here_getFull (key : Key) : Runs (Here d L b) (Here d L b) W (getFull key) fun _ => True :=
  (here_getStream key).seq fun g hg => here_onDevice (atBlocks_drain g.rounds hg)

theorem here_verifyAll : Runs (Here d L b) (Here d L b) W verifyAll fun _ => True := by
  refine runs_get.seq fun s hs => (here_onDevice (R := fun _ => True) ?_).seq fun found _ => runs_pure trivial
  refine atBlocks_verifyExtents _ fun e he => ?_
  refine (hs.placed.entries e.1 e.2 ?_).start
  rw [← Option.mem_def, AList.mem_lookup_iff]
  exact he

/-! ## Other calls -/

theorem runs_updateMetadata (now : DateTime) (key : Key) (metadata : Bytes) :
    Runs (Here d L b) (Placed d L) (InRegion L b) (updateMetadata now key metadata) fun _ => True := by
  refine (runs_failIf fun _ he => by cases he).first fun _ _ => (here_getFile key).first fun info hinfo => ?_
  split
  · have hbody : Runs (Here d L b) (Here d L b) (InRegion L b) (compressedBody key info) fun _ => True := by
      unfold compressedBody
      split
      · exact runs_pure trivial
      · exact (here_doGet key).seq fun r _ => runs_pure trivial
    exact hbody.first fun _ _ => runs_doPutWithMeta now key _ _
  · refine runs_get.first fun s _ => (runs_failIf fun _ he => by cases he).first fun _ _ => ?_
    refine (runs_failIf fun _ he => by cases he).first fun _ _ => (runs_padded _).first fun padded hpadded => ?_
    subst hpadded
    refine (runs_allocWrite (legal_blocks _) (R := fun _ => True) fun off hoff hin => ?_).bind (fun r hr => ?_) fun _ h => h
    · refine (atBlocks_rewriteBody hinfo.start hoff metadata (Nat.le_refl _)).mono_events hin
    · exact runs_replaceFile key fun s => ⟨hr.1, legal_blocks _⟩

theorem runs_doCopy (now : DateTime) (fromKey toKey : Key) :
    Runs (Here d L b) (Placed d L) (InRegion L b) (doCopy now fromKey toKey) fun _ => True := by
  refine runs_get.first fun s _ => (runs_failIf fun _ he => by cases he).first fun _ _ => ?_
  refine (runs_failIf fun _ he => by cases he).first fun _ _ => (here_getFile fromKey).first fun info hinfo => ?_
  refine (runs_allocExtent info.paddedSize).bind (fun off hoff => ?_) fun _ h => h
  have hcopy := (atBlocks_copyBlocks hinfo.start hoff.1 hinfo.size).mono_events hoff.2
  refine (runs_onError (placed_onDevice hcopy) (fun e s => ?_) fun e s hs => ?_).seq fun _ _ => ?_
  · unfold Store.freeAfterCopy
    split <;> rfl
  · unfold Store.freeAfterCopy
    split
    · exact hs
    · exact hs.freeExtent ⟨hoff.1, hinfo.size⟩
  · refine runs_modify (fun s => ?_) fun s hs => ?_
    · show (s.removeFile toKey).io = s.io
      exact (framed_removeFile s toKey).io_eq
    · exact (hs.removeFile toKey).insertFile toKey ⟨hoff.1, hinfo.size⟩

theorem runs_copyIfNotExists (now : DateTime) (fromKey toKey : Key) :
    Runs (Here d L b) (Placed d L) (InRegion L b) (copyIfNotExists now fromKey toKey) fun _ => True :=
  runs_get.first fun _ _ => (runs_failIf fun _ he => by cases he).first fun _ _ => runs_doCopy now fromKey toKey

omit [Crates] in
theorem placed_getFile (key : Key) : Runs (Placed d L) (Placed d L) W (getFile key) fun info => BlockSpan d info.span :=
  runs_getFile (fun _ hs => hs) key

omit [Crates] in
theorem placed_takeFile (key : Key) : Runs (Placed d L) (Placed d L) W (takeFile key) fun info => BlockSpan d info.span := by
  refine (placed_getFile key).seq fun info hinfo => ?_
  refine Runs.seq (R := fun _ => True) (runs_modify (fun _ => rfl) fun s hs => ?_) fun _ _ => runs_pure hinfo
  refine ⟨hs.direct, hs.layout, fun k info hk => ?_, hs.free⟩
  change (s.files.erase key).lookup k = some info at hk
  by_cases hkey : k = key
  · rw [hkey, AList.lookup_erase] at hk
    cases hk
  · rw [AList.lookup_erase_ne hkey] at hk
    exact hs.entries k info hk

theorem placed_rename (fromKey toKey : Key) : Runs (Placed d L) (Placed d L) W (rename fromKey toKey) fun _ => True := by
  refine runs_get.seq fun s _ => (runs_failIf fun _ he => by cases he).seq fun _ _ => ?_
  refine (runs_failIf fun _ he => by cases he).seq fun _ _ => (placed_takeFile fromKey).seq fun info hinfo => ?_
  refine runs_modify (fun s => (framed_removeFile s toKey).io_eq) fun s hs => ?_
  have hrem := hs.removeFile toKey
  have hmarked : Placed d L ((s.removeFile toKey).markShardDirty fromKey) := ⟨hrem.direct, hrem.layout, hrem.entries, hrem.free⟩
  exact hmarked.insertFile toKey hinfo

theorem placed_renameIfNotExists (fromKey toKey : Key) :
    Runs (Placed d L) (Placed d L) W (renameIfNotExists fromKey toKey) fun _ => True := by
  refine runs_get.seq fun s _ => (runs_failIf fun _ he => by cases he).seq fun _ _ => ?_
  refine (runs_failIf fun _ he => by cases he).seq fun _ _ => (runs_failIf fun _ he => by cases he).seq fun _ _ => ?_
  refine (placed_takeFile fromKey).seq fun info hinfo => runs_modify (fun _ => rfl) fun s hs => ?_
  have hmarked : Placed d L (s.markShardDirty fromKey) := ⟨hs.direct, hs.layout, hs.entries, hs.free⟩
  exact hmarked.insertFile toKey hinfo

theorem placed_delete (key : Key) : Runs (Placed d L) (Placed d L) W (delete key) fun _ => True := by
  refine runs_get.seq fun s _ => (runs_failIf fun _ he => by cases he).seq fun _ _ => ?_
  refine runs_modify (fun s => ?_) fun s hs => ?_
  · split
    · exact (framed_dropFile s key).io_eq
    · rfl
  · split
    · have hdrop := hs.dropFile key
      exact ⟨hdrop.direct, hdrop.layout, hdrop.entries, hdrop.free⟩
    · exact hs

theorem placed_setMetaLen (key : Key) (metaLen : UInt16) : Runs (Placed d L) (Placed d L) W (setMetaLen key metaLen) fun _ => True :=
  (placed_getFile key).seq fun _ hinfo =>
    runs_modify (fun _ => rfl) fun _ hs => hs.insertFile key ⟨hinfo.start, hinfo.size⟩

theorem placed_abort (partKeys : List Key) : Runs (Placed d L) (Placed d L) W (abort partKeys) fun _ => True := by
  refine runs_modify (fun s => (framed_dropParts s partKeys).io_eq) fun s hs => ?_
  have hdrop := hs.dropParts partKeys
  exact ⟨hdrop.direct, hdrop.layout, hdrop.entries, hdrop.free⟩

theorem placed_deleteTombstone (path : Key) : Runs (Placed d L) (Placed d L) W (deleteTombstone path) fun _ => True := by
  refine runs_get.seq fun s _ => (runs_failIf fun _ he => by cases he).seq fun _ _ => ?_
  split
  · exact runs_pure trivial
  · refine Runs.seq (R := fun _ => True) (runs_modify (fun _ => rfl) fun s hs => ?_) fun _ _ => runs_pure trivial
    exact ⟨hs.direct, hs.layout, hs.entries, hs.free⟩

theorem placed_clearTombstones : Runs (Placed d L) (Placed d L) W clearTombstones fun _ => True := by
  refine runs_get.seq fun s _ => (runs_failIf fun _ he => by cases he).seq fun _ _ => ?_
  split
  · exact runs_pure trivial
  · refine Runs.seq (R := fun _ => True) (runs_modify (fun s => ?_) fun s hs => ?_) fun _ _ => runs_pure trivial
    · rw [foldl_markShardDirty]
    · rw [foldl_markShardDirty]
      exact ⟨hs.direct, hs.layout, hs.entries, hs.free⟩

omit [Crates] in
theorem placed_putMultipart (location : Key) : Runs (Placed d L) (Placed d L) W (putMultipart location) fun _ => True :=
  fun _ hs => ⟨⟨hs.direct, hs.layout, hs.entries, hs.free⟩, Wrote.refl, trivial⟩

omit [Crates] in
theorem here_partInfos (partKeys : List Key) :
    Runs (Here d L b) (Here d L b) W (partInfos partKeys) fun parts => ∀ info ∈ parts, BlockSpan d info.span := by
  intro s hs
  unfold Prog.wp partInfos
  cases partKeys.find? fun k => (s.files.lookup k).isNone with
  | some k => exact ⟨hs, Wrote.refl, not_misaligned_of_ne nofun⟩
  | none =>
    refine ⟨hs, Wrote.refl, fun info hinfo => ?_⟩
    obtain ⟨k, -, hk⟩ := List.mem_filterMap.mp hinfo
    exact hs.placed.entries k info hk

/-- A completed upload writes blocks as they are. -/
theorem runs_complete (now : DateTime) (tmp : TempFile) (location : Key) (partKeys : List Key) :
    Runs (Here d L b) (Placed d L) SealedWrite (complete now tmp location partKeys) fun _ => True := by
  refine (runs_failIf fun _ he => by cases he).first fun _ _ => (here_partInfos partKeys).first fun parts hparts => ?_
  have hlegal : ∀ info ∈ parts, Legal d info.offset := fun info hi => (hparts info hi).start
  refine runs_get.first fun s _ => (here_onDevice (atBlocks_planParts _ hlegal)).first fun plan _ => ?_
  refine (runs_padded _).first fun padded hpadded => ?_
  subst hpadded
  refine (runs_allocWrite (legal_blocks _) (R := fun _ => True) fun off hoff _ => ?_).bind (fun r hr => ?_) fun _ h => h
  · split
    · refine (atBlocks_writeSource hoff _ _).within fun io => ?_
      exact Prog.wp_mono (seals_writeSource off _ _ io) (fun _ _ h => h.1) (fun _ _ h => h)
    · refine (atBlocks_writeParts _ hoff hlegal).within fun io => ?_
      exact Prog.wp_mono (seals_writeParts _ off parts io) (fun _ _ h => h.1) (fun _ _ h => h)
  · refine runs_modify (fun s => ?_) fun s hs => ?_
    · exact ((framed_replaceFile s location _).trans (framed_dropParts _ partKeys)).io_eq
    · refine Placed.dropParts (hs.replaceFile location ?_) partKeys
      exact ⟨hr.1, legal_blocks _⟩

omit [Crates] in
theorem here_scrubFreeSpace : Runs (Here d L b) (Here d L b) (InRegion L b) scrubFreeSpace fun _ => True := by
  refine runs_get.seq fun s hs => (runs_failIf fun _ he => by cases he).seq fun _ _ => here_onDevice ?_
  refine AtBlocks.bind (R := fun _ => True) (atBlocks_forM fun e he => ?_) fun _ _ => ?_
  · cases hb : s.allocator with
    | none =>
      rw [hb] at he
      cases he
    | some a =>
      rw [hb] at he
      have hspan := (hs.placed.free a hb).spans e he
      exact (atBlocks_scrubRegion hspan.start hspan.size).mono_events fun ev hev =>
        ⟨e, .free (hs.allocator.symm.trans hb) he, hev⟩
  · exact atBlocks_sync ⟨_, .primary, trivial⟩

/-! ## Flushing -/

omit [Crates] in
theorem InRegion.of_none {e : Disk.Event} (h : InRegion L none e) : InRegion L b e := by
  obtain ⟨r, hr, he⟩ := h
  cases hr with
  | primary => exact ⟨_, .primary, he⟩
  | backup => exact ⟨_, .backup, he⟩
  | slot slot i => exact ⟨_, .slot slot i, he⟩
  | extent hb _ => cases hb
  | free hb _ => cases hb

omit [Crates] in
theorem LegalLayout.slot (h : LegalLayout d L) (slot : UInt8) (i : Fin numShards) : Legal d (L.slotOffset slot i) := by
  intro hd
  have hs : i.val * L.slotSize % blockAlignment = 0 := by rw [Nat.mul_mod, h.slotSize hd, Nat.mul_zero, Nat.zero_mod]
  have ha := h.regionA hd
  have hb := h.regionB hd
  unfold Layout.slotOffset slotOffset blockAlignment at *
  split <;> omega

omit [Crates] in
/-- A shard that fits its slot is written into the slot, padding and all. -/
theorem atBlocks_slot (h : LegalLayout d L) (slot : UInt8) (i : Fin numShards) {blob : Bytes} (hfits : blob.length ≤ L.slotSize) :
    AtBlocks d (InRegion L none) (pwrite (L.slotOffset slot i) blob) fun _ => True := by
  refine atBlocks_pwrite (h.slot slot i) fun io e hd he => ?_
  have hlen : (io.padded blob).length ≤ L.slotSize := by
    rw [length_padded_eq]
    unfold DeviceIo.extent
    split
    · next hdirect => exact alignLen_le hfits (h.slotSize (hd.symm.trans hdirect))
    · exact hfits
  refine ⟨(L.slotOffset slot i, L.slotSize), .slot slot i, Inside.mono ?_ ?_ he⟩
  · exact Nat.le_refl _
  · exact Nat.add_le_add_left hlen _

theorem placed_flushShard (h : LegalLayout d L) (n : Nat) (i : Fin numShards) :
    Runs (Placed d L) (Placed d L) (InRegion L none) (flushShard n i) fun _ => True := by
  refine runs_get.seq fun s hs => ?_
  split
  · exact runs_pure trivial
  · refine Runs.seq (runs_failIf fun _ he => by cases he) fun _ hfits => ?_
    refine Runs.seq (R := fun _ => True) (placed_onDevice ?_) fun _ _ => ?_
    · have hslot : s.slotOffset = L.slotOffset := by rw [← hs.layout]; rfl
      have hsize : s.shardSlotSize = L.slotSize := by rw [← hs.layout]; rfl
      rw [hsize] at hfits
      rw [hslot]
      exact atBlocks_slot h _ i (Nat.le_of_not_lt hfits)
    · refine Runs.seq (R := fun _ => True) (runs_modify (fun _ => rfl) fun s hs => ?_) fun _ _ => runs_pure trivial
      exact ⟨hs.direct, hs.layout, hs.entries, hs.free⟩

theorem atBlocks_superblock (sb : Superblock) {off : Nat} (hoff : off % blockAlignment = 0) (hr : Region L none (off, superblockSize)) :
    AtBlocks d (InRegion L none) (pwrite off sb.bytes) fun _ => True := by
  refine atBlocks_pwrite (legal_of_aligned hoff) fun io e _ he => ⟨_, hr, ?_⟩
  rwa [padded_of_block (Superblock.length_bytes sb), Superblock.length_bytes] at he

theorem atBlocks_writeSuperblocks (sb : Superblock) : AtBlocks d (InRegion L none) (writeSuperblocks sb) fun _ => True := by
  have hsync : AtBlocks d (InRegion L none) sync fun _ => True := atBlocks_sync ⟨_, .primary, trivial⟩
  unfold writeSuperblocks
  rw [toBytes_eq, ← Superblock.bytes]
  refine (atBlocks_ofExcept (R := fun bytes => bytes = sb.bytes) (fun _ h => (Except.ok.inj h).symm) fun _ he => by cases he).bind fun bytes hbytes => ?_
  subst hbytes
  refine (atBlocks_superblock sb rfl .primary).bind fun _ _ => hsync.bind fun _ _ => ?_
  exact (atBlocks_superblock sb (by decide) .backup).bind fun _ _ => hsync

omit [Crates] in
theorem runs_foldlM {α β : Type} {H : Store → Prop} {f : β → α → StoreM β} {l : List α} {x : β}
    (hf : ∀ x a, Runs H H W (f x a) fun _ => True) : Runs H H W (l.foldlM f x) fun _ => True := by
  induction l generalizing x with
  | nil => exact runs_pure trivial
  | cons a l ih =>
    rw [List.foldlM_cons]
    exact (hf x a).seq fun y _ => ih

theorem placed_flushIndex (h : LegalLayout d L) : Runs (Placed d L) (Placed d L) (InRegion L none) flushIndex fun _ => True := by
  refine runs_get.seq fun s _ => (runs_failIf fun _ he => by cases he).seq fun _ _ => ?_
  refine (runs_foldlM fun n i => placed_flushShard h n i).seq fun bytes _ => ?_
  refine (placed_onDevice (atBlocks_sync ⟨_, .primary, trivial⟩)).seq fun _ _ => ?_
  refine Runs.seq (R := fun _ => True) (runs_modify (fun _ => rfl) fun s hs => ?_) fun _ _ => ?_
  · exact ⟨hs.direct, hs.layout, hs.entries, hs.free⟩
  refine runs_get.seq fun s _ => (placed_onDevice (atBlocks_writeSuperblocks _)).seq fun _ _ => ?_
  exact runs_modify (fun _ => rfl) fun s hs => ⟨hs.direct, hs.layout, hs.entries, hs.free⟩

omit [Crates] in
theorem Placed.rebuilt (h : LegalLayout d L) {s : Store} (hs : Placed d L s) :
    BlockAllocator d (.fromFreeList (rebuildFreeList s.files s.dataEnd).2 dataStart s.dataEnd) := by
  have hend : s.dataEnd = L.regionA := by rw [← hs.layout]; rfl
  exact blockAllocator_rebuilt (by rw [hend]; exact h.regionA) hs.entries

theorem placed_repair (h : LegalLayout d L) : Runs (Placed d L) (Placed d L) (InRegion L none) repair fun _ => True := by
  refine runs_get.seq fun s _ => (runs_failIf fun _ he => by cases he).seq fun _ _ => ?_
  refine Runs.seq (R := fun _ => True) (runs_modify (fun _ => rfl) fun s hs => ?_) fun _ _ => placed_flushIndex h
  exact ⟨hs.direct, hs.layout, hs.entries, fun a ha => by rw [← Option.some.inj ha]; exact hs.rebuilt h⟩

/-! ## Reloading -/

/-- A reload of the store would load the entry: a slot of the superblock that it reads holds it. -/
def Store.Loads (s : Store) (info : ExtentInfo) : Prop :=
  ∃ sb io i shard k, primaryOrBackup.exec s.io = (.ok sb, io) ∧
    shardAt s.layout s.io.dev (sb.shardSlots i) i = .ok shard ∧ shard.files.lookup k = some info

/-- While a reload goes on, the device is as it was. -/
structure Reloading (d : Bool) (L : Layout) (dev : Disk) (s : Store) : Prop where
  placed : Placed d L s
  dev_eq : s.io.dev = dev

theorem runs_reloadShard (h : LegalLayout d L) {dev : Disk} {sb : Superblock} (i : Fin numShards)
    (hloads : ∀ shard, shardAt L dev (sb.shardSlots i) i = .ok shard → ∀ k info, shard.files.lookup k = some info → BlockSpan d info.span) :
    Runs (Reloading d L dev) (Reloading d L dev) (fun _ => False) (reloadShard sb i) fun _ => True := by
  refine runs_get.seq fun s hs => ?_
  split
  · exact runs_pure trivial
  refine Runs.seq (R := fun _ => True) (runs_modify (fun _ => rfl) fun s hs => ?_) fun _ _ => ?_
  · refine ⟨⟨hs.placed.direct, hs.placed.layout, fun k info hk => ?_, hs.placed.free⟩, hs.dev_eq⟩
    change (s.files.filterKeys fun k => shardForKey k ≠ i).lookup k = some info at hk
    rw [FMap.lookup_filterKeys] at hk
    split at hk
    · exact hs.placed.entries k info hk
    · cases hk
  have hread : Runs (Reloading d L dev) (Reloading d L dev) (fun _ => False)
      (onDevice (readShard s.indexRegionA s.indexRegionB s.shardSlotSize (sb.shardSlots i) i))
      fun shard => shardAt L dev (sb.shardSlots i) i = .ok shard := by
    have hparts : s.indexRegionA = L.regionA ∧ s.indexRegionB = L.regionB ∧ s.shardSlotSize = L.slotSize := by
      rw [← hs.placed.layout]
      exact ⟨rfl, rfl, rfl⟩
    rw [hparts.1, hparts.2.1, hparts.2.2]
    intro s1 hs1
    rw [wp_onDevice]
    have hblocks := atBlocks_readShard (W := fun _ => False) h.regionA h.regionB h.slotSize (sb.shardSlots i) i s1.io hs1.placed.direct
    refine Prog.wp_mono (Prog.wp_and hblocks (wp_readShard L (sb.shardSlots i) i)) (fun shard io h1 => ?_) (fun e io h1 => ?_)
    · have hquiet : Quiet s1.io io := h1.1.1
      refine ⟨⟨hs1.placed.withIo h1.1.1.direct_eq, hquiet.dev_eq.1.trans hs1.dev_eq⟩, h1.1.1, ?_⟩
      rw [← hs1.dev_eq]
      exact h1.2.1
    · have hquiet : Quiet s1.io io := h1.1.1
      exact ⟨⟨hs1.placed.withIo h1.1.1.direct_eq, hquiet.dev_eq.1.trans hs1.dev_eq⟩, h1.1⟩
  refine hread.seq fun shard hshard => runs_modify (fun _ => rfl) fun s hs => ?_
  refine ⟨⟨hs.placed.direct, hs.placed.layout, fun k info hk => ?_, hs.placed.free⟩, hs.dev_eq⟩
  change (s.files.extend shard.files).lookup k = some info at hk
  rw [FMap.lookup_extend] at hk
  cases hown : shard.files.lookup k with
  | some info' =>
    rw [hown] at hk
    obtain rfl := Option.some.inj hk
    exact hloads shard hshard k _ hown
  | none =>
    rw [hown] at hk
    exact hs.placed.entries k info hk

omit [Crates] in
theorem runs_forM {α : Type} {H : Store → Prop} {f : α → StoreM Unit} {l : List α}
    (hf : ∀ a ∈ l, Runs H H W (f a) fun _ => True) : Runs H H W (l.forM f) fun _ => True := by
  induction l with
  | nil => exact runs_pure trivial
  | cons a l ih => exact (hf a (by simp)).seq fun _ _ => ih fun a' ha' => hf a' (List.mem_cons_of_mem a ha')

/-- A reload that loads whole blocks only. -/
theorem wp_reloadIndex_placed (h : LegalLayout d L) {s : Store} (hs : Placed d L s)
    (hloads : ∀ info, s.Loads info → BlockSpan d info.span) :
    Prog.wp reloadIndex (fun _ s' => Placed d L s' ∧ Wrote (fun _ => False) s.io s'.io)
      (fun e s' => Placed d L s' ∧ Wrote (fun _ => False) s.io s'.io ∧ ¬ e.Misaligned) s := by
  have hsb := atBlocks_primaryOrBackup (W := fun _ => False) s.io hs.direct
  unfold reloadIndex
  rw [Prog.wp_bind, wp_onDevice]
  cases hread : primaryOrBackup.exec s.io with
  | mk r io =>
    cases r with
    | error e =>
      have he := Prog.wp_error hsb hread
      exact (Prog.wp_of_error hread).mpr ⟨hs.withIo he.1.direct_eq, he⟩
    | ok sb =>
      have hio := (Prog.wp_ok hsb hread).1
      have hquiet : Quiet s.io io := hio
      have hstart : Reloading d L s.io.dev (s.withIo io) := ⟨hs.withIo hio.direct_eq, hquiet.dev_eq.1⟩
      rw [Prog.wp_of_ok hread, Prog.wp_bind, Prog.wp_get]
      split
      · exact ⟨hstart.placed, hio⟩
      have hloop : Runs (Reloading d L s.io.dev) (Placed d L) (fun _ => False) (do
          (List.finRange numShards).forM (reloadShard sb)
          modify fun s => { s with
            superblock := sb
            maxKeyLength := if 0 < sb.maxKeyLength then sb.maxKeyLength.toNat else defaultMaxKeyLength
            allocator := if s.readOnly then s.allocator
              else some (.fromFreeList (rebuildFreeList s.files s.dataEnd).2 dataStart s.dataEnd)
            shardDirty := fun _ => false
            dirty := false }
          pure true) fun _ => True := by
        refine Runs.bind (M := Reloading d L s.io.dev) (R := fun _ => True) (runs_forM fun i _ => runs_reloadShard h i ?_) (fun _ _ => ?_)
          fun _ hs => hs.placed
        · intro shard hshard k info hk
          refine hloads info ⟨sb, io, i, shard, k, hread, ?_, hk⟩
          rw [hs.layout]
          exact hshard
        · refine Runs.bind (M := Placed d L) (R := fun _ => True) (runs_modify (fun _ => rfl) fun s1 hs1 => ?_) (fun _ _ => runs_pure trivial)
            fun _ hs => hs
          refine ⟨hs1.placed.direct, hs1.placed.layout, hs1.placed.entries, fun a ha => ?_⟩
          dsimp only at ha
          split at ha
          · exact hs1.placed.free a ha
          · rw [← Option.some.inj ha]
            exact hs1.placed.rebuilt h
      refine Prog.wp_mono (hloop (s.withIo io) hstart) (fun _ s' h1 => ?_) (fun e s' h1 => ?_)
      · exact ⟨h1.1, hio.trans h1.2.1⟩
      · exact ⟨h1.1, hio.trans h1.2.1, h1.2.2⟩

/-! ## Everything a store is asked for -/

inductive Use where
  | call (c : Call)
  | get (key : Key)
  | getRange (key : Key) (range : GetRange)
  | getMetadata (key : Key)
  | verify

def Use.run (now : DateTime) : Use → StoreM Unit
  | .call c => c.run now
  | .get key => do
    let _ ← getFull key
  | .getRange key range => do
    let _ ← getRanged key range
  | .getMetadata key => do
    let _ ← Raw.getMetadata key
  | .verify => do
    let _ ← verifyAll

/-- Where a use may write: into the regions it targets, and for a completed upload sealed blocks, to which nothing is padded. -/
def Use.Writes (L : Layout) (b : Option ExtentAllocator) : Use → Disk.Event → Prop
  | .call (.op (.complete ..)) => SealedWrite
  | _ => InRegion L b

omit [Crates] in
theorem Runs.weaken {α : Type} {H M H' : Store → Prop} {p : StoreM α} {R : α → Prop} (h : Runs M H' W p R) (hH : ∀ s, H s → M s) :
    Runs H H' W p R := fun s hs => h s (hH s hs)

omit [Crates] in
theorem Runs.discard {α : Type} {H H' : Store → Prop} {p : StoreM α} {R : α → Prop} (h : Runs H H' W p R) :
    Runs H H' W (do let _ ← p) fun _ => True := h.bind (fun _ _ => runs_pure trivial) fun _ hs => hs

theorem Op.runs (now : DateTime) (op : Op) :
    Runs (Here d L b) (Placed d L) (Use.Writes L b (.call (.op op))) (op.run now) fun _ => True := by
  have hplaced : ∀ {α : Type} {p : StoreM α} {R : α → Prop}, Runs (Placed d L) (Placed d L) (InRegion L b) p R →
      Runs (Here d L b) (Placed d L) (InRegion L b) p R := fun h => h.weaken fun _ hs => hs.placed
  cases op with
  | putOpts key payload mode => exact runs_putOpts now key payload mode
  | putWithMeta key body metadata => exact runs_putWithMeta now key body metadata
  | putWithMetaFromFile key file metaLen => exact runs_putWithMetaFromFile now key file metaLen
  | copy fromKey toKey => exact runs_doCopy now fromKey toKey
  | copyIfNotExists fromKey toKey => exact runs_copyIfNotExists now fromKey toKey
  | rename fromKey toKey => exact hplaced (placed_rename fromKey toKey)
  | renameIfNotExists fromKey toKey => exact hplaced (placed_renameIfNotExists fromKey toKey)
  | delete key => exact hplaced (placed_delete key)
  | updateMetadata key metadata => exact runs_updateMetadata now key metadata
  | setMetaLen key metaLen => exact hplaced (placed_setMetaLen key metaLen)
  | putMultipart location => exact (hplaced (placed_putMultipart location)).discard
  | putPart partKey payload => exact runs_doPutWithMeta now partKey payload 0
  | complete tmp location partKeys => exact runs_complete now tmp location partKeys
  | abort partKeys => exact hplaced (placed_abort partKeys)
  | deleteTombstone path => exact (hplaced (placed_deleteTombstone path)).discard
  | clearTombstones => exact (hplaced placed_clearTombstones).discard
  | scrubFreeSpace => exact here_scrubFreeSpace.mono (fun _ h => h) fun _ hs => hs.placed

/-- Everything but a reload. -/
theorem Use.runs (h : LegalLayout d L) (now : DateTime) (u : Use) (hu : u ≠ .call .reloadIndex) :
    Runs (Here d L b) (Placed d L) (u.Writes L b) (u.run now) fun _ => True := by
  have hread : ∀ {α : Type} {p : StoreM α} {R : α → Prop}, Runs (Here d L b) (Here d L b) (InRegion L b) p R →
      Runs (Here d L b) (Placed d L) (InRegion L b) (do let _ ← p) fun _ => True := fun hp =>
    hp.discard.mono (fun _ he => he) fun _ hs => hs.placed
  cases u with
  | call c =>
    cases c with
    | op o => exact o.runs now
    | flushIndex => exact ((placed_flushIndex h).mono (fun _ he => he.of_none) fun _ hs => hs).weaken fun _ hs => hs.placed
    | repair => exact ((placed_repair h).mono (fun _ he => he.of_none) fun _ hs => hs).weaken fun _ hs => hs.placed
    | reloadIndex => exact absurd rfl hu
  | get key => exact hread (here_getFull key)
  | getRange key range => exact hread (here_getRanged key range)
  | getMetadata key => exact hread (here_getMetadata key)
  | verify => exact hread here_verifyAll

end PlacedCalls

end ObjStr.Raw
