/-
  ObjStr.Raw.Invariants — what every step of a call keeps.

  Each fact is proved for `Prep` and for the constructors of `Update`, and so holds of every
  call: extents and free list share the data area out (`Step.space`), entries keep what they
  store (`Step.content`), device geometry and superblock are untouched (`Framed`), a shard
  whose entries changed is marked dirty (`Marked`), and everything written lies in space that
  was free before the call (`Step.wrote`).
-/

import ObjStr.Raw.Calls

namespace ObjStr.Raw

open ObjStr.Lib DeviceIo

variable {s s' s'' : Store} {care : Care}

/-! ## The frame -/

/-- Everything but the index, the allocator, the dirty flags and the upload counter is as it was. -/
def Framed (s s' : Store) : Prop :=
  s' = { s with files := s'.files, tombstones := s'.tombstones, allocator := s'.allocator, dirty := s'.dirty,
                shardDirty := s'.shardDirty, nextUploadId := s'.nextUploadId }

theorem Framed.trans (h : Framed s s') (h' : Framed s' s'') : Framed s s'' := by
  unfold Framed at *
  cases s; cases s'; cases s''
  simp_all

theorem Framed.io_eq (h : Framed s s') : s'.io = s.io := by rw [h]

theorem framed_removeFile (s : Store) (k : Key) : Framed s (s.removeFile k) := by
  unfold Store.removeFile
  split <;> rfl

variable [Crates]

theorem framed_dropFile (s : Store) (k : Key) : Framed s (s.dropFile k) := by
  unfold Store.dropFile
  split
  · exact (framed_removeFile s k).trans rfl
  · rfl

theorem framed_dropParts (s : Store) (ks : List Key) : Framed s (s.dropParts ks) := by
  unfold Store.dropParts
  induction ks generalizing s with
  | nil => rfl
  | cons k ks ih => exact (framed_dropFile s k).trans (ih _)

theorem framed_replaceFile (s : Store) (k : Key) (info : ExtentInfo) : Framed s (s.replaceFile k info) :=
  (framed_removeFile s k).trans rfl

theorem foldl_markShardDirty (l : List (Sigma fun _ : Key => TombstoneInfo)) (s : Store) :
    l.foldl (fun s e => s.markShardDirty e.1) s =
      { s with shardDirty := fun i => s.shardDirty i || l.any fun e => shardForKey e.1 = i } := by
  induction l generalizing s with
  | nil => simp
  | cons e l ih =>
    rw [List.foldl_cons, ih]
    simp only [Store.markShardDirty, List.any_cons, Store.mk.injEq, true_and, and_true]
    funext i
    by_cases h : shardForKey e.1 = i
    · subst h; simp
    · simp [h, Ne.symm h]

theorem Update.framed {held : List Span} (h : Update care s held s') : Framed s s' := by
  cases h with
  | keep => rfl
  | put k info parts => exact (framed_replaceFile s k info).trans (framed_dropParts _ parts)
  | copy k info => exact (framed_removeFile s k).trans rfl
  | move fromKey toKey info =>
    have h1 : Framed s { s with files := s.files.erase fromKey } := rfl
    exact h1.trans ((framed_removeFile _ toKey).trans rfl)
  | drop keys => exact (framed_dropParts s keys).trans rfl
  | amend => rfl
  | forget => rfl
  | forgetAll =>
    rw [foldl_markShardDirty]
    rfl
  | upload => rfl

theorem Update.io_eq {held : List Span} (h : Update care s held s') : s'.io = s.io := by
  rw [h.framed]

/-- What a call writes lies in space that was free when it began. -/
theorem Step.wrote (h : Step care s s') (hcare : care ≠ .index) : Wrote (FreeIn s) s.io s'.io := by
  obtain ⟨s1, held, hp, hu⟩ := h
  rw [hu.io_eq]
  exact hp.wrote hcare

/-- A call leaves all but the index, the allocator, the device and the flags as they were. -/
theorem Step.frame (h : Step care s s') :
    s' = { s with io := s'.io, files := s'.files, tombstones := s'.tombstones, allocator := s'.allocator,
                  dirty := s'.dirty, shardDirty := s'.shardDirty, nextUploadId := s'.nextUploadId } := by
  obtain ⟨s1, held, hp, hu⟩ := h
  have h1 := hp.eq
  have h2 := hu.framed
  unfold Framed at h2
  cases s; cases s1; cases s'
  simp_all

/-! ## Space -/

theorem Update.space {held : List Span} (h : Update care s held s') (hs : SpaceInv s held) : SpaceInv s' [] := by
  cases h with
  | keep => exact hs
  | put k info parts hsize => exact (SpaceInv.replaceFile hs hsize).dropParts parts
  | copy k info hsize => exact (hs.removeFile k).insertFile (lookup_removeFile s k) hsize
  | move fromKey toKey info hfrom =>
    have hsz := hs.sized info (mem_values hfrom)
    have h1 := (hs.takeFile hfrom).removeFile toKey
    exact (h1.congr (t := (Store.removeFile { s with files := s.files.erase fromKey } toKey).markShardDirty fromKey) rfl rfl
      rfl).insertFile (lookup_removeFile _ toKey) hsz
  | drop keys => exact (hs.dropParts keys).congr rfl rfl rfl
  | amend k info metaLen hk =>
    have h0 := hs.takeFile hk
    have h1 : SpaceInv { s with files := s.files.erase k } [ExtentInfo.span { info with metaLen := metaLen }] := h0
    have h2 : (s.files.erase k).insert k { info with metaLen := metaLen } = s.files.insert k { info with metaLen := metaLen } := by
      apply AList.ext
      rw [entries_insert, entries_insert, erase_of_lookup_none (AList.lookup_erase _ _)]
    refine SpaceInv.congr (h1.insertFile (k := k) (AList.lookup_erase _ _) (hs.sized info (mem_values hk))) rfl ?_ rfl
    exact h2.symm
  | forget => exact hs.congr rfl rfl rfl
  | forgetAll =>
    rw [foldl_markShardDirty]
    exact hs.congr rfl rfl rfl
  | upload => exact hs.congr rfl rfl rfl

theorem Step.space (h : Step care s s') : SpaceInv s' [] := by
  obtain ⟨s1, held, hp, hu⟩ := h
  exact hu.space hp.space

/-! ## Contents -/

omit [Crates] in
/-- The blocks of an entry are not free. -/
theorem SpaceInv.not_free (hs : SpaceInv s []) {k : Key} {info : ExtentInfo} (hk : s.files.lookup k = some info) {a : Nat}
    (ha : info.span.Has a) {e : Disk.Event} (he : FreeIn s e) : ¬ e.Reaches a := by
  intro hr
  obtain ⟨⟨al, hal, hpart⟩, -⟩ := hs
  obtain ⟨al', hal', hcov⟩ := he a hr
  rw [hal] at hal'
  obtain rfl := Option.some.inj hal'
  refine ((hpart.covers a).mp hcov).2.2 ⟨info.span, ?_, ha⟩
  exact List.mem_map_of_mem (mem_values hk)

omit [Crates] in
/-- Writes to free space leave every entry's blocks as they were. -/
theorem SpaceInv.read_eq (hs : SpaceInv s []) {io : DeviceIo} (hw : Wrote (FreeIn s) s.io io) {k : Key} {info : ExtentInfo}
    (hk : s.files.lookup k = some info) : io.dev.read info.offset info.paddedSize = s.io.dev.read info.offset info.paddedSize :=
  hw.read_eq fun _ _ he h1 h2 => hs.not_free hk ⟨h1, h2⟩ he

/-- `ContentInv` for some of the keys. -/
def ContentOn (P : Key → Prop) (care : Care) (s : Store) : Prop :=
  ∀ k info, P k → s.files.lookup k = some info → Kept care s.compression s.io.dev info

theorem ContentInv.on (h : ContentInv care s) (P : Key → Prop) : ContentOn P care s := fun k info _ hk => h k info hk

theorem ContentOn.all (h : ContentOn (fun _ => True) care s) : ContentInv care s := fun k info hk => h k info trivial hk

variable {P : Key → Prop}

theorem Prep.contentOn {held : List Span} (h : Prep care s held s') (hs : SpaceInv s []) (hc : ContentOn P care s) :
    ContentOn P care s' := by
  intro k info hP hk
  rw [h.files_eq] at hk
  obtain ⟨hpad, hst⟩ := hc k info hP hk
  refine ⟨hpad, fun hcare => ?_⟩
  obtain ⟨payload, hst⟩ := hst hcare
  rw [h.compression_eq]
  have hr := hs.read_eq (h.wrote hcare.ne_index) hk
  rw [hpad] at hr
  exact ⟨payload, hst.congr hr⟩

theorem Prep.content {held : List Span} (h : Prep care s held s') (hs : SpaceInv s []) (hc : ContentInv care s) :
    ContentInv care s' := (h.contentOn hs (hc.on _)).all

omit [Crates] in
theorem lookup_removeFile_ne (s : Store) {k k' : Key} (h : k' ≠ k) :
    (s.removeFile k).files.lookup k' = s.files.lookup k' := by
  unfold Store.removeFile
  split
  · exact AList.lookup_erase_ne h
  · rfl

omit [Crates] in
theorem lookup_removeFile_some {k k' : Key} {info : ExtentInfo} (h : (s.removeFile k).files.lookup k' = some info) :
    s.files.lookup k' = some info := by
  by_cases hk : k' = k
  · subst hk
    rw [lookup_removeFile] at h
    exact absurd h (by simp)
  · rwa [lookup_removeFile_ne s hk] at h

theorem lookup_insertFile_some {k k' : Key} {new info : ExtentInfo} (h : (s.insertFile k new).files.lookup k' = some info) :
    k' = k ∧ info = new ∨ k' ≠ k ∧ s.files.lookup k' = some info := by
  change (s.files.insert k new).lookup k' = some info at h
  by_cases hk : k' = k
  · subst hk
    rw [AList.lookup_insert] at h
    exact Or.inl ⟨rfl, (Option.some.inj h).symm⟩
  · rw [AList.lookup_insert_ne hk] at h
    exact Or.inr ⟨hk, h⟩

theorem lookup_dropFile (s : Store) (k k' : Key) :
    (s.dropFile k).files.lookup k' = if k' = k then none else s.files.lookup k' := by
  unfold Store.dropFile
  by_cases hk : k' = k
  · subst hk
    rw [if_pos rfl]
    split
    · exact lookup_removeFile s k'
    · next h => exact h
  · rw [if_neg hk]
    split
    · exact lookup_removeFile_ne s hk
    · rfl

theorem lookup_dropParts (s : Store) (ks : List Key) (k' : Key) :
    (s.dropParts ks).files.lookup k' = if k' ∈ ks then none else s.files.lookup k' := by
  unfold Store.dropParts
  induction ks generalizing s with
  | nil => simp
  | cons k ks ih =>
    rw [List.foldl_cons, ih, lookup_dropFile]
    by_cases h1 : k' ∈ ks
    · simp [h1]
    · by_cases h2 : k' = k
      · simp [h2]
      · simp [h1, h2]

theorem lookup_replaceFile (s : Store) (k : Key) (info : ExtentInfo) (k' : Key) :
    (s.replaceFile k info).files.lookup k' = if k' = k then some info else s.files.lookup k' := by
  show ((s.removeFile k).files.insert k info).lookup k' = _
  by_cases hk : k' = k
  · subst hk
    rw [if_pos rfl, AList.lookup_insert]
  · rw [if_neg hk, AList.lookup_insert_ne hk, lookup_removeFile_ne s hk]

theorem Update.contentOn {held : List Span} (h : Update care s held s') (hc : ContentOn P care s) : ContentOn P care s' := by
  have hio := h.io_eq
  have hcomp : s'.compression = s.compression := by rw [h.framed]
  have key : ∀ k info, P k → s'.files.lookup k = some info → Kept care s.compression s.io.dev info := by
    cases h with
    | keep => exact hc
    | put k info parts hsize hkept =>
      intro k' info' hP hk
      rw [lookup_dropParts, lookup_replaceFile] at hk
      split at hk
      · exact absurd hk (by simp)
      · split at hk
        · obtain rfl := Option.some.inj hk
          exact hkept
        · exact hc k' info' hP hk
    | copy k info hsize hkept =>
      intro k' info' hP hk
      rcases lookup_insertFile_some hk with ⟨-, rfl⟩ | ⟨-, hk⟩
      · exact hkept
      · exact hc k' info' hP (lookup_removeFile_some hk)
    | move fromKey toKey info hfrom hkept =>
      intro k' info' hP hk
      rcases lookup_insertFile_some hk with ⟨-, rfl⟩ | ⟨-, hk⟩
      · exact hkept
      · have h1 : (s.files.erase fromKey).lookup k' = some info' := lookup_removeFile_some hk
        by_cases hf : k' = fromKey
        · subst hf
          rw [AList.lookup_erase] at h1
          exact absurd h1 (by simp)
        · rw [AList.lookup_erase_ne hf] at h1
          exact hc k' info' hP h1
    | drop keys =>
      intro k' info' hP hk
      change (s.dropParts keys).files.lookup k' = some info' at hk
      rw [lookup_dropParts] at hk
      split at hk
      · exact absurd hk (by simp)
      · exact hc k' info' hP hk
    | amend k info metaLen hlook =>
      intro k' info' hP hk
      rcases lookup_insertFile_some hk with ⟨rfl, rfl⟩ | ⟨-, hk⟩
      · exact ⟨(hc k' info hP hlook).padded, fun hn => (hc k' info hP hlook).stored hn⟩
      · exact hc k' info' hP hk
    | forget => exact hc
    | forgetAll =>
      rw [foldl_markShardDirty]
      exact hc
    | upload => exact hc
  intro k info hP hk
  rw [hcomp, hio]
  exact key k info hP hk

theorem Step.contentOn (h : Step care s s') (hs : SpaceInv s []) (hc : ContentOn P care s) : ContentOn P care s' := by
  obtain ⟨s1, held, hp, hu⟩ := h
  exact hu.contentOn (hp.contentOn hs hc)

theorem Step.content (h : Step care s s') (hs : SpaceInv s []) (hc : ContentInv care s) : ContentInv care s' :=
  (h.contentOn hs (hc.on _)).all

/-! ## Dirty shards -/

/-- A shard that is not marked has the entries it had, and marks stay. -/
structure Marked (s s' : Store) : Prop where
  grows : ∀ i, s.shardDirty i = true → s'.shardDirty i = true
  files : ∀ k, s'.shardDirty (shardForKey k) = false → s'.files.lookup k = s.files.lookup k
  tombstones : ∀ k, s'.shardDirty (shardForKey k) = false → s'.tombstones.lookup k = s.tombstones.lookup k

theorem Marked.refl : Marked s s := ⟨fun _ h => h, fun _ _ => rfl, fun _ _ => rfl⟩

theorem Marked.trans (h : Marked s s') (h' : Marked s' s'') : Marked s s'' := by
  have hclean : ∀ i, s''.shardDirty i = false → s'.shardDirty i = false := by
    intro i hi
    by_contra hd
    rw [h'.grows i (by simpa using hd)] at hi
    exact absurd hi (by simp)
  refine ⟨fun i hi => h'.grows i (h.grows i hi), fun k hk => ?_, fun k hk => ?_⟩
  · rw [h'.files k hk, h.files k (hclean _ hk)]
  · rw [h'.tombstones k hk, h.tombstones k (hclean _ hk)]

/-- A change at one key whose shard ends up marked. -/
theorem marked_of_key {k : Key} (hd : s'.shardDirty = (s.markShardDirty k).shardDirty)
    (hf : ∀ k', k' ≠ k → s'.files.lookup k' = s.files.lookup k')
    (ht : ∀ k', k' ≠ k → s'.tombstones.lookup k' = s.tombstones.lookup k') : Marked s s' := by
  have hne : ∀ k', s'.shardDirty (shardForKey k') = false → k' ≠ k := by
    rintro k' h rfl
    rw [hd] at h
    simp [Store.markShardDirty] at h
  refine ⟨fun i hi => ?_, fun k' h => hf k' (hne k' h), fun k' h => ht k' (hne k' h)⟩
  rw [hd]
  unfold Store.markShardDirty
  by_cases h : i = shardForKey k
  · subst h; simp
  · simp [h, hi]

omit [Crates] in
theorem shardDirty_removeFile (s : Store) (k : Key) : (s.removeFile k).shardDirty = s.shardDirty := by
  unfold Store.removeFile
  split <;> rfl

omit [Crates] in
theorem tombstones_removeFile (s : Store) (k : Key) : (s.removeFile k).tombstones = s.tombstones := by
  unfold Store.removeFile
  split <;> rfl

theorem marked_replaceFile (s : Store) (k : Key) (info : ExtentInfo) : Marked s (s.replaceFile k info) := by
  refine marked_of_key (k := k) ?_ (fun k' hne => ?_) (fun k' hne => ?_)
  · show Function.update (s.removeFile k).shardDirty _ true = _
    rw [shardDirty_removeFile]
    rfl
  · rw [lookup_replaceFile, if_neg hne]
  · show ((s.removeFile k).tombstones.erase k).lookup k' = _
    rw [tombstones_removeFile, AList.lookup_erase_ne hne]

theorem marked_insertFile (s : Store) (k : Key) (info : ExtentInfo) : Marked s (s.insertFile k info) :=
  marked_of_key (k := k) rfl (fun _ hne => AList.lookup_insert_ne hne) (fun _ _ => rfl)

theorem marked_dropFile (s : Store) (k : Key) : Marked s (s.dropFile k) := by
  cases hk : s.files.lookup k with
  | none =>
    have h : s.dropFile k = s := by unfold Store.dropFile; simp only [hk]
    rw [h]
    exact Marked.refl
  | some info =>
    have h : s.dropFile k = (s.removeFile k).markShardDirty k := by unfold Store.dropFile; simp only [hk]
    refine marked_of_key (k := k) ?_ (fun k' hne => ?_) (fun k' _ => ?_)
    · rw [h]
      show Function.update (s.removeFile k).shardDirty _ true = _
      rw [shardDirty_removeFile]
      rfl
    · rw [lookup_dropFile, if_neg hne]
    · rw [h]
      show (s.removeFile k).tombstones.lookup k' = _
      rw [tombstones_removeFile]

theorem marked_dropParts (s : Store) (ks : List Key) : Marked s (s.dropParts ks) := by
  unfold Store.dropParts
  induction ks generalizing s with
  | nil => exact Marked.refl
  | cons k ks ih => exact (marked_dropFile s k).trans (ih _)

/-- A change of the key's entry whose mark comes with a later one. -/
theorem marked_removeInsert (s : Store) (k : Key) (info : ExtentInfo) : Marked s ((s.removeFile k).insertFile k info) := by
  refine marked_of_key (k := k) ?_ (fun k' hne => ?_) (fun k' _ => ?_)
  · show Function.update (s.removeFile k).shardDirty _ true = _
    rw [shardDirty_removeFile]
    rfl
  · show ((s.removeFile k).files.insert k info).lookup k' = _
    rw [AList.lookup_insert_ne hne, lookup_removeFile_ne s hne]
  · show (s.removeFile k).tombstones.lookup k' = _
    rw [tombstones_removeFile]

/-- `rename` marks both its keys. -/
theorem marked_moved (s : Store) (fromKey toKey : Key) (info : ExtentInfo) : Marked s (s.moved fromKey toKey info) := by
  have h1 : Marked s (Store.markShardDirty { s with files := s.files.erase fromKey } fromKey) :=
    marked_of_key (k := fromKey) rfl (fun _ hne => AList.lookup_erase_ne hne) (fun _ _ => rfl)
  have h2 := h1.trans (marked_removeInsert _ toKey info)
  -- The order of the mark and the removal does not matter.
  have hcomm : (Store.markShardDirty { s with files := s.files.erase fromKey } fromKey).removeFile toKey =
      (Store.removeFile { s with files := s.files.erase fromKey } toKey).markShardDirty fromKey := by
    unfold Store.removeFile Store.markShardDirty
    dsimp only
    split <;> rfl
  rw [hcomm] at h2
  exact h2

theorem marked_forgetAll (s : Store) : Marked s
    { s.tombstones.entries.foldl (fun s e => s.markShardDirty e.1) s with tombstones := ∅, dirty := true } := by
  rw [foldl_markShardDirty]
  refine ⟨fun i hi => by simp [hi], fun _ _ => rfl, fun k hk => ?_⟩
  have hnone : s.tombstones.lookup k = none := by
    by_contra hne
    obtain ⟨t, ht⟩ := Option.ne_none_iff_exists'.mp hne
    rw [← Option.mem_def, AList.mem_lookup_iff] at ht
    simp only [Bool.or_eq_false_iff, List.any_eq_false] at hk
    exact hk.2 _ ht (by simp)
  rw [hnone]
  exact AList.lookup_empty k

theorem Update.marked {held : List Span} (h : Update care s held s') : Marked s s' := by
  cases h with
  | keep => exact Marked.refl
  | put k info parts => exact (marked_replaceFile s k info).trans (marked_dropParts _ parts)
  | copy k info => exact marked_removeInsert s k info
  | move fromKey toKey info => exact marked_moved s fromKey toKey info
  | drop keys =>
    have h := marked_dropParts s keys
    exact ⟨h.grows, h.files, h.tombstones⟩
  | amend k info metaLen => exact marked_insertFile s k _
  | forget path => exact marked_of_key (k := path) rfl (fun _ _ => rfl) (fun _ hne => AList.lookup_erase_ne hne)
  | forgetAll => exact marked_forgetAll s
  | upload => exact ⟨fun _ h => h, fun _ _ => rfl, fun _ _ => rfl⟩

theorem Step.marked (h : Step care s s') : Marked s s' := by
  obtain ⟨s1, held, hp, hu⟩ := h
  have h1 := hu.marked
  rw [hp.eq] at h1
  exact ⟨h1.grows, h1.files, h1.tombstones⟩

/-- A store with a marked shard is marked. -/
def Flagged (s : Store) : Prop := ∀ i, s.shardDirty i = true → s.dirty = true

theorem dirty_dropParts (s : Store) (ks : List Key) : (s.dropParts ks).dirty = s.dirty := by
  unfold Store.dropParts
  induction ks generalizing s with
  | nil => rfl
  | cons k ks ih =>
    rw [List.foldl_cons, ih]
    unfold Store.dropFile Store.removeFile
    split
    · split <;> rfl
    · rfl

theorem Step.flagged (h : Step care s s') (hf : Flagged s) : Flagged s' := by
  obtain ⟨s1, held, hp, hu⟩ := h
  have hf1 : Flagged s1 := by
    rw [hp.eq]
    exact hf
  cases hu with
  | keep => exact hf1
  | put k info parts =>
    intro i _
    rw [dirty_dropParts]
    rfl
  | upload => exact hf1
  | copy => exact fun _ _ => rfl
  | move => exact fun _ _ => rfl
  | drop => exact fun _ _ => rfl
  | amend => exact fun _ _ => rfl
  | forget => exact fun _ _ => rfl
  | forgetAll => exact fun _ _ => rfl

end ObjStr.Raw
