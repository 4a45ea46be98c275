/-
  ObjStr.Raw.Load — the index as a device holds it.

  `committed d` is what `open_impl` loads from the bytes of `d`: the valid superblock with the
  highest transaction, and the shards in the slots it refers to, merged. The device programs
  compute it (`wp_loadIndex`), and do so without fail on a device whose calls succeed
  (`loadIndex_calm`). `lookup_merge` says what the merged maps hold when every shard holds only
  keys of its own.
-/

import ObjStr.Raw.Bodies

namespace ObjStr.Raw

open ObjStr.Lib DeviceIo

variable [Crates]

/-! ## What a device holds -/

def superblockAt (d : Disk) (off : Nat) : Except RawStoreError Superblock := Superblock.fromBytes (d.read off superblockSize)

def chosenSuperblock (d : Disk) : Except RawStoreError Superblock :=
  chooseSuperblock (superblockAt d 0) (superblockAt d superblockSize)

theorem chosenSuperblock_of_both {d : Disk} {sb : Superblock} (hprimary : superblockAt d 0 = .ok sb)
    (hbackup : superblockAt d superblockSize = .ok sb) : chosenSuperblock d = .ok sb := by
  unfold chosenSuperblock
  rw [hprimary, hbackup]
  exact if_pos (UInt64.le_refl sb.txnId)

def Layout.slotOffset (l : Layout) (slot : UInt8) (shard : Fin numShards) : Nat :=
  Raw.slotOffset l.regionA l.regionB l.slotSize slot shard

def shardAt (l : Layout) (d : Disk) (slot : ShardSlotMeta) (shard : Fin numShards) : Except RawStoreError ShardData :=
  if slot.size = 0 then .ok .empty
  else ShardData.fromBytes (d.read (l.slotOffset slot.activeSlot shard) slot.size.toNat) slot.crc

def DeviceIndex.add (index : DeviceIndex) (d : ShardData) : DeviceIndex :=
  ⟨index.files.extend d.files, index.tombstones.extend d.tombstones⟩

def merge (shards : Fin numShards → ShardData) : DeviceIndex :=
  (List.finRange numShards).foldl (fun index i => index.add (shards i)) .empty

def indexAt (l : Layout) (d : Disk) (sb : Superblock) : Except RawStoreError DeviceIndex :=
  (List.finRange numShards).foldlM (fun index i => do
    let shard ← shardAt l d (sb.shardSlots i) i
    pure (index.add shard)) .empty

def committed (d : Disk) : Except RawStoreError (Superblock × Layout × DeviceIndex) := do
  let sb ← chosenSuperblock d
  let l ← layoutOf d.size sb
  let index ← indexAt l d sb
  pure (sb, l, index)

/-- If every slot holds a shard, the index is these shards. -/
theorem indexAt_of_shards {l : Layout} {d : Disk} {sb : Superblock} {shards : Fin numShards → ShardData}
    (h : ∀ i, shardAt l d (sb.shardSlots i) i = .ok (shards i)) : indexAt l d sb = .ok (merge shards) := by
  unfold indexAt merge
  generalize (List.finRange numShards) = is
  generalize DeviceIndex.empty = index
  induction is generalizing index with
  | nil => rfl
  | cons i is ih =>
    rw [List.foldlM_cons, h i, List.foldl_cons]
    exact ih _

theorem committed_iff {d : Disk} {sb : Superblock} {l : Layout} {index : DeviceIndex} :
    committed d = .ok (sb, l, index) ↔
      chosenSuperblock d = .ok sb ∧ layoutOf d.size sb = .ok l ∧ indexAt l d sb = .ok index := by
  unfold committed
  cases hsb : chosenSuperblock d with
  | error e => simp [Bind.bind, Except.bind]
  | ok sb' =>
    cases hl : layoutOf d.size sb' with
    | error e =>
      simp only [Bind.bind, Except.bind, hl, Except.ok.injEq, reduceCtorEq, false_iff, not_and]
      rintro rfl h
      rw [hl] at h
      exact absurd h (by simp)
    | ok l' =>
      cases hi : indexAt l' d sb' with
      | error e =>
        simp only [Bind.bind, Except.bind, hl, hi, Except.ok.injEq, reduceCtorEq, false_iff, not_and]
        rintro rfl h
        rw [hl] at h
        obtain rfl := Except.ok.inj h
        rw [hi]
        simp
      | ok index' =>
        simp only [Bind.bind, Except.bind, hl, hi, pure, Except.pure, Except.ok.injEq, Prod.mk.injEq]
        constructor
        · rintro ⟨rfl, rfl, rfl⟩
          exact ⟨rfl, hl, hi⟩
        · rintro ⟨rfl, h1, h2⟩
          rw [hl] at h1
          obtain rfl := Except.ok.inj h1
          rw [hi] at h2
          exact ⟨rfl, rfl, Except.ok.inj h2⟩

theorem committed_of_shards {d : Disk} {sb : Superblock} {l : Layout} {shards : Fin numShards → ShardData}
    (hsb : chosenSuperblock d = .ok sb) (hl : layoutOf d.size sb = .ok l)
    (h : ∀ i, shardAt l d (sb.shardSlots i) i = .ok (shards i)) : committed d = .ok (sb, l, merge shards) :=
  committed_iff.mpr ⟨hsb, hl, indexAt_of_shards h⟩

/-! ## The merged maps -/

section Maps

variable {V : Type}

omit [Crates] in
theorem FMap.lookup_filterKeys (m : FMap V) (p : Key → Bool) (k : Key) :
    (m.filterKeys p).lookup k = if p k then m.lookup k else none := by
  apply Option.ext
  intro v
  split
  · next h =>
    rw [← Option.mem_def, ← Option.mem_def, AList.mem_lookup_iff, AList.mem_lookup_iff]
    simp [filterKeys, h]
  · next h =>
    rw [← Option.mem_def, AList.mem_lookup_iff]
    simp [filterKeys, h]

omit [Crates] in
theorem FMap.lookup_extend (m n : FMap V) (k : Key) : (m.extend n).lookup k = (n.lookup k).or (m.lookup k) := by
  have key : ∀ (l : List (Sigma fun _ : Key => V)), l.NodupKeys → ∀ m : FMap V,
      (l.foldl (fun acc e => acc.insert e.1 e.2) m).lookup k = (l.dlookup k).or (m.lookup k) := by
    intro l
    induction l with
    | nil => intro _ m; simp
    | cons e l ih =>
      intro hnd m
      obtain ⟨hnew, hnd⟩ := List.nodupKeys_cons.mp hnd
      rw [List.foldl_cons, ih hnd]
      obtain ⟨k', v⟩ := e
      by_cases hk : k = k'
      · subst hk
        rw [List.dlookup_cons_eq, AList.lookup_insert, List.dlookup_eq_none.mpr hnew]
        rfl
      · rw [List.dlookup_cons_ne _ _ hk, AList.lookup_insert_ne hk]
  exact key n.entries n.nodupKeys m

omit [Crates] in
/-- Merging maps of which only one can have the key. -/
theorem FMap.lookup_foldl_extend {ι : Type} [DecidableEq ι] (is : List ι) (f : ι → FMap V) (own : ι) (k : Key)
    (h : ∀ i, i ≠ own → (f i).lookup k = none) (m : FMap V) :
    (is.foldl (fun m i => m.extend (f i)) m).lookup k =
      if own ∈ is then ((f own).lookup k).or (m.lookup k) else m.lookup k := by
  induction is generalizing m with
  | nil => simp
  | cons i is ih =>
    rw [List.foldl_cons, ih, FMap.lookup_extend]
    by_cases hi : i = own
    · subst hi
      simp only [List.mem_cons, true_or, if_true]
      split
      · rw [← Option.or_assoc, Option.or_self]
      · rfl
    · rw [h i hi, Option.none_or]
      simp [Ne.symm hi]

omit [Crates] in
/-- Maps with equal lookups have the same entries. -/
theorem FMap.perm_of_lookup {m n : FMap V} (h : ∀ k, m.lookup k = n.lookup k) : m.entries.Perm n.entries := by
  rw [List.perm_ext_iff_of_nodup m.nodupKeys.nodup n.nodupKeys.nodup]
  rintro ⟨k, v⟩
  rw [← AList.mem_lookup_iff, ← AList.mem_lookup_iff, h k]

end Maps

def Sorted (shards : Fin numShards → ShardData) : Prop :=
  ∀ i k, shardForKey k ≠ i → (shards i).files.lookup k = none ∧ (shards i).tombstones.lookup k = none

theorem lookup_merge {shards : Fin numShards → ShardData} (h : Sorted shards) (k : Key) :
    (merge shards).files.lookup k = (shards (shardForKey k)).files.lookup k ∧
      (merge shards).tombstones.lookup k = (shards (shardForKey k)).tombstones.lookup k := by
  have hproj : ∀ (is : List (Fin numShards)) (index : DeviceIndex),
      is.foldl (fun index i => index.add (shards i)) index =
        ⟨is.foldl (fun m i => FMap.extend m (shards i).files) index.files,
          is.foldl (fun m i => FMap.extend m (shards i).tombstones) index.tombstones⟩ := by
    intro is
    induction is with
    | nil => intro index; rfl
    | cons i is ih => intro index; rw [List.foldl_cons, ih]; rfl
  unfold merge
  rw [hproj]
  constructor
  · dsimp only
    rw [FMap.lookup_foldl_extend _ (fun i => (shards i).files) (shardForKey k) k (fun i hi => (h i k (Ne.symm hi)).1),
      if_pos (List.mem_finRange _)]
    show Option.or _ ((∅ : FMap ExtentInfo).lookup k) = _
    rw [AList.lookup_empty, Option.or_none]
  · dsimp only
    rw [FMap.lookup_foldl_extend _ (fun i => (shards i).tombstones) (shardForKey k) k
      (fun i hi => (h i k (Ne.symm hi)).2), if_pos (List.mem_finRange _)]
    show Option.or _ ((∅ : FMap TombstoneInfo).lookup k) = _
    rw [AList.lookup_empty, Option.or_none]

structure DeviceIndex.Is (index : DeviceIndex) (files : FMap ExtentInfo) (tombstones : FMap TombstoneInfo) : Prop where
  files : ∀ k, index.files.lookup k = files.lookup k
  tombstones : ∀ k, index.tombstones.lookup k = tombstones.lookup k

theorem Store.lookup_shardData (s : Store) (i : Fin numShards) (k : Key) :
    (s.shardData i).files.lookup k = (if shardForKey k = i then s.files.lookup k else none) ∧
      (s.shardData i).tombstones.lookup k = (if shardForKey k = i then s.tombstones.lookup k else none) := by
  unfold Store.shardData
  constructor
  · rw [FMap.lookup_filterKeys]; simp
  · rw [FMap.lookup_filterKeys]; simp

omit [Crates] in
theorem ShardData.Same.lookup {a b : ShardData} (h : a.Same b) (k : Key) :
    a.files.lookup k = b.files.lookup k ∧ a.tombstones.lookup k = b.tombstones.lookup k :=
  ⟨AList.perm_lookup h.files, AList.perm_lookup h.tombstones⟩

/-- Shards that are those of a store merge to its index. -/
theorem merge_is {s : Store} {shards : Fin numShards → ShardData} (h : ∀ i, (shards i).Same (s.shardData i)) :
    (merge shards).Is s.files s.tombstones := by
  have hown : Sorted shards := by
    intro i k hk
    obtain ⟨h1, h2⟩ := (h i).lookup k
    obtain ⟨h3, h4⟩ := s.lookup_shardData i k
    rw [if_neg hk] at h3 h4
    exact ⟨h1.trans h3, h2.trans h4⟩
  refine ⟨fun k => ?_, fun k => ?_⟩
  · rw [(lookup_merge hown k).1, ((h _).lookup k).1, (s.lookup_shardData _ k).1, if_pos rfl]
  · rw [(lookup_merge hown k).2, ((h _).lookup k).2, (s.lookup_shardData _ k).2, if_pos rfl]

omit [Crates] in
theorem ShardData.Same.trans {a b c : ShardData} (h : a.Same b) (h' : b.Same c) : a.Same c :=
  ⟨h.files.trans h'.files, h.tombstones.trans h'.tombstones⟩

/-! ## Loading -/

theorem wp_readSuperblock {io : DeviceIo} (off : Nat) :
    Prog.wp (readSuperblock off) (fun r io' => r = superblockAt io.dev off ∧ Aged io io')
      (fun _ io' => Aged io io' ∧ ¬ Calm io off superblockSize) io := by
  unfold readSuperblock
  rw [Prog.wp_bind]
  refine Prog.wp_mono (wp_pread off superblockSize) ?_ (fun _ _ h => h)
  rintro b io' ⟨hb, ha⟩
  rw [Prog.wp_pure, hb]
  exact ⟨rfl, ha⟩

theorem wp_readShard {io : DeviceIo} (l : Layout) (slot : ShardSlotMeta) (shard : Fin numShards) :
    Prog.wp (readShard l.regionA l.regionB l.slotSize slot shard)
      (fun r io' => shardAt l io.dev slot shard = .ok r ∧ Aged io io')
      (fun e io' => Aged io io' ∧ (Calm io (l.slotOffset slot.activeSlot shard) slot.size.toNat →
        shardAt l io.dev slot shard = .error e)) io := by
  unfold readShard shardAt Layout.slotOffset
  split
  · exact ⟨rfl, Aged.refl⟩
  · rw [Prog.wp_bind]
    refine Prog.wp_mono (wp_pread _ _) ?_ ?_
    · rintro b io' ⟨rfl, ha⟩
      rw [wp_ofExcept]
      split
      · next r hr => exact ⟨hr, ha⟩
      · next e he => exact ⟨ha, fun _ => he⟩
    · rintro e io' ⟨ha, hc⟩
      exact ⟨ha, fun h => absurd h hc⟩

/-- A device whose calls all succeed, as far as its superblock's slots reach. -/
structure Readable (io : DeviceIo) (l : Layout) (sb : Superblock) : Prop where
  superblocks : Calm io 0 superblockSize ∧ Calm io superblockSize superblockSize
  slots : ∀ i, Calm io (l.slotOffset (sb.shardSlots i).activeSlot i) (sb.shardSlots i).size.toNat

theorem wp_loadShards {io : DeviceIo} (l : Layout) (sb : Superblock) :
    Prog.wp (loadShards l sb) (fun index io' => indexAt l io.dev sb = .ok index ∧ Aged io io')
      (fun e io' => Aged io io' ∧
        ((∀ i, Calm io (l.slotOffset (sb.shardSlots i).activeSlot i) (sb.shardSlots i).size.toNat) →
          indexAt l io.dev sb = .error e)) io := by
  unfold loadShards indexAt
  have key : ∀ (is : List (Fin numShards)) (index : DeviceIndex) (io1 : DeviceIo), Aged io io1 →
      Prog.wp (is.foldlM (fun (index : DeviceIndex) i => do
          let d ← readShard l.regionA l.regionB l.slotSize (sb.shardSlots i) i
          pure ⟨index.files.extend d.files, index.tombstones.extend d.tombstones⟩) index)
        (fun r io' => is.foldlM (fun (index : DeviceIndex) i => do
          let shard ← shardAt l io.dev (sb.shardSlots i) i
          pure (index.add shard)) index = .ok r ∧ Aged io io')
        (fun e io' => Aged io io' ∧
          ((∀ i, Calm io (l.slotOffset (sb.shardSlots i).activeSlot i) (sb.shardSlots i).size.toNat) →
            is.foldlM (fun (index : DeviceIndex) i => do
              let shard ← shardAt l io.dev (sb.shardSlots i) i
              pure (index.add shard)) index = .error e)) io1 := by
    intro is
    induction is with
    | nil => intro index io1 ha; exact ⟨rfl, ha⟩
    | cons i is ih =>
      intro index io1 ha
      rw [List.foldlM_cons, List.foldlM_cons, Prog.wp_bind, Prog.wp_bind]
      refine Prog.wp_mono (wp_readShard l (sb.shardSlots i) i) ?_ ?_
      · rintro d io2 ⟨hd, ha2⟩
        rw [ha.dev_eq] at hd
        rw [hd, Prog.wp_pure]
        exact ih _ io2 (ha.trans ha2)
      · rintro e io2 ⟨ha2, hc⟩
        refine ⟨ha.trans ha2, fun hcalm => ?_⟩
        have := hc ((hcalm i).aged ha)
        rw [ha.dev_eq] at this
        rw [this]
        rfl
  exact key _ _ io Aged.refl

theorem wp_loadIndex {io : DeviceIo} :
    Prog.wp loadIndex (fun r io' => committed io.dev = .ok r ∧ Aged io io')
      (fun _ io' => Aged io io' ∧
        ∀ r, committed io.dev = .ok r → ¬ Readable io r.2.1 r.1) io := by
  unfold loadIndex
  rw [Prog.wp_bind, Prog.wp_get, Prog.wp_bind]
  refine Prog.wp_mono (wp_readSuperblock 0) ?_ ?_
  · rintro sb0 io1 ⟨hsb0, ha1⟩
    rw [Prog.wp_bind]
    refine Prog.wp_mono (wp_readSuperblock superblockSize) ?_ ?_
    · rintro sb1 io2 ⟨hsb1, ha2⟩
      rw [ha1.dev_eq] at hsb1
      rw [hsb0, hsb1, Prog.wp_bind, wp_ofExcept]
      have hch : chooseSuperblock (superblockAt io.dev 0) (superblockAt io.dev superblockSize) = chosenSuperblock io.dev := by
        unfold chosenSuperblock
        rfl
      rw [hch]
      have ha := ha1.trans ha2
      cases hsb : chosenSuperblock io.dev with
      | error e =>
        refine ⟨ha, ?_⟩
        rintro ⟨sb, l, index⟩ hr
        rw [committed_iff, hsb] at hr
        exact absurd hr.1 (by simp)
      | ok sb =>
        dsimp only
        rw [Prog.wp_bind, wp_ofExcept]
        cases hl : layoutOf io.dev.size sb with
        | error e =>
          refine ⟨ha, ?_⟩
          rintro ⟨sb', l, index⟩ hr
          obtain ⟨h1, h2, -⟩ := committed_iff.mp hr
          rw [hsb] at h1
          obtain rfl := Except.ok.inj h1
          rw [hl] at h2
          exact absurd h2 (by simp)
        | ok l =>
          dsimp only
          rw [Prog.wp_bind]
          refine Prog.wp_mono (wp_loadShards l sb) ?_ ?_
          · rintro index io3 ⟨hi, ha3⟩
            rw [ha.dev_eq] at hi
            rw [Prog.wp_pure]
            exact ⟨committed_iff.mpr ⟨hsb, hl, hi⟩, ha.trans ha3⟩
          · rintro e io3 ⟨ha3, hc⟩
            refine ⟨ha.trans ha3, ?_⟩
            rintro ⟨sb', l', index⟩ hr hread
            obtain ⟨h1, h2, h3⟩ := committed_iff.mp hr
            rw [hsb] at h1
            obtain rfl := Except.ok.inj h1
            rw [hl] at h2
            obtain rfl := Except.ok.inj h2
            have := hc fun i => (hread.slots i).aged ha
            rw [ha.dev_eq, h3] at this
            exact absurd this (by simp)
    · rintro e io2 ⟨ha2, hc⟩
      exact ⟨ha1.trans ha2, fun r _ hread => hc (hread.superblocks.2.aged ha1)⟩
  · rintro e io1 ⟨ha1, hc⟩
    exact ⟨ha1, fun r _ hread => hc hread.superblocks.1⟩

/-- On a device whose calls succeed, what is committed is loaded. -/
theorem loadIndex_calm {io : DeviceIo} {r : Superblock × Layout × DeviceIndex} (h : committed io.dev = .ok r)
    (hread : Readable io r.2.1 r.1) : loadIndex.exec io = (.ok r, io) := by
  have hwp := @wp_loadIndex _ io
  cases hex : loadIndex.exec io with
  | mk res io' =>
    cases res with
    | ok r' =>
      obtain ⟨h1, ha⟩ := Prog.wp_ok hwp hex
      rw [h] at h1
      obtain rfl := Except.ok.inj h1
      rw [ha.eq hread.superblocks.1.script_nil]
    | error e => exact absurd hread ((Prog.wp_error hwp hex).2 r h)

end ObjStr.Raw
