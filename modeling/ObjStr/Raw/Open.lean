/-
  ObjStr.Raw.Open — what `open_impl` makes of a device (`wp_openImpl`).

  It loads what is committed, and removes keys: entries that do not fit the device, entries its
  scan finds stale, orphaned parts of uploads. For an index whose extents share the data area
  out, validation removes nothing (`validate_ok`). A full scan finds an entry stale exactly
  when its extent does not decode to a payload with the recorded CRC (`mem_scan_full`).
-/

import ObjStr.Raw.Slots

namespace ObjStr.Raw

open ObjStr.Lib DeviceIo

/-! ## Removing keys -/

theorem lookup_without (index : DeviceIndex) (keys : List Key) (k : Key) :
    (index.without keys).files.lookup k = if k ∈ keys then none else index.files.lookup k := by
  show (keys.foldl (fun m k => m.erase k) index.files).lookup k = _
  generalize index.files = m
  induction keys generalizing m with
  | nil => simp
  | cons j keys ih =>
    rw [List.foldl_cons, ih]
    by_cases h1 : k ∈ keys
    · simp [h1]
    · by_cases h2 : k = j
      · subst h2
        simp [h1, AList.lookup_erase]
      · simp [h1, h2, AList.lookup_erase_ne h2]

theorem lookup_dropStale (readOnly : Bool) (txn : UInt64) (index : DeviceIndex) (stale : Key × String) (k : Key) :
    (index.dropStale readOnly txn stale).files.lookup k = (if k = stale.1 then none else index.files.lookup k) ∧
      (k ≠ stale.1 → (index.dropStale readOnly txn stale).tombstones.lookup k = index.tombstones.lookup k) := by
  unfold DeviceIndex.dropStale
  by_cases hk : k = stale.1
  · subst hk
    cases h : index.files.lookup stale.1 with
    | none => simp [h]
    | some info => simp [AList.lookup_erase]
  · cases h : index.files.lookup stale.1 with
    | none => simp [hk]
    | some info =>
      refine ⟨by simp [hk, AList.lookup_erase_ne hk], fun _ => ?_⟩
      dsimp only
      split
      · rfl
      · exact AList.lookup_insert_ne hk

theorem lookup_applyStaleRemovals (readOnly : Bool) (txn : UInt64) (stale : List (Key × String)) (index : DeviceIndex) (k : Key) :
    (index.applyStaleRemovals stale readOnly txn).files.lookup k =
        (if k ∈ stale.map (·.1) then none else index.files.lookup k) ∧
      (k ∉ stale.map (·.1) → (index.applyStaleRemovals stale readOnly txn).tombstones.lookup k = index.tombstones.lookup k) := by
  unfold DeviceIndex.applyStaleRemovals
  induction stale generalizing index with
  | nil => simp
  | cons st stale ih =>
    rw [List.foldl_cons]
    obtain ⟨h1, h2⟩ := ih (index.dropStale readOnly txn st)
    obtain ⟨h3, h4⟩ := lookup_dropStale readOnly txn index st k
    refine ⟨?_, fun hk => ?_⟩
    · rw [h1, h3]
      by_cases hm : k ∈ stale.map (·.1)
      · simp [hm]
      · by_cases he : k = st.1 <;> simp [hm, he]
    · rw [List.map_cons, List.mem_cons, not_or] at hk
      rw [h2 hk.2, h4 hk.1]

/-- A stale entry leaves a tombstone when a writer opens the device. -/
theorem tombstone_of_stale (txn : UInt64) (stale : List (Key × String)) (index : DeviceIndex) {k : Key} {info : ExtentInfo}
    (hm : k ∈ stale.map (·.1)) (hk : index.files.lookup k = some info) :
    ((index.applyStaleRemovals stale false txn).tombstones.lookup k).isSome := by
  unfold DeviceIndex.applyStaleRemovals
  induction stale generalizing index with
  | nil => simp at hm
  | cons st stale ih =>
    rw [List.foldl_cons]
    by_cases he : k = st.1
    · have hins : ((index.dropStale false txn st).tombstones.lookup k).isSome := by
        unfold DeviceIndex.dropStale
        rw [← he, hk]
        simp [AList.lookup_insert]
      -- The entry is gone, so later removals leave its tombstone.
      have hgone : (index.dropStale false txn st).files.lookup k = none := by
        rw [(lookup_dropStale false txn index st k).1, if_pos he]
      have key : ∀ (l : List (Key × String)) (index : DeviceIndex), index.files.lookup k = none →
          (index.tombstones.lookup k).isSome →
          ((l.foldl (DeviceIndex.dropStale false txn) index).tombstones.lookup k).isSome := by
        intro l
        induction l with
        | nil => exact fun _ _ h => h
        | cons st l ihl =>
          intro index hn ht
          rw [List.foldl_cons]
          refine ihl _ ?_ ?_
          · rw [(lookup_dropStale false txn index st k).1, hn, ite_self]
          · by_cases he : k = st.1
            · have : index.dropStale false txn st = index := by
                unfold DeviceIndex.dropStale
                rw [← he, hn]
              rw [this]
              exact ht
            · rw [(lookup_dropStale false txn index st k).2 he]
              exact ht
      exact key stale _ hgone hins
    · rw [List.map_cons, List.mem_cons] at hm
      refine ih _ (hm.resolve_left he) ?_
      rw [(lookup_dropStale false txn index st k).1, if_neg he]
      exact hk

theorem mem_multipartKeys (index : DeviceIndex) (k : Key) :
    k ∈ index.multipartKeys ↔ isMultipartTmp k = true ∧ (index.files.lookup k).isSome := by
  unfold DeviceIndex.multipartKeys
  rw [List.mem_filter, and_comm]
  refine and_congr_right fun _ => ?_
  rw [AList.lookup_isSome]
  rfl

/-- What recovery leaves of the index. -/
theorem lookup_recover (loaded : DeviceIndex) (dataEnd : Nat) (stale : List (Key × String)) (readOnly : Bool) (txn : UInt64)
    (k : Key) :
    (loaded.recover dataEnd stale readOnly txn).1.files.lookup k =
        (if k ∈ (loaded.recover dataEnd stale readOnly txn).2 then none else loaded.files.lookup k) ∧
      (k ∉ stale.map (·.1) →
        (loaded.recover dataEnd stale readOnly txn).1.tombstones.lookup k = loaded.tombstones.lookup k) := by
  unfold DeviceIndex.recover
  dsimp only
  constructor
  · rw [lookup_without, (lookup_applyStaleRemovals readOnly txn stale _ k).1]
    unfold DeviceIndex.validate
    dsimp only
    rw [lookup_without, lookup_without]
    simp only [List.mem_append]
    split <;> split <;> (try split) <;> (try split) <;> simp_all
  · intro hk
    show (DeviceIndex.applyStaleRemovals _ stale readOnly txn).tombstones.lookup k = _
    rw [(lookup_applyStaleRemovals readOnly txn stale _ k).2 hk]
    rfl

/-! ## Validation -/

theorem overlapKeys_nil {l : List (Sigma fun _ : Key => ExtentInfo)}
    (h : l.Pairwise fun a b => a.2.offset + a.2.paddedSize ≤ b.2.offset) : overlapKeys l = [] := by
  induction l with
  | nil => rfl
  | cons a l ih =>
    cases l with
    | nil => rfl
    | cons b l =>
      obtain ⟨h1, h2⟩ := List.pairwise_cons.mp h
      have := h1 b (by simp)
      show (if b.2.offset < a.2.offset + a.2.paddedSize then [b.1] else []) ++ overlapKeys (b :: l) = []
      rw [if_neg (by omega), ih h2]
      rfl

/-- Entries that are apart, sorted, follow each other. -/
theorem sortEntries_packed {l : List (Sigma fun _ : Key => ExtentInfo)} (hpos : ∀ e ∈ l, 0 < e.2.paddedSize)
    (hap : l.Pairwise fun a b => Span.Apart a.2.span b.2.span) :
    (sortEntries l).Pairwise fun a b => a.2.offset + a.2.paddedSize ≤ b.2.offset := by
  have hperm : (sortEntries l).Perm l := List.perm_insertionSort _ _
  have hs : (sortEntries l).Pairwise (fun a b => a.2.offset ≤ b.2.offset) := by
    have htot : Std.Total fun a b : (Sigma fun _ : Key => ExtentInfo) => a.2.offset ≤ b.2.offset :=
      ⟨fun a b => Nat.le_total _ _⟩
    have htrans : IsTrans (Sigma fun _ : Key => ExtentInfo) fun a b => a.2.offset ≤ b.2.offset :=
      ⟨fun _ _ _ => Nat.le_trans⟩
    exact List.pairwise_insertionSort _ _
  have hap' := (hperm.pairwise_iff (fun h => Span.Apart.symm h)).mpr hap
  refine List.Pairwise.imp_of_mem ?_ (hs.and hap')
  rintro a b ha hb ⟨h1, h2⟩
  have := hpos a (hperm.mem_iff.mp ha)
  have := hpos b (hperm.mem_iff.mp hb)
  unfold Span.Apart ExtentInfo.span at h2
  dsimp only at h2
  omega

/-- An index whose extents share the data area out is valid. -/
theorem validate_ok {index : DeviceIndex} {dataEnd : Nat} (h : ExtentsOk (spans index.files) dataEnd) :
    index.validate dataEnd = (index, []) := by
  have hmem : ∀ e ∈ index.files.entries, e.2.span ∈ spans index.files := fun e he =>
    List.mem_map_of_mem (List.mem_map_of_mem (f := fun e : Sigma fun _ : Key => ExtentInfo => e.2) he)
  have hbad : index.outOfBounds dataEnd = [] := by
    unfold DeviceIndex.outOfBounds
    rw [List.map_eq_nil_iff, List.filter_eq_nil_iff]
    intro e he
    obtain ⟨h1, h2, h3⟩ := h.inside _ (hmem e he)
    have h4 : satAdd e.2.offset e.2.paddedSize ≤ dataEnd := Nat.le_trans (Nat.min_le_left _ _) h2
    simp only [ExtentInfo.inBounds, Bool.not_eq_true, Bool.not_eq_false', Bool.and_eq_true, decide_eq_true_eq]
    exact ⟨⟨h1, h3⟩, h4⟩
  have hover : overlapKeys (sortEntries index.files.entries) = [] := by
    apply overlapKeys_nil
    apply sortEntries_packed
    · intro e he
      exact (h.inside _ (hmem e he)).2.2
    · have := h.apart
      rw [spans, FMap.values, List.map_map, List.pairwise_map] at this
      exact this
  unfold DeviceIndex.validate
  rw [hbad]
  dsimp only
  have hw : index.without [] = index := rfl
  rw [hw, hover, hw]
  rfl

/-! ## The scan -/

variable [Crates]

omit [Crates] in
/-- What the check of an entry says holds of every entry. -/
theorem wp_scan {check : ExtentInfo → IoM (Option String)} {files : FMap ExtentInfo} {io : DeviceIo}
    (R : ExtentInfo → Option String → Prop)
    (hcheck : ∀ e ∈ files.entries, ∀ io1, Aged io io1 →
      Prog.wp (check e.2) (fun r io2 => Aged io io2 ∧ R e.2 r) (fun _ _ => False) io1) :
    Prog.wp (scan check files)
      (fun stale io' => Aged io io' ∧ ∀ e ∈ files.entries, ∃ r, R e.2 r ∧ (e.1 ∈ stale.map (·.1) ↔ r.isSome))
      (fun _ _ => False) io := by
  unfold scan
  refine Prog.wp_mono (Prog.wp_foldlM (fun pre (stale : List (Key × String)) io' => Aged io io' ∧
    (∀ k ∈ stale.map (·.1), k ∈ pre.map (·.1)) ∧
    ∀ e ∈ pre, ∃ r, R e.2 r ∧ (e.1 ∈ stale.map (·.1) ↔ r.isSome)) files.entries ⟨Aged.refl, by simp, by simp⟩ ?_)
    (fun stale io' h => ⟨h.1, h.2.2⟩) (fun _ _ h => h)
  rintro pre e post stale io1 hl ⟨ha, hsub, hpre⟩
  have hfresh : e.1 ∉ pre.map (·.1) := by
    have hnd := files.nodupKeys
    rw [hl] at hnd
    have : (pre.map (·.1) ++ e.1 :: post.map (·.1)).Nodup := by simpa [List.NodupKeys, List.keys] using hnd
    exact fun hm => (List.nodup_append.mp this).2.2 _ hm _ (by simp) rfl
  rw [Prog.wp_bind]
  refine Prog.wp_mono (hcheck e (by rw [hl]; simp) io1 ha) ?_ (fun _ _ h => h)
  rintro r io2 ⟨ha2, hr⟩
  cases r with
  | some reason =>
    refine ⟨ha2, ?_, ?_⟩
    · intro k hk
      rw [List.map_append, List.mem_append] at hk
      rcases hk with hk | hk
      · simp [hsub k hk]
      · simp at hk; simp [hk]
    · intro f hf
      rcases List.mem_append.mp hf with hf | hf
      · obtain ⟨r, h1, h2⟩ := hpre f hf
        refine ⟨r, h1, ?_⟩
        rw [← h2, List.map_append, List.mem_append]
        have hne : f.1 ≠ e.1 := fun he => hfresh (by rw [← he]; exact List.mem_map_of_mem hf)
        simp [hne]
      · rw [List.mem_singleton.mp hf]
        exact ⟨some reason, hr, by simp⟩
  | none =>
    refine ⟨ha2, ?_, ?_⟩
    · intro k hk
      simp [hsub k hk]
    · intro f hf
      rcases List.mem_append.mp hf with hf | hf
      · exact hpre f hf
      · rw [List.mem_singleton.mp hf]
        refine ⟨none, hr, ?_⟩
        simp only [Option.isSome_none, Bool.false_eq_true, iff_false]
        exact fun hm => hfresh (hsub _ hm)

theorem wp_checkBlock0 {io io1 : DeviceIo} (info : ExtentInfo) (ha : Aged io io1) :
    Prog.wp (checkBlock0 info) (fun _ io2 => Aged io io2) (fun _ _ => False) io1 := by
  unfold checkBlock0
  rw [Prog.wp_bind, Prog.wp_attempt]
  refine Prog.wp_mono (wp_pread _ _) ?_ ?_
  · rintro b io2 ⟨-, h⟩
    dsimp only
    split <;> exact ha.trans h
  · rintro e io2 ⟨h, -⟩
    exact ha.trans h

/-- The extent decodes to a payload with the recorded CRC. -/
def Intact (d : Disk) (info : ExtentInfo) : Prop :=
  ∃ p, decodeBlocks (d.read info.offset (numBlocks info.size * blockAlignment)) info.size = .ok p ∧ crc32c p = info.crc32c

theorem wp_checkExtent {io io1 : DeviceIo} (info : ExtentInfo) (ha : Aged io io1) :
    Prog.wp (checkExtent info)
      (fun r io2 => Aged io io2 ∧ (r = none → Intact io.dev info) ∧
        (Calm io info.offset (numBlocks info.size * blockAlignment) → numBlocks info.size * blockAlignment ≤ u64Max →
          Intact io.dev info → r = none))
      (fun _ _ => False) io1 := by
  unfold checkExtent
  cases hp : paddedExtentSize info.size with
  | error e =>
    refine ⟨ha, by simp, fun _ hmax => ?_⟩
    unfold paddedExtentSize at hp
    rw [if_pos hmax] at hp
    exact absurd hp (by simp)
  | ok padded =>
    obtain ⟨rfl, -⟩ := paddedExtentSize_ok hp
    rw [Prog.wp_bind, Prog.wp_attempt]
    refine Prog.wp_mono (wp_pread _ _) ?_ ?_
    · rintro b io2 ⟨hb, h⟩
      rw [ha.dev_eq] at hb
      dsimp only
      rw [hb]
      unfold Intact
      split
      · next e he =>
        refine ⟨ha.trans h, by simp, ?_⟩
        rintro - - ⟨p, hp, -⟩
        rw [he] at hp
        exact absurd hp (by simp)
      · next p hp =>
        split
        · next hc => exact ⟨ha.trans h, fun _ => ⟨p, hp, hc⟩, fun _ _ _ => rfl⟩
        · next hc =>
          refine ⟨ha.trans h, by simp, ?_⟩
          rintro - - ⟨q, hq, hqc⟩
          rw [hp] at hq
          obtain rfl := Except.ok.inj hq
          exact absurd hqc hc
    · rintro e io2 ⟨h, hc⟩
      exact ⟨ha.trans h, by simp, fun hcalm => absurd (hcalm.aged ha) hc⟩

theorem wp_scanMode {io : DeviceIo} (mode : OpenMode) (files : FMap ExtentInfo) :
    Prog.wp (scanMode mode files) (fun stale io' => Aged io io' ∧ (mode = .skipVerify → stale = [])) (fun _ _ => False) io := by
  unfold scanMode
  cases mode with
  | default =>
    refine Prog.wp_mono (wp_scan (fun _ _ => True) fun e _ io1 ha => ?_) (fun _ _ h => ⟨h.1, by simp⟩) (fun _ _ h => h)
    exact Prog.wp_mono (wp_checkBlock0 e.2 ha) (fun _ _ h => ⟨h, trivial⟩) (fun _ _ h => h)
  | fullVerify =>
    refine Prog.wp_mono (wp_scan (fun _ _ => True) fun e _ io1 ha => ?_) (fun _ _ h => ⟨h.1, by simp⟩) (fun _ _ h => h)
    exact Prog.wp_mono (wp_checkExtent e.2 ha) (fun _ _ h => ⟨h.1, trivial⟩) (fun _ _ h => h)
  | skipVerify => exact ⟨Aged.refl, fun _ => rfl⟩

/-- On a device whose calls succeed, a full scan finds exactly the entries that are not intact. -/
theorem wp_scan_full {io : DeviceIo} {files : FMap ExtentInfo}
    (hcalm : ∀ k info, files.lookup k = some info → Calm io info.offset (numBlocks info.size * blockAlignment) ∧
      numBlocks info.size * blockAlignment ≤ u64Max) :
    Prog.wp (scanMode .fullVerify files)
      (fun stale io' => Aged io io' ∧ ∀ k info, files.lookup k = some info →
        (k ∈ stale.map (·.1) ↔ ¬ Intact io.dev info)) (fun _ _ => False) io := by
  have hmem : ∀ e ∈ files.entries, files.lookup e.1 = some e.2 := fun e he => by
    rw [← Option.mem_def, AList.mem_lookup_iff]
    exact he
  refine Prog.wp_mono (wp_scan (fun info r => r.isSome = true ↔ ¬ Intact io.dev info) fun e he io1 ha => ?_) ?_
    (fun _ _ h => h)
  · refine Prog.wp_mono (wp_checkExtent e.2 ha) ?_ (fun _ _ h => h)
    rintro r io2 ⟨h1, h2, h3⟩
    obtain ⟨hc, hmax⟩ := hcalm e.1 e.2 (hmem e he)
    refine ⟨h1, ?_⟩
    cases r with
    | none => simpa using h2 rfl
    | some reason =>
      simp only [Option.isSome_some, true_iff]
      exact fun hi => absurd (h3 hc hmax hi) (by simp)
  · rintro stale io' ⟨ha, hall⟩
    refine ⟨ha, fun k info hk => ?_⟩
    rw [← Option.mem_def, AList.mem_lookup_iff] at hk
    obtain ⟨r, h1, h2⟩ := hall ⟨k, info⟩ hk
    rw [h2, h1]

/-! ## Open -/

structure Opened (io : DeviceIo) (mode : OpenMode) (readOnly : Bool) (s : Store) (sb : Superblock) (l : Layout)
    (loaded : DeviceIndex) (stale : List (Key × String)) : Prop where
  committed : committed io.dev = .ok (sb, l, loaded)
  skip : mode = .skipVerify → stale = []
  unprotected : readOnly = false → sb.flags &&& flagWriteProtect = 0
  maxKeyLength : sb.maxKeyLength ≠ 0
  store : ∃ c io', Compression.fromU8 sb.compression = .ok c ∧ Aged io io' ∧
    s = openedStore sb l c readOnly (loaded.recover l.regionA stale readOnly (sb.txnId + 1)).1
      (loaded.recover l.regionA stale readOnly (sb.txnId + 1)).2 io'

theorem wp_openImpl {io : DeviceIo} (mode : OpenMode) (readOnly : Bool) :
    Prog.wp (openImpl mode readOnly) (fun s _ => ∃ sb l loaded stale, Opened io mode readOnly s sb l loaded stale)
      (fun _ _ => True) io := by
  unfold openImpl
  rw [Prog.wp_bind]
  refine Prog.wp_mono wp_loadIndex ?_ (fun _ _ _ => trivial)
  rintro ⟨sb, l, loaded⟩ io1 ⟨hc, ha1⟩
  dsimp only
  rw [Prog.wp_bind]
  refine Prog.wp_mono (wp_scanMode mode _) ?_ (fun _ _ _ => trivial)
  rintro stale io2 ⟨ha2, hskip⟩
  rw [Prog.wp_bind, Prog.wp_failIf]
  refine ⟨fun _ => trivial, fun hprot => ?_⟩
  rw [Prog.wp_bind, Prog.wp_failIf]
  refine ⟨fun _ => trivial, fun hkey => ?_⟩
  rw [Prog.wp_bind, wp_ofExcept]
  split
  · next c hcomp =>
    refine ⟨sb, l, loaded, stale, hc, hskip, fun hro => ?_, hkey, c, io2, hcomp, ha1.trans ha2, rfl⟩
    by_contra hne
    exact hprot ⟨hro, hne⟩
  · trivial

/-- An open of a device whose index loads, and in which the scan runs through. -/
theorem openImpl_returns {io : DeviceIo} {sb : Superblock} {l : Layout} {loaded : DeviceIndex} {mode : OpenMode} {readOnly : Bool}
    {c : Compression} {Q : List (Key × String) → DeviceIo → Prop} (hload : loadIndex.exec io = (.ok (sb, l, loaded), io))
    (hscan : Prog.wp (scanMode mode (loaded.validate l.regionA).1.files) Q (fun _ _ => False) io)
    (hprot : sb.flags &&& flagWriteProtect = 0) (hmax : sb.maxKeyLength ≠ 0) (hcomp : Compression.fromU8 sb.compression = .ok c) :
    ∃ stale io', Q stale io' ∧ (openImpl mode readOnly).exec io =
      (.ok (openedStore sb l c readOnly (loaded.recover l.regionA stale readOnly (sb.txnId + 1)).1
        (loaded.recover l.regionA stale readOnly (sb.txnId + 1)).2 io'), io') := by
  obtain ⟨stale, io', hrun, hQ⟩ := Prog.wp_returns hscan fun _ _ h => h
  refine ⟨stale, io', hQ, ?_⟩
  unfold openImpl
  rw [Prog.exec_bind, hload]
  dsimp only
  rw [Prog.exec_bind, hrun]
  dsimp only
  rw [Prog.exec_bind, Prog.exec_failIf, if_neg fun h => h.2 hprot]
  dsimp only
  rw [Prog.exec_bind, Prog.exec_failIf, if_neg hmax]
  dsimp only
  rw [hcomp]
  rfl

end ObjStr.Raw
