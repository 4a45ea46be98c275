/-
  ObjStr.Raw.Overlaps — an index with overlapping extents, as `open_impl` repairs it (`store.rs`).

  Extents outside the data area are removed first. The others are sorted by offset, and an extent is removed if the one
  before it reaches past its start, be that one removed or not: what is left are the fronts of the runs.
  - `open_repairs_iff`: what is left is disjoint, what was removed meets some of it, and the rebuilt free list is its
    complement, if and only if every run is covered.
  - `a_long_extent_survives_twice_overlapped`: a long extent over two short ones that do not touch.
-/

import ObjStr.Lib.Runs
import ObjStr.Raw.Reachable

namespace ObjStr.Raw

open ObjStr.Lib

abbrev IndexEntry := Sigma fun _ : Key => ExtentInfo

def IndexEntry.start (e : IndexEntry) : Nat := e.2.offset

def IndexEntry.stop (e : IndexEntry) : Nat := e.2.offset + e.2.paddedSize

def DeviceIndex.inOrder (loaded : DeviceIndex) (dataEnd : Nat) : List IndexEntry :=
  sortEntries (loaded.without (loaded.outOfBounds dataEnd)).files.entries

/-- What validation is for: the extents that are left lie in the data area and are disjoint, an entry that was removed though
    it lies there overlaps one that is left, and the rebuilt free list has the addresses that no extent has. -/
structure DeviceIndex.Repaired (loaded : DeviceIndex) (dataEnd : Nat) : Prop where
  inside : ∀ e ∈ spans (loaded.validate dataEnd).1.files, dataStart ≤ e.1 ∧ e.1 + e.2 ≤ dataEnd ∧ 0 < e.2
  disjoint : (spans (loaded.validate dataEnd).1.files).Pairwise Span.Apart
  removed : ∀ k info, loaded.files.lookup k = some info → info.inBounds dataEnd = true →
    (loaded.validate dataEnd).1.files.lookup k = none →
      ∃ k' info', (loaded.validate dataEnd).1.files.lookup k' = some info' ∧ ¬ info.span.Apart info'.span
  free : ∀ x, Covers (rebuildFreeList (loaded.validate dataEnd).1.files dataEnd).2 x ↔
    dataStart ≤ x ∧ x < dataEnd ∧ ¬ Covers (spans (loaded.validate dataEnd).1.files) x

/-! ## What is removed -/

/-- An entry is removed if its neighbour reaches past its start. -/
theorem overlapKeys_eq (l : List IndexEntry) :
    overlapKeys l = (others (runs IndexEntry.start IndexEntry.stop l)).map Sigma.fst := by
  induction l with
  | nil => rfl
  | cons a l ih =>
    cases l with
    | nil => rfl
    | cons b l =>
      obtain ⟨os, more, hruns⟩ := head_runs IndexEntry.start IndexEntry.stop b l
      rw [hruns] at ih
      have hnext : runs IndexEntry.start IndexEntry.stop (a :: b :: l) =
          if b.start < a.stop then (a, b :: os) :: more else (a, []) :: (b, os) :: more := by
        rw [runs, hruns]
      rw [hnext]
      unfold overlapKeys
      rw [ih]
      unfold IndexEntry.start IndexEntry.stop others
      split <;> rfl

theorem mem_inOrder_iff {loaded : DeviceIndex} {dataEnd : Nat} {e : IndexEntry} :
    e ∈ loaded.inOrder dataEnd ↔ loaded.files.lookup e.1 = some e.2 ∧ e.2.inBounds dataEnd = true := by
  have hperm : (loaded.inOrder dataEnd).Perm (loaded.without (loaded.outOfBounds dataEnd)).files.entries :=
    List.perm_insertionSort _ _
  have hbad : e.1 ∈ loaded.outOfBounds dataEnd ↔ ∃ info, loaded.files.lookup e.1 = some info ∧ info.inBounds dataEnd = false := by
    unfold DeviceIndex.outOfBounds
    rw [List.mem_map]
    constructor
    · intro h
      obtain ⟨f, hf, hk⟩ := h
      obtain ⟨hmem, hout⟩ := List.mem_filter.mp hf
      refine ⟨f.2, ?_, by simpa using hout⟩
      rw [← hk]
      exact AList.mem_lookup_iff.mpr hmem
    · intro h
      obtain ⟨info, hinfo, hout⟩ := h
      exact ⟨⟨e.1, info⟩, List.mem_filter.mpr ⟨AList.mem_lookup_iff.mp hinfo, by simpa using hout⟩, rfl⟩
  rw [hperm.mem_iff, ← AList.mem_lookup_iff, Option.mem_def, lookup_without]
  constructor
  · intro h
    split at h
    · cases h
    next hnot =>
    refine ⟨h, ?_⟩
    by_contra hout
    exact hnot (hbad.mpr ⟨e.2, h, by simpa using hout⟩)
  · intro h
    obtain ⟨hlook, hin⟩ := h
    rw [if_neg, hlook]
    intro hb
    obtain ⟨info, hinfo, hout⟩ := hbad.mp hb
    obtain rfl := Option.some.inj (hlook.symm.trans hinfo)
    rw [hin] at hout
    cases hout

theorem nodup_inOrder (loaded : DeviceIndex) (dataEnd : Nat) : ((loaded.inOrder dataEnd).map Sigma.fst).Nodup := by
  have hperm : (loaded.inOrder dataEnd).Perm (loaded.without (loaded.outOfBounds dataEnd)).files.entries :=
    List.perm_insertionSort _ _
  exact (hperm.map _).nodup_iff.mpr (loaded.without (loaded.outOfBounds dataEnd)).files.nodupKeys

/-- What is left are the fronts. -/
theorem perm_validate (loaded : DeviceIndex) (dataEnd : Nat) :
    (loaded.validate dataEnd).1.files.entries.Perm
      (fronts (runs IndexEntry.start IndexEntry.stop (loaded.inOrder dataEnd))) := by
  have hnodup := nodup_inOrder loaded dataEnd
  have hperm := perm_runs IndexEntry.start IndexEntry.stop (loaded.inOrder dataEnd)
  have hkeys := (hperm.map Sigma.fst).nodup_iff.mp hnodup
  rw [List.map_append, List.nodup_append] at hkeys
  obtain ⟨hfronts, -, hapart⟩ := hkeys
  refine (List.perm_ext_iff_of_nodup (List.Nodup.of_map Sigma.fst (AList.nodupKeys _)) (List.Nodup.of_map _ hfronts)).mpr fun e => ?_
  have hleft : e ∈ (loaded.validate dataEnd).1.files.entries ↔
      e.1 ∉ overlapKeys (loaded.inOrder dataEnd) ∧ e ∈ loaded.inOrder dataEnd := by
    have hbounded : e ∈ loaded.inOrder dataEnd ↔ (loaded.without (loaded.outOfBounds dataEnd)).files.lookup e.1 = some e.2 := by
      have hsorted : (loaded.inOrder dataEnd).Perm (loaded.without (loaded.outOfBounds dataEnd)).files.entries :=
        List.perm_insertionSort _ _
      rw [hsorted.mem_iff, ← AList.mem_lookup_iff, Option.mem_def]
    rw [← AList.mem_lookup_iff, Option.mem_def, hbounded]
    show ((loaded.without (loaded.outOfBounds dataEnd)).without (overlapKeys (loaded.inOrder dataEnd))).files.lookup e.1 = _ ↔ _
    rw [lookup_without]
    split <;> simp_all
  rw [hleft, overlapKeys_eq, hperm.mem_iff, List.mem_append]
  constructor
  · intro h
    exact h.2.resolve_right fun ho => h.1 (List.mem_map_of_mem ho)
  · intro h
    refine ⟨fun hm => ?_, .inl h⟩
    exact hapart e.1 (List.mem_map_of_mem h) e.1 hm rfl

/-! ## When it is repaired -/

theorem mem_spans_iff {files : FMap ExtentInfo} {e : Span} : e ∈ spans files ↔ ∃ k info, files.lookup k = some info ∧ info.span = e := by
  unfold spans FMap.values
  rw [List.map_map, List.mem_map]
  constructor
  · intro h
    obtain ⟨f, hf, rfl⟩ := h
    exact ⟨f.1, f.2, AList.mem_lookup_iff.mpr hf, rfl⟩
  · intro h
    obtain ⟨k, info, hk, rfl⟩ := h
    exact ⟨⟨k, info⟩, AList.mem_lookup_iff.mp hk, rfl⟩

/-- Extents in the data area of a device. -/
theorem inside_of_inBounds {info : ExtentInfo} {dataEnd : Nat} (hend : dataEnd < u64Max) (h : info.inBounds dataEnd = true) :
    dataStart ≤ info.offset ∧ info.offset + info.paddedSize ≤ dataEnd ∧ 0 < info.paddedSize := by
  unfold ExtentInfo.inBounds satAdd at h
  simp only [Bool.and_eq_true, decide_eq_true_eq] at h
  omega

theorem not_apart_iff_meets (a b : IndexEntry) : ¬ b.2.span.Apart a.2.span ↔
    Meets IndexEntry.start IndexEntry.stop a b := by
  unfold Span.Apart Meets ExtentInfo.span IndexEntry.start IndexEntry.stop at *
  dsimp only
  omega

/-- The sizes that an open derives leave room for data, short of the end of the address space. -/
theorem regionA_of_layoutOf {deviceSize : Nat} {sb : Superblock} {l : Layout} (hsize : deviceSize ≤ u64Max)
    (h : layoutOf deviceSize sb = .ok l) : dataStart ≤ l.regionA ∧ l.regionA < u64Max := by
  unfold layoutOf at h
  dsimp only at h
  have hpos : 0 < if 0 < sb.indexSlotCapacity then sb.indexSlotCapacity.toNat else indexRegionSize := by
    split
    · next hcap => exact hcap
    · decide
  generalize (if 0 < sb.indexSlotCapacity then sb.indexSlotCapacity.toNat else indexRegionSize) = capacity at h hpos
  by_cases hsmall : deviceSize < minDeviceSize capacity
  · rw [if_pos hsmall] at h
    cases h
  · rw [if_neg hsmall] at h
    obtain rfl := Except.ok.inj h
    unfold minDeviceSize superblockRegion at hsmall
    unfold dataStart superblockRegion
    dsimp only
    omega

/-- Of any index that is loaded, validation makes a disjoint one, with its complement for a free list, if and only if every
    run of its extents is covered. -/
theorem open_repairs_iff {deviceSize : Nat} {sb : Superblock} {l : Layout} (hsize : deviceSize ≤ u64Max)
    (hl : layoutOf deviceSize sb = .ok l) (loaded : DeviceIndex) :
    loaded.Repaired l.regionA ↔
      Covered IndexEntry.start IndexEntry.stop (runs IndexEntry.start IndexEntry.stop (loaded.inOrder l.regionA)) := by
  have hend := (regionA_of_layoutOf hsize hl).2
  generalize l.regionA = dataEnd at hend ⊢
  have hperm := perm_validate loaded dataEnd
  have hin : ∀ e ∈ loaded.inOrder dataEnd, dataStart ≤ e.start ∧ e.stop ≤ dataEnd ∧ e.start < e.stop := by
    intro e he
    obtain ⟨h1, h2, h3⟩ := inside_of_inBounds hend (mem_inOrder_iff.mp he).2
    unfold IndexEntry.start IndexEntry.stop
    omega
  have hord : (loaded.inOrder dataEnd).Pairwise fun a b => a.start ≤ b.start := by
    have htotal : Std.Total fun a b : IndexEntry => a.2.offset ≤ b.2.offset := ⟨fun a b => Nat.le_total _ _⟩
    have htrans : IsTrans IndexEntry fun a b => a.2.offset ≤ b.2.offset := ⟨fun _ _ _ => Nat.le_trans⟩
    exact List.pairwise_insertionSort _ _
  rw [← fronts_clean_iff hord fun e he => (hin e he).2.2]
  set rs := runs IndexEntry.start IndexEntry.stop (loaded.inOrder dataEnd) with hrs
  have hmem : ∀ e, e ∈ fronts rs ∨ e ∈ others rs → e ∈ loaded.inOrder dataEnd := fun e he => mem_runs_iff.mpr he
  have hleft : ∀ e, (loaded.validate dataEnd).1.files.lookup e.1 = some e.2 ↔ e ∈ fronts rs := fun e => by
    rw [← Option.mem_def, AList.mem_lookup_iff, hperm.mem_iff]
  have hinside : ∀ e ∈ spans (loaded.validate dataEnd).1.files, dataStart ≤ e.1 ∧ e.1 + e.2 ≤ dataEnd ∧ 0 < e.2 := by
    intro e he
    obtain ⟨k, info, hk, rfl⟩ := mem_spans_iff.mp he
    obtain ⟨-, hbounds⟩ := mem_inOrder_iff.mp (hmem ⟨k, info⟩ (.inl ((hleft ⟨k, info⟩).mp hk)))
    exact inside_of_inBounds hend hbounds
  have hdisjoint : (spans (loaded.validate dataEnd).1.files).Pairwise Span.Apart ↔
      (fronts rs).Pairwise fun a b => a.stop ≤ b.start := by
    have hspans : (spans (loaded.validate dataEnd).1.files).Pairwise Span.Apart ↔
        (fronts rs).Pairwise fun a b => Span.Apart a.2.span b.2.span := by
      unfold spans FMap.values
      rw [List.map_map, List.pairwise_map]
      exact hperm.pairwise_iff fun h => Span.Apart.symm h
    have hordFronts : (fronts rs).Pairwise fun a b => a.start ≤ b.start := hord.sublist (fronts_sublist _)
    rw [hspans]
    constructor
    · intro h
      refine (hordFronts.and h).imp_of_mem fun ha hb hab => ?_
      have hbpos := (hin _ (hmem _ (.inl hb))).2.2
      obtain ⟨hle, hapart⟩ := hab
      unfold Span.Apart ExtentInfo.span IndexEntry.start IndexEntry.stop at *
      dsimp only at hapart
      omega
    · exact fun h => h.imp fun hab => .inl hab
  constructor
  · intro h
    refine ⟨hdisjoint.mp h.disjoint, fun b hb => ?_⟩
    obtain ⟨hlook, hbounds⟩ := mem_inOrder_iff.mp (hmem b (.inr hb))
    have hgone : (loaded.validate dataEnd).1.files.lookup b.1 = none := by
      have hkey : b.1 ∈ overlapKeys (loaded.inOrder dataEnd) := by
        rw [overlapKeys_eq]
        exact List.mem_map_of_mem hb
      show ((loaded.without (loaded.outOfBounds dataEnd)).without (overlapKeys (loaded.inOrder dataEnd))).files.lookup b.1 = none
      rw [lookup_without, if_pos hkey]
    obtain ⟨k, info, hk, hmeet⟩ := h.removed b.1 b.2 hlook hbounds hgone
    have ha := (hleft ⟨k, info⟩).mp hk
    exact ⟨⟨k, info⟩, ha, (not_apart_iff_meets _ _).mp hmeet⟩
  · intro h
    have hapart := hdisjoint.mpr h.disjoint
    refine ⟨hinside, hapart, fun k info hk hbounds hgone => ?_, covers_rebuildFreeList (fun e he => ⟨(hinside e he).1, (hinside e he).2.1⟩) hapart⟩
    have hb : (⟨k, info⟩ : IndexEntry) ∈ others rs := by
      refine (mem_runs_iff.mp (mem_inOrder_iff.mpr ⟨hk, hbounds⟩)).resolve_left fun hf => ?_
      rw [(hleft ⟨k, info⟩).mpr hf] at hgone
      cases hgone
    obtain ⟨a, ha, hmeet⟩ := h.met _ hb
    exact ⟨a.1, a.2, (hleft a).mpr ha,
      (not_apart_iff_meets _ _).mpr hmeet⟩

/-! ### Three extents -/

section Sample

open Sample

def Sample.extentAt (block blocks : Nat) : ExtentInfo :=
  ⟨dataStart + block * blockAlignment, blocks * blockDataSize, blocks * blockAlignment, 0, 1, 0, 0, 0⟩

theorem Sample.layout_of_options : layoutOf options.deviceSize options.superblock = .ok ⟨16777216, 33554432, 50331648, 65536⟩ := rfl

/-- One extent over the next; the third is apart from both. -/
theorem two_extents_that_overlap_are_repaired :
    DeviceIndex.Repaired ⟨(((∅ : FMap ExtentInfo).insert "a" (extentAt 0 2)).insert "b" (extentAt 1 1)).insert "c" (extentAt 2 1), ∅⟩
      33554432 :=
  (open_repairs_iff (by decide) layout_of_options _).mpr (by decide +kernel)

/-- The second extent is removed, and its neighbour behind it is compared with it alone. -/
theorem a_long_extent_survives_twice_overlapped : ¬ ∀ (deviceSize : Nat) (sb : Superblock) (l : Layout), deviceSize ≤ u64Max →
    layoutOf deviceSize sb = .ok l → ∀ loaded : DeviceIndex, loaded.Repaired l.regionA := by
  intro h
  have hrepaired := h options.deviceSize options.superblock _ (by decide) layout_of_options
    ⟨(((∅ : FMap ExtentInfo).insert "a" (extentAt 0 3)).insert "b" (extentAt 1 1)).insert "c" (extentAt 2 1), ∅⟩
  exact absurd hrepaired.disjoint (by decide +kernel)

end Sample

end ObjStr.Raw
