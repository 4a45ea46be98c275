/-
  ObjStr.Raw.Space — who owns which blocks of the data area.

  Every block belongs to an indexed file, to the call in progress, or to the free list.
  `SpaceInv s held` says so, where `held` are the extents the running call has allocated and
  not yet indexed or freed: files and held extents are block-aligned, inside the data area and
  pairwise apart, and the free list is the canonical list of what is left. Between calls
  nothing is held, and the free list is the one `rebuild_free_list` computes
  (`SpaceInv.freeList_eq`).

  The index primitives move extents between the three: `allocExtent` takes one from the free
  list, `freeExtent` gives it back, `insertFile` and `removeFile` move it into and out of the
  index. Every call of the store is a sequence of these, so every call keeps the invariant,
  also when it fails (`Op.space`).
-/

import Mathlib.Tactic.Tauto
import ObjStr.Raw.Persist

namespace ObjStr.Raw

open ObjStr.Lib

/-! ## The partition of the data area -/

/-- `used` and the allocator's free list share the data area out between them. -/
structure Partition (a : ExtentAllocator) (used : List Span) (dataEnd : Nat) : Prop where
  ok : ExtentsOk used dataEnd
  tidy : a.Tidy dataStart dataEnd
  covers : ∀ x, Covers a.freeList x ↔ dataStart ≤ x ∧ x < dataEnd ∧ ¬ Covers used x
  max : dataEnd ≤ u64Max

theorem ExtentsOk.perm {l m : List Span} {dataEnd : Nat} (h : ExtentsOk l dataEnd) (hp : l.Perm m) : ExtentsOk m dataEnd :=
  ⟨fun e he => h.aligned e (hp.mem_iff.mpr he), fun e he => h.inside e (hp.mem_iff.mpr he),
    (hp.pairwise_iff (fun h => Span.Apart.symm h)).mp h.apart⟩

theorem ExtentsOk.sublist {l m : List Span} {dataEnd : Nat} (h : ExtentsOk l dataEnd) (hs : m.Sublist l) :
    ExtentsOk m dataEnd :=
  ⟨fun e he => h.aligned e (hs.subset he), fun e he => h.inside e (hs.subset he), h.apart.sublist hs⟩

theorem Partition.perm {a : ExtentAllocator} {l m : List Span} {dataEnd : Nat} (h : Partition a l dataEnd)
    (hp : l.Perm m) : Partition a m dataEnd :=
  ⟨h.ok.perm hp, h.tidy, fun x => by rw [h.covers x, covers_perm hp], h.max⟩

theorem Partition.alloc {a a' : ExtentAllocator} {used : List Span} {dataEnd n off : Nat} (h : Partition a used dataEnd)
    (hn : n % blockAlignment = 0) (hpos : 0 < n) (ha : a.alloc n = .ok (off, a')) :
    Partition a' ((off, n) :: used) dataEnd := by
  obtain ⟨ht, hoff, hlo, hhi, hsub, hcov⟩ := ExtentAllocator.alloc_spec h.tidy hn ha
  have hfresh : ∀ x, Span.Has (off, n) x → ¬ Covers used x := fun x hx => ((h.covers x).mp (hsub x hx)).2.2
  refine ⟨⟨?_, ?_, ?_⟩, ht, ?_, h.max⟩
  · intro e he
    rcases List.mem_cons.mp he with rfl | he
    · exact ⟨hoff, hn⟩
    · exact h.ok.aligned e he
  · intro e he
    rcases List.mem_cons.mp he with rfl | he
    · exact ⟨hlo, hhi, hpos⟩
    · exact h.ok.inside e he
  · exact List.pairwise_cons.mpr
      ⟨apart_of_not_covers hpos (fun e he => (h.ok.inside e he).2.2) hfresh, h.ok.apart⟩
  · intro x
    rw [hcov x, h.covers x, covers_cons]
    tauto

theorem Partition.free {a : ExtentAllocator} {used : List Span} {dataEnd n off : Nat}
    (h : Partition a ((off, n) :: used) dataEnd) : Partition (a.free off n) used dataEnd := by
  obtain ⟨hlo, hhi, hpos⟩ := h.ok.inside (off, n) (by simp)
  have hfree : ∀ x, Span.Has (off, n) x → ¬ Covers a.freeList x := by
    intro x hx hc
    exact ((h.covers x).mp hc).2.2 ((covers_cons _ _ _).mpr (Or.inl hx))
  obtain ⟨ht, hcov⟩ := ExtentAllocator.free_spec h.tidy h.max (h.ok.aligned (off, n) (by simp)).1 hpos hlo hhi hfree
  have hap := (List.pairwise_cons.mp h.ok.apart).1
  refine ⟨h.ok.sublist (List.sublist_cons_self _ _), ht, ?_, h.max⟩
  intro x
  rw [hcov x, h.covers x, covers_cons]
  constructor
  · rintro (⟨h1, h2, h3⟩ | hx)
    · exact ⟨h1, h2, fun hc => h3 (Or.inr hc)⟩
    · refine ⟨Nat.le_trans hlo hx.1, Nat.lt_of_lt_of_le hx.2 hhi, ?_⟩
      rintro ⟨e, he, hex⟩
      exact (hap e he).not_both hx hex
  · rintro ⟨h1, h2, h3⟩
    by_cases hx : Span.Has (off, n) x
    · exact Or.inr hx
    · exact Or.inl ⟨h1, h2, by tauto⟩

/-! ## Extents of the index -/

/-- A tidy free list restores to itself. -/
theorem ExtentAllocator.Tidy.fromFreeList {a : ExtentAllocator} {lo hi : Nat} (h : a.Tidy lo hi) :
    ExtentAllocator.fromFreeList a.freeList lo hi = a := by
  have hsort : sortByOffset a.freeList = a.freeList := by
    apply List.Pairwise.insertionSort_eq
    exact h.canon.sep.imp fun {e f} hlt => by omega
  have hpos : a.freeList.filter (fun e => decide (0 < e.2)) = a.freeList := by
    rw [List.filter_eq_self]
    exact fun e he => by simpa using h.canon.pos e he
  have hin : a.freeList.filter (fun e => decide (lo ≤ e.1) && decide (satAdd e.1 e.2 ≤ hi)) = a.freeList := by
    rw [List.filter_eq_self]
    intro e he
    have h1 := h.inside e he
    have h2 : satAdd e.1 e.2 ≤ hi := Nat.le_trans (Nat.min_le_left _ _) h1.2
    simp [h1.1, h2]
  have hal := h.alignment_eq
  unfold ExtentAllocator.fromFreeList
  rw [hsort, hpos, hin, ← hal]

def spans (files : FMap ExtentInfo) : List Span := files.values.map ExtentInfo.span

/-- The allocator made from extents that share the data area out. -/
theorem partition_rebuilt {files : FMap ExtentInfo} {dataEnd : Nat} (h : ExtentsOk (spans files) dataEnd) (hmax : dataEnd ≤ u64Max) :
    Partition (.fromFreeList (rebuildFreeList files dataEnd).2 dataStart dataEnd) (spans files) dataEnd := by
  have hperm : (sortByOffset (spans files)).Perm (spans files) := List.perm_insertionSort _ _
  have hpacked : Packed dataStart dataEnd (sortByOffset (spans files)) := packed_sortByOffset h.inside h.apart
  have hcov : ∀ x, Covers (gaps dataEnd dataStart (sortByOffset (spans files))) x ↔
      dataStart ≤ x ∧ x < dataEnd ∧ ¬ Covers (spans files) x := fun x => by
    rw [covers_gaps hpacked x, covers_perm hperm]
  have hfree : (rebuildFreeList files dataEnd).2 = gaps dataEnd dataStart (sortByOffset (spans files)) :=
    rebuildFreeList_eq h (gaps_canon hpacked) hcov
  have htidy : ExtentAllocator.Tidy ⟨gaps dataEnd dataStart (sortByOffset (spans files)), blockAlignment⟩ dataStart dataEnd := by
    refine ⟨rfl, gaps_canon hpacked, fun g hg => ?_, gaps_inside hpacked⟩
    rcases gaps_start hg with hstart | ⟨e, he, hend⟩
    · rw [hstart]
      decide
    · have hal := h.aligned e (hperm.mem_iff.mp he)
      rw [hend, Nat.add_mod, hal.1, hal.2]
      rfl
  rw [hfree, htidy.fromFreeList]
  exact ⟨h, htidy, hcov, hmax⟩

theorem entries_insert {K V : Type} [DecidableEq K] (m : AList fun _ : K => V) (k : K) (v : V) :
    (m.insert k v).entries = ⟨k, v⟩ :: (m.erase k).entries := rfl

/-- An entry and the rest of the map. -/
theorem entries_erase_perm {K V : Type} [DecidableEq K] {m : AList fun _ : K => V} {k : K} {v : V} (h : m.lookup k = some v) :
    m.entries.Perm (⟨k, v⟩ :: (m.erase k).entries) := by
  have hmem : (⟨k, v⟩ : Sigma fun _ : K => V) ∈ m.entries := by
    rw [← Option.mem_def, AList.mem_lookup_iff] at h
    exact h
  have hk : k ∈ m.entries.keys := List.mem_keys_of_mem hmem
  obtain ⟨b, l1, l2, h1, h2, h3⟩ := List.exists_of_kerase hk
  have hb : b = v := by
    have : (⟨k, b⟩ : Sigma fun _ : K => V) ∈ m.entries := by rw [h2]; simp
    have hl : m.lookup k = some b := by rwa [← Option.mem_def, AList.mem_lookup_iff]
    rw [h] at hl
    exact (Option.some.inj hl).symm
  subst hb
  have he : (m.erase k).entries = l1 ++ l2 := h3
  rw [he, h2]
  exact List.perm_middle

theorem erase_of_lookup_none {K V : Type} [DecidableEq K] {m : AList fun _ : K => V} {k : K} (h : m.lookup k = none) :
    (m.erase k).entries = m.entries := by
  have hk : k ∉ m.entries.keys := fun hc => AList.lookup_eq_none.mp h hc
  exact List.kerase_of_notMem_keys hk

theorem spans_perm {files : FMap ExtentInfo} {k : Key} {info : ExtentInfo} (h : files.lookup k = some info) :
    (spans files).Perm (info.span :: spans (files.erase k)) := by
  have := ((entries_erase_perm h).map fun e => e.2).map ExtentInfo.span
  simpa [spans, FMap.values] using this

theorem spans_insert (files : FMap ExtentInfo) (k : Key) (info : ExtentInfo) :
    spans (files.insert k info) = info.span :: spans (files.erase k) := by
  simp only [spans, FMap.values, entries_insert, List.map_cons]

theorem values_erase_subset (files : FMap ExtentInfo) (k : Key) {e : ExtentInfo} (h : e ∈ FMap.values (files.erase k)) :
    e ∈ files.values := by
  unfold FMap.values at *
  obtain ⟨x, hx, rfl⟩ := List.mem_map.mp h
  exact List.mem_map_of_mem ((List.kerase_sublist k files.entries).subset hx)

theorem mem_values {files : FMap ExtentInfo} {k : Key} {info : ExtentInfo} (h : files.lookup k = some info) :
    info ∈ files.values := by
  rw [← Option.mem_def, AList.mem_lookup_iff] at h
  exact List.mem_map_of_mem (f := fun e : Sigma fun _ : Key => ExtentInfo => e.2) h

/-! ## The invariant -/

/-- Files, held extents and the free list share the data area out. -/
structure SpaceInv (s : Store) (held : List Span) : Prop where
  partition : ∃ a, s.allocator = some a ∧ Partition a (held ++ spans s.files) s.dataEnd
  /-- No entry is empty. -/
  sized : ∀ e ∈ s.files.values, 0 < e.size

theorem SpaceInv.congr {s t : Store} {held : List Span} (h : SpaceInv s held) (ha : t.allocator = s.allocator)
    (hf : t.files = s.files) (he : t.indexRegionA = s.indexRegionA) : SpaceInv t held := by
  obtain ⟨⟨a, h1, h2⟩, h3⟩ := h
  refine ⟨⟨a, by rw [ha, h1], ?_⟩, by rw [hf]; exact h3⟩
  rw [hf, Store.dataEnd, he]
  exact h2

theorem SpaceInv.perm {s : Store} {held held' : List Span} (h : SpaceInv s held) (hp : held.Perm held') :
    SpaceInv s held' := by
  obtain ⟨⟨a, h1, h2⟩, h3⟩ := h
  exact ⟨⟨a, h1, h2.perm (hp.append_right _)⟩, h3⟩

/-- Between calls the free list is the one rebuilt from the index. -/
theorem SpaceInv.freeList_eq {s : Store} (h : SpaceInv s []) :
    ∃ a, s.allocator = some a ∧ a.freeList = (rebuildFreeList s.files s.dataEnd).2 := by
  obtain ⟨⟨a, h1, h2⟩, -⟩ := h
  rw [List.nil_append] at h2
  exact ⟨a, h1, (rebuildFreeList_eq h2.ok h2.tidy.canon h2.covers).symm⟩

/-- Between calls, rebuilding the allocator from the index gives the allocator. -/
theorem SpaceInv.rebuilt {s : Store} (h : SpaceInv s []) :
    s.allocator = some (.fromFreeList (rebuildFreeList s.files s.dataEnd).2 dataStart s.dataEnd) := by
  obtain ⟨⟨a, h1, h2⟩, -⟩ := h
  rw [List.nil_append] at h2
  rw [h1, rebuildFreeList_eq h2.ok h2.tidy.canon h2.covers, h2.tidy.fromFreeList]

theorem SpaceInv.extents {s : Store} {held : List Span} (h : SpaceInv s held) : ExtentsOk (spans s.files) s.dataEnd := by
  obtain ⟨⟨a, -, h2⟩, -⟩ := h
  exact h2.ok.sublist (List.sublist_append_right _ _)

theorem SpaceInv.freeExtent {s : Store} {held : List Span} {off n : Nat} (h : SpaceInv s ((off, n) :: held)) :
    SpaceInv (s.freeExtent off n) held := by
  obtain ⟨⟨a, h1, h2⟩, h3⟩ := h
  exact ⟨⟨a.free off n, by simp [Store.freeExtent, h1], Partition.free h2⟩, h3⟩

/-- An entry leaves the index and its extent is held. -/
theorem SpaceInv.takeFile {s : Store} {held : List Span} {k : Key} {info : ExtentInfo} (h : SpaceInv s held)
    (hk : s.files.lookup k = some info) : SpaceInv { s with files := s.files.erase k } (info.span :: held) := by
  obtain ⟨⟨a, h1, h2⟩, h3⟩ := h
  refine ⟨⟨a, h1, h2.perm ?_⟩, fun e he => h3 e (values_erase_subset _ _ he)⟩
  exact ((spans_perm hk).append_left held).trans List.perm_middle

theorem SpaceInv.removeFile {s : Store} {held : List Span} (h : SpaceInv s held) (k : Key) :
    SpaceInv (s.removeFile k) held := by
  unfold Store.removeFile
  cases hk : s.files.lookup k with
  | none => exact h
  | some old => exact ((h.takeFile hk).freeExtent).congr rfl rfl rfl

theorem lookup_removeFile (s : Store) (k : Key) : (s.removeFile k).files.lookup k = none := by
  unfold Store.removeFile
  cases hk : s.files.lookup k with
  | none => exact hk
  | some old => exact AList.lookup_erase _ _

variable [Crates]

/-- A held extent goes into the index, under a key that has none. -/
theorem SpaceInv.insertFile {s : Store} {held : List Span} {k : Key} {info : ExtentInfo} (h : SpaceInv s (info.span :: held))
    (hk : s.files.lookup k = none) (hsz : 0 < info.size) : SpaceInv (s.insertFile k info) held := by
  obtain ⟨⟨a, h1, h2⟩, h3⟩ := h
  have hf : (s.insertFile k info).files = s.files.insert k info := rfl
  have he : FMap.values (s.files.erase k) = s.files.values := by unfold FMap.values; rw [erase_of_lookup_none hk]
  refine ⟨⟨a, h1, ?_⟩, ?_⟩
  · rw [hf, spans_insert, spans, he]
    exact h2.perm List.perm_middle.symm
  · intro e hm
    rw [hf, FMap.values, entries_insert, erase_of_lookup_none hk] at hm
    rcases List.mem_cons.mp hm with rfl | hm
    · exact hsz
    · exact h3 e hm

theorem SpaceInv.replaceFile {s : Store} {held : List Span} {k : Key} {info : ExtentInfo}
    (h : SpaceInv s (info.span :: held)) (hsz : 0 < info.size) : SpaceInv (s.replaceFile k info) held :=
  ((h.removeFile k).congr (t := { s.removeFile k with tombstones := (s.removeFile k).tombstones.erase k }) rfl rfl
    rfl).insertFile (lookup_removeFile s k) hsz

theorem SpaceInv.dropFile {s : Store} {held : List Span} (h : SpaceInv s held) (k : Key) : SpaceInv (s.dropFile k) held := by
  unfold Store.dropFile
  split
  · exact (h.removeFile k).congr rfl rfl rfl
  · exact h

theorem SpaceInv.dropParts {s : Store} {held : List Span} (h : SpaceInv s held) (ks : List Key) :
    SpaceInv (s.dropParts ks) held := by
  unfold Store.dropParts
  induction ks generalizing s with
  | nil => exact h
  | cons k ks ih => exact ih (h.dropFile k)

end ObjStr.Raw
