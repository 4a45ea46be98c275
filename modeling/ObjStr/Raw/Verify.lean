/-
  ObjStr.Raw.Verify — `verify_all` (`store.rs`): what a report without findings says of the index, the free list and the
  device.

  Every extent is read and decoded; neighbours in the order of their offsets are compared; the free list is checked against
  itself; the sizes of the extents and of the free regions are added up. The free list is never compared with the extents.
  - `wp_verifyExtents`: no errors, if and only if every extent lies in the data area and is intact.
  - `clean_verify_is_sound_iff`: the extents and the free regions are then disjoint and cover the data area exactly, if and
    only if no free region shares an address with an extent.
  - `a_balanced_report_is_clean`: a free region on a live extent, and a gap of the same size.
-/

import ObjStr.Raw.Overlaps

namespace ObjStr.Raw

open ObjStr.Lib DeviceIo

/-! ## The report -/

/-- Status of a single extent verification; a read error is the error its text is of. -/
inductive VerifyStatus where
  | ok
  | crcMismatch (expected actual : UInt32)
  | blockCorrupt (reason : String)
  | outOfBounds
  | readError (e : RawStoreError)

structure ExtentVerifyResult where
  path : Key
  offset : Nat
  expectedSize : Nat
  status : VerifyStatus

structure VerifyReport where
  filesChecked : Nat
  filesOk : Nat
  errors : List ExtentVerifyResult
  okFiles : List ExtentVerifyResult
  overlappingExtents : List (Key × Key)
  freeListConsistent : Bool
  spaceAccounted : Bool
  totalDataRegion : Nat
  totalUsed : Nat
  totalFree : Nat

/-- `+` on `u64`, as a release build has it. -/
def wrap (n : Nat) : Nat := n % (u64Max + 1)

/-- `windows(2)` over the entries by offset: the pairs whose first reaches past the start of the second. -/
def overlappingPairs : List IndexEntry → List (Key × Key)
  | a :: b :: rest =>
    (if b.2.offset < wrap (a.2.offset + a.2.paddedSize) then [(a.1, b.1)] else []) ++ overlappingPairs (b :: rest)
  | _ => []

/-- Each region in the data area and not empty, none reaching past the start of the next. -/
def freeListConsistent (dataEnd : Nat) : List Span → Bool
  | [] => true
  | e :: rest =>
    !(e.1 < dataStart || dataEnd < satAdd e.1 e.2 || e.2 = 0) &&
      (match rest with
        | [] => true
        | f :: _ => !(f.1 < wrap (e.1 + e.2))) &&
      freeListConsistent dataEnd rest

def ExtentAllocator.freeSpace (a : ExtentAllocator) : Nat := wrap (total a.freeList)

section Verify

variable [Crates]

/-- Bounds, the CRC of each block, the CRC of the payload. -/
def verifyExtent (dataEnd : Nat) (info : ExtentInfo) : IoM VerifyStatus :=
  if info.offset < dataStart ∨ dataEnd < satAdd info.offset info.paddedSize then pure .outOfBounds
  else
    match paddedExtentSize info.size with
    | .error e => pure (.readError e)
    | .ok diskLen => do
      match ← (DeviceIo.pread info.offset diskLen).attempt with
      | .error (.panic reason) => throw (.panic reason)
      | .error e => pure (.readError e)
      | .ok raw =>
        match decodeBlocks raw info.size with
        | .error (.dataCorruption _ expected actual) => pure (.crcMismatch expected actual)
        | .error e => pure (.readError e)
        | .ok content =>
          if crc32c content ≠ info.crc32c then pure (.crcMismatch info.crc32c (crc32c content)) else pure .ok

def verifyExtents (dataEnd : Nat) (files : FMap ExtentInfo) : IoM (List ExtentVerifyResult × List ExtentVerifyResult) :=
  files.entries.foldlM (fun found e => do
    match ← verifyExtent dataEnd e.2 with
    | .ok => pure (found.1, found.2 ++ [⟨e.1, e.2.offset, e.2.size, .ok⟩])
    | status => pure (found.1 ++ [⟨e.1, e.2.offset, e.2.size, status⟩], found.2)) ([], [])

def verifyAll : StoreM VerifyReport := do
  let s ← get
  let found ← onDevice (verifyExtents s.dataEnd s.files)
  let totalDataRegion := s.dataEnd - dataStart
  let totalUsed := wrap (total (spans s.files))
  let space : Nat × Bool × Bool :=
    match s.allocator with
    | some a => (a.freeSpace, wrap (totalUsed + a.freeSpace) = totalDataRegion, freeListConsistent s.dataEnd a.freeList)
    | none => (totalDataRegion - totalUsed, true, true)
  pure {
    filesChecked := s.files.entries.length
    filesOk := found.2.length
    errors := found.1
    okFiles := found.2
    overlappingExtents := overlappingPairs (sortEntries s.files.entries)
    freeListConsistent := space.2.2
    spaceAccounted := space.2.1
    totalDataRegion := totalDataRegion
    totalUsed := totalUsed
    totalFree := space.1 }

omit [Crates] in
structure VerifyReport.Clean (r : VerifyReport) : Prop where
  errors : r.errors = []
  overlapping : r.overlappingExtents = []
  consistent : r.freeListConsistent = true
  accounted : r.spaceAccounted = true

/-- The free regions; a store without an allocator has those its index leaves. -/
def Store.freeRegions (s : Store) : List Span :=
  match s.allocator with
  | some a => a.freeList
  | none => (rebuildFreeList s.files s.dataEnd).2

/-- What an operator takes a clean report for: every payload decodes, extents and free regions are disjoint, and they cover
    the data area exactly. -/
structure Store.Sound (s : Store) : Prop where
  intact : ∀ k info, s.files.lookup k = some info → Intact s.io.dev info
  used : (spans s.files).Pairwise Span.Apart
  free : s.freeRegions.Pairwise Span.Apart
  across : ∀ x, Covers s.freeRegions x → ¬ Covers (spans s.files) x
  covers : ∀ x, Covers (spans s.files) x ∨ Covers s.freeRegions x ↔ dataStart ≤ x ∧ x < s.dataEnd

/-! ## Extents -/

/-- What the check of an extent looks for. -/
def InPlace (d : Disk) (dataEnd : Nat) (info : ExtentInfo) : Prop :=
  dataStart ≤ info.offset ∧ satAdd info.offset info.paddedSize ≤ dataEnd ∧ numBlocks info.size * blockAlignment ≤ u64Max ∧
    Intact d info

theorem wp_verifyExtent {io io1 : DeviceIo} (dataEnd : Nat) (info : ExtentInfo) (ha : Aged io io1) :
    Prog.wp (verifyExtent dataEnd info)
      (fun status io2 => Aged io io2 ∧ (status = .ok → InPlace io.dev dataEnd info) ∧
        (Calm io info.offset (numBlocks info.size * blockAlignment) → InPlace io.dev dataEnd info → status = .ok))
      (fun _ _ => ¬ Calm io info.offset (numBlocks info.size * blockAlignment)) io1 := by
  unfold verifyExtent
  split
  · next hout =>
    refine ⟨ha, nofun, fun _ h => ?_⟩
    obtain ⟨h1, h2, -⟩ := h
    omega
  next hin =>
  cases hp : paddedExtentSize info.size with
  | error e =>
    refine ⟨ha, nofun, fun _ h => ?_⟩
    unfold paddedExtentSize at hp
    rw [if_pos h.2.2.1] at hp
    cases hp
  | ok padded =>
    have hmax : numBlocks info.size * blockAlignment ≤ u64Max := by
      unfold paddedExtentSize at hp
      split at hp
      · assumption
      · cases hp
    obtain ⟨rfl, -⟩ := paddedExtentSize_ok hp
    dsimp only
    rw [Prog.wp_bind, Prog.wp_attempt]
    refine Prog.wp_mono (wp_pread _ _) ?_ ?_
    · intro raw io2 h
      obtain ⟨rfl, h2⟩ := h
      have ha2 := ha.trans h2
      rw [ha.dev_eq]
      dsimp only
      cases hd : decodeBlocks (io.dev.read info.offset (numBlocks info.size * blockAlignment)) info.size with
      | error e =>
        have hnot : ¬ InPlace io.dev dataEnd info := by
          intro h
          obtain ⟨-, -, -, p, hok, -⟩ := h
          rw [hd] at hok
          cases hok
        split
        · exact ⟨ha2, nofun, fun _ h => absurd h hnot⟩
        · exact ⟨ha2, nofun, fun _ h => absurd h hnot⟩
        · next h => cases h
      | ok content =>
        dsimp only
        by_cases hc : crc32c content = info.crc32c
        · rw [if_neg (not_not_intro hc)]
          exact ⟨ha2, fun _ => ⟨by omega, by omega, hmax, content, hd, hc⟩, fun _ _ => rfl⟩
        · rw [if_pos hc]
          refine ⟨ha2, nofun, fun _ h => ?_⟩
          obtain ⟨-, -, -, p, hok, hcrc⟩ := h
          rw [hd] at hok
          obtain rfl := Except.ok.inj hok
          exact absurd hcrc hc
    · intro e io2 h
      obtain ⟨h2, hc⟩ := h
      have hcalm : ¬ Calm io info.offset (numBlocks info.size * blockAlignment) := fun h => hc (h.aged ha)
      split
      · exact hcalm
      · exact ⟨ha.trans h2, nofun, fun h _ => absurd h hcalm⟩
      · next h => cases h

/-- Without a finding every extent is in place; without a failing call, the converse. -/
theorem wp_verifyExtents {io : DeviceIo} (dataEnd : Nat) (files : FMap ExtentInfo) :
    Prog.wp (verifyExtents dataEnd files)
      (fun found io' => Aged io io' ∧ (found.1 = [] → ∀ e ∈ files.entries, InPlace io.dev dataEnd e.2) ∧
        ((∀ e ∈ files.entries, Calm io e.2.offset (numBlocks e.2.size * blockAlignment) ∧ InPlace io.dev dataEnd e.2) →
          found.1 = []))
      (fun _ _ => ∃ e ∈ files.entries, ¬ Calm io e.2.offset (numBlocks e.2.size * blockAlignment)) io := by
  unfold verifyExtents
  refine Prog.wp_mono (Prog.wp_foldlM (fun pre found io' => Aged io io' ∧
    (found.1 = [] → ∀ e ∈ pre, InPlace io.dev dataEnd e.2) ∧
    ((∀ e ∈ files.entries, Calm io e.2.offset (numBlocks e.2.size * blockAlignment) ∧ InPlace io.dev dataEnd e.2) →
      found.1 = [])) files.entries ⟨Aged.refl, fun _ _ he => absurd he List.not_mem_nil, fun _ => rfl⟩ ?_) (fun _ _ h => h) (fun _ _ h => h)
  intro pre e post found io1 hl hinv
  obtain ⟨ha, hsound, hcomplete⟩ := hinv
  have hmem : e ∈ files.entries := by
    rw [hl]
    exact List.mem_append_right _ List.mem_cons_self
  rw [Prog.wp_bind]
  refine Prog.wp_mono (wp_verifyExtent dataEnd e.2 ha) ?_ (fun _ _ h => ⟨e, hmem, h⟩)
  intro status io2 h
  obtain ⟨ha2, hok, hback⟩ := h
  cases status with
  | ok =>
    refine ⟨ha2, fun hnone f hf => ?_, hcomplete⟩
    rcases List.mem_append.mp hf with hf | hf
    · exact hsound hnone f hf
    · rw [List.mem_singleton.mp hf]
      exact hok rfl
  | _ =>
    refine ⟨ha2, fun hnone => absurd hnone (by simp), fun hall => ?_⟩
    obtain ⟨hcalm, hplace⟩ := hall e hmem
    cases hback hcalm hplace

/-- What the findings of a report are. -/
theorem wp_verifyAll (s : Store) :
    Prog.wp verifyAll (fun report _ => (report.errors = [] → ∀ e ∈ s.files.entries, InPlace s.io.dev s.dataEnd e.2) ∧
        ((∀ e ∈ s.files.entries, Calm s.io e.2.offset (numBlocks e.2.size * blockAlignment) ∧ InPlace s.io.dev s.dataEnd e.2) →
          report.errors = []) ∧
        report.overlappingExtents = overlappingPairs (sortEntries s.files.entries) ∧
        ∀ a, s.allocator = some a → report.freeListConsistent = freeListConsistent s.dataEnd a.freeList ∧
          report.spaceAccounted = decide (wrap (wrap (total (spans s.files)) + a.freeSpace) = s.dataEnd - dataStart))
      (fun _ _ => ∃ e ∈ s.files.entries, ¬ Calm s.io e.2.offset (numBlocks e.2.size * blockAlignment)) s := by
  unfold verifyAll
  rw [Prog.wp_bind, Prog.wp_get, Prog.wp_bind, wp_onDevice]
  refine Prog.wp_mono (wp_verifyExtents s.dataEnd s.files) ?_ (fun _ _ h => h)
  intro found io1 hfound
  refine ⟨hfound.2.1, hfound.2.2, rfl, fun a ha => ?_⟩
  rw [ha]
  exact ⟨rfl, rfl⟩

/-! ## The free list -/

omit [Crates] in
theorem chain_of_overlappingPairs {l : List IndexEntry} (h : overlappingPairs l = []) (hmax : ∀ e ∈ l, e.stop ≤ u64Max) :
    l.IsChain fun a b => a.stop ≤ b.start := by
  induction l with
  | nil => exact .nil
  | cons a l ih =>
    cases l with
    | nil => exact .singleton a
    | cons b l =>
      unfold overlappingPairs at h
      obtain ⟨hpair, hrest⟩ := List.append_eq_nil_iff.mp h
      refine .cons_cons ?_ (ih hrest fun e he => hmax e (List.mem_cons_of_mem a he))
      have ha := hmax a List.mem_cons_self
      unfold IndexEntry.stop at ha ⊢
      unfold IndexEntry.start
      by_contra hlt
      rw [if_pos (by unfold wrap; rw [Nat.mod_eq_of_lt (by omega)]; omega)] at hpair
      cases hpair

omit [Crates] in
/-- A consistent free list is in order in the data area. -/
theorem packed_of_consistent {dataEnd : Nat} {l : List Span} (hend : dataEnd < u64Max)
    (h : freeListConsistent dataEnd l = true) : Packed dataStart dataEnd l := by
  have hinside : (∀ e ∈ l, dataStart ≤ e.1 ∧ e.1 + e.2 ≤ dataEnd ∧ 0 < e.2) ∧ l.IsChain fun a b => a.1 + a.2 ≤ b.1 := by
    induction l with
    | nil => exact ⟨fun _ he => absurd he List.not_mem_nil, .nil⟩
    | cons e l ih =>
      unfold freeListConsistent at h
      simp only [Bool.and_eq_true] at h
      obtain ⟨⟨hself, hnext⟩, hrest⟩ := h
      obtain ⟨hall, hchain⟩ := ih hrest
      have hself : dataStart ≤ e.1 ∧ e.1 + e.2 ≤ dataEnd ∧ 0 < e.2 := by
        simp only [Bool.not_eq_true', Bool.or_eq_false_iff, decide_eq_false_iff_not] at hself
        unfold satAdd at hself
        omega
      refine ⟨fun f hf => ?_, ?_⟩
      · rcases List.mem_cons.mp hf with rfl | hf
        · exact hself
        · exact hall f hf
      · cases l with
        | nil => exact .singleton e
        | cons f l =>
          refine .cons_cons ?_ hchain
          have hnext : ¬ f.1 < wrap (e.1 + e.2) := by simpa using hnext
          unfold wrap at hnext
          rw [Nat.mod_eq_of_lt (by omega)] at hnext
          omega
  exact ⟨hinside.1, pairwise_of_chain (fun e : Span => e.1) (fun e => e.1 + e.2) (fun e _ => Nat.le_add_right _ _) hinside.2⟩

omit [Crates] in
theorem pairwise_spans_of_sorted {files : FMap ExtentInfo}
    (h : (sortEntries files.entries).Pairwise fun a b : IndexEntry => a.stop ≤ b.start) : (spans files).Pairwise Span.Apart := by
  have hperm : (sortEntries files.entries).Perm files.entries := List.perm_insertionSort _ _
  unfold spans FMap.values
  rw [List.map_map, List.pairwise_map]
  refine (hperm.pairwise_iff fun h => Span.Apart.symm h).mp (h.imp fun hab => ?_)
  exact Or.inl hab

omit [Crates] in
/-- Extents in the data area, none of which overlaps the next one. -/
theorem apart_of_no_overlap {s : Store} (hhi : s.dataEnd < u64Max)
    (hin : ∀ e ∈ spans s.files, dataStart ≤ e.1 ∧ e.1 + e.2 ≤ s.dataEnd)
    (h : overlappingPairs (sortEntries s.files.entries) = []) : (spans s.files).Pairwise Span.Apart := by
  have hstop : ∀ e : IndexEntry, e ∈ sortEntries s.files.entries → e.stop ≤ u64Max := by
    intro e he
    have hmem : e ∈ s.files.entries := (List.perm_insertionSort _ _).mem_iff.mp he
    have := (hin e.2.span (mem_spans_iff.mpr ⟨e.1, e.2, AList.mem_lookup_iff.mpr hmem, rfl⟩)).2
    exact Nat.le_trans this (Nat.le_of_lt hhi)
  exact pairwise_spans_of_sorted (pairwise_of_chain IndexEntry.start IndexEntry.stop (fun e _ => Nat.le_add_right _ _)
    (chain_of_overlappingPairs h hstop))

omit [Crates] in
/-- Extents and free regions that share no address, and whose sizes add up to that of the data area, cover it. None of the sums
    wraps: together they do not exceed the data area. -/
theorem covers_of_accounted {used free : List Span} {dataEnd x : Nat} (hlo : dataStart ≤ dataEnd) (hhi : dataEnd < u64Max)
    (hin : ∀ e ∈ used, dataStart ≤ e.1 ∧ e.1 + e.2 ≤ dataEnd) (hused : used.Pairwise Span.Apart)
    (hfree : Packed dataStart dataEnd free) (hacross : ∀ x, Covers free x → ¬ Covers used x)
    (hsum : wrap (wrap (total used) + wrap (total free)) = dataEnd - dataStart) (hx : dataStart ≤ x) (hx' : x < dataEnd) :
    Covers used x ∨ Covers free x := by
  -- both lists together, in order and without the empty spans
  have hapart : (used.filter (fun e => 0 < e.2) ++ free).Pairwise Span.Apart := by
    refine List.pairwise_append.mpr ⟨hused.filter _, hfree.ordered.imp fun hab => .inl hab, fun e he f hf => ?_⟩
    obtain ⟨he, hpos⟩ := List.mem_filter.mp he
    exact Span.apart_of_disjoint (of_decide_eq_true hpos) (hfree.inside f hf).2.2 fun x hex hfx =>
      hacross x ⟨f, hf, hfx⟩ ⟨e, he, hex⟩
  have hinside : ∀ e ∈ used.filter (fun e => 0 < e.2) ++ free, dataStart ≤ e.1 ∧ e.1 + e.2 ≤ dataEnd ∧ 0 < e.2 := by
    intro e he
    rcases List.mem_append.mp he with he | he
    · obtain ⟨he, hpos⟩ := List.mem_filter.mp he
      exact ⟨(hin e he).1, (hin e he).2, of_decide_eq_true hpos⟩
    · exact hfree.inside e he
  have hpacked := packed_sortByOffset hinside hapart
  have hperm : (sortByOffset (used.filter (fun e => 0 < e.2) ++ free)).Perm _ := List.perm_insertionSort _ _
  have htotal := total_perm hperm
  rw [total_append, total_filter_pos] at htotal
  have hle := hpacked.total_le hlo
  have hfill : total used + total free = dataEnd - dataStart := by
    rw [htotal] at hle
    have hwrap : ∀ n, n ≤ dataEnd - dataStart → wrap n = n := fun n hn => Nat.mod_eq_of_lt (by omega)
    rw [hwrap (total used) (by omega), hwrap (total free) (by omega), hwrap _ hle] at hsum
    exact hsum
  have hcov := hpacked.covers_of_total (htotal.trans hfill) hx hx'
  rw [covers_perm hperm, covers_append, covers_filter_pos] at hcov
  exact hcov

/-- Free regions that are those the index leaves. -/
theorem sound_of_rebuilt {s : Store} (hnone : s.allocator = none)
    (hintact : ∀ k info, s.files.lookup k = some info → Intact s.io.dev info)
    (hin : ∀ e ∈ spans s.files, dataStart ≤ e.1 ∧ e.1 + e.2 ≤ s.dataEnd) (hused : (spans s.files).Pairwise Span.Apart)
    (hacross : ∀ x, Covers s.freeRegions x → ¬ Covers (spans s.files) x) : s.Sound := by
  have hregions : s.freeRegions = (rebuildFreeList s.files s.dataEnd).2 := by
    unfold Store.freeRegions
    rw [hnone]
  have hcov := covers_rebuildFreeList hin hused
  refine ⟨hintact, hused, ?_, hacross, fun x => ?_⟩
  · obtain ⟨used, hpacked, -, hlist⟩ := rebuildFreeList_gaps hin hused
    rw [hregions, hlist]
    exact (gaps_canon hpacked).sep.imp fun hab => .inl (Nat.le_of_lt hab)
  · rw [hregions, hcov x]
    constructor
    · intro hx
      rcases hx with ⟨e, he, hex⟩ | hx
      · have := hin e he
        unfold Span.Has at hex
        omega
      · exact ⟨hx.1, hx.2.1⟩
    · intro hx
      by_cases hc : Covers (spans s.files) x
      · exact .inl hc
      · exact .inr ⟨hx.1, hx.2, hc⟩

/-- A report without findings is sound if and only if no free region shares an address with an extent. -/
theorem clean_verify_is_sound_iff {deviceSize : Nat} {sb : Superblock} {l : Layout} {s s' : Store} {report : VerifyReport}
    (hsize : deviceSize ≤ u64Max) (hl : layoutOf deviceSize sb = .ok l) (hend : s.dataEnd = l.regionA)
    (h : verifyAll.exec s = (.ok report, s')) (hclean : report.Clean) :
    s.Sound ↔ ∀ f ∈ s.freeRegions, ∀ e ∈ spans s.files, ∀ x, f.Has x → ¬ e.Has x := by
  obtain ⟨hlo, hhi⟩ := regionA_of_layoutOf hsize hl
  rw [← hend] at hlo hhi
  obtain ⟨herrors, -, hover, hspace⟩ := Prog.wp_ok (wp_verifyAll s) h
  have hplace := herrors hclean.errors
  have hin : ∀ e ∈ spans s.files, dataStart ≤ e.1 ∧ e.1 + e.2 ≤ s.dataEnd := by
    intro e he
    obtain ⟨k, info, hk, rfl⟩ := mem_spans_iff.mp he
    obtain ⟨h1, h2, -⟩ : InPlace s.io.dev s.dataEnd info := hplace ⟨k, info⟩ (AList.mem_lookup_iff.mp hk)
    unfold satAdd at h2
    unfold ExtentInfo.span
    omega
  have hintact : ∀ k info, s.files.lookup k = some info → Intact s.io.dev info := fun k info hk =>
    (hplace ⟨k, info⟩ (AList.mem_lookup_iff.mp hk)).2.2.2
  have hused := apart_of_no_overlap hhi hin (hover.symm.trans hclean.overlapping)
  constructor
  · intro hsound f hf e he x hfx hex
    exact hsound.across x ⟨f, hf, hfx⟩ ⟨e, he, hex⟩
  intro hacross
  have hacross : ∀ x, Covers s.freeRegions x → ¬ Covers (spans s.files) x := by
    intro x hfree hcov
    obtain ⟨f, hf, hfx⟩ := hfree
    obtain ⟨e, he, hex⟩ := hcov
    exact hacross f hf e he x hfx hex
  cases halloc : s.allocator with
  | none => exact sound_of_rebuilt halloc hintact hin hused hacross
  | some a =>
    have hregions : s.freeRegions = a.freeList := by
      unfold Store.freeRegions
      rw [halloc]
    obtain ⟨hconsistent, haccounted⟩ := hspace a halloc
    have hfree := packed_of_consistent hhi (hconsistent.symm.trans hclean.consistent)
    have hsum : wrap (wrap (total (spans s.files)) + wrap (total a.freeList)) = s.dataEnd - dataStart :=
      of_decide_eq_true (haccounted.symm.trans hclean.accounted)
    rw [← hregions] at hfree hsum
    refine ⟨hintact, hused, hfree.ordered.imp fun hab => .inl hab, hacross, fun x => ⟨fun hx => ?_, fun hx => ?_⟩⟩
    · rcases hx with ⟨e, he, hex⟩ | ⟨f, hf, hfx⟩
      · have := hin e he
        unfold Span.Has at hex
        omega
      · have := hfree.inside f hf
        unfold Span.Has at hfx
        omega
    · exact covers_of_accounted hlo hhi hin hused hfree hacross hsum hx.1 hx.2

end Verify

/-! ### One object of a byte -/

section Sample

open Sample

def Sample.byteExtent : ExtentInfo := ⟨dataStart, 1, blockAlignment, crc32c [1], 1, 0, 0, 0⟩

def Sample.byteStore (free : List Span) : Store where
  io := { dev := (⟨67108864, fun _ => 0⟩ : Disk).write dataStart (encodeBlocks [1]) (fun _ => true), direct := false,
          readOnly := false, script := [], log := [] }
  files := (∅ : FMap ExtentInfo).insert "a" byteExtent
  tombstones := ∅
  allocator := some ⟨free, blockAlignment⟩
  superblock := options.superblock
  dirty := false
  readOnly := false
  shardDirty := fun _ => false
  lastFlushBytes := 0
  maxKeyLength := 1024
  compression := .none
  indexRegionA := 33554432
  indexRegionB := 50331648
  indexSlotCapacity := 16777216
  shardSlotSize := 65536
  nextUploadId := 0

theorem Sample.byteExtent_inPlace (free : List Span) :
    InPlace (byteStore free).io.dev (byteStore free).dataEnd byteExtent := by
  have hholds : Holds (byteStore free).io.dev dataStart [1] := by
    unfold Holds
    rw [← length_encodeBlocks]
    exact Disk.read_write_same _ _ _
  refine ⟨Nat.le_refl _, ?_, ?_, [1], hholds.decode, rfl⟩
  · show satAdd dataStart blockAlignment ≤ 33554432
    decide
  · show numBlocks 1 * blockAlignment ≤ u64Max
    decide

theorem Sample.byteExtent_calm (free : List Span) :
    Calm (byteStore free).io byteExtent.offset (numBlocks byteExtent.size * blockAlignment) := by
  refine ⟨rfl, nofun, ?_⟩
  show dataStart + numBlocks 1 * blockAlignment ≤ 67108864
  decide

/-- The object is fine: the report depends on the free list alone. -/
theorem Sample.byteStore_clean (free : List Span) (hfree : freeListConsistent 33554432 free = true)
    (htotal : wrap (blockAlignment + wrap (total free)) = 33554432 - dataStart) :
    ∃ report s', verifyAll.exec (byteStore free) = (.ok report, s') ∧ report.Clean := by
  have hall : ∀ e ∈ (byteStore free).files.entries, Calm (byteStore free).io e.2.offset (numBlocks e.2.size * blockAlignment) ∧
      InPlace (byteStore free).io.dev (byteStore free).dataEnd e.2 := by
    intro e he
    obtain rfl : e = ⟨"a", byteExtent⟩ := List.mem_singleton.mp he
    exact ⟨byteExtent_calm free, byteExtent_inPlace free⟩
  obtain ⟨report, s', hrun, -, herrors, hover, hspace⟩ := Prog.wp_returns (wp_verifyAll (byteStore free)) fun _ _ h => by
    obtain ⟨e, he, hcalm⟩ := h
    exact hcalm (hall e he).1
  obtain ⟨hconsistent, haccounted⟩ := hspace _ rfl
  have hspans : spans (byteStore free).files = [(dataStart, blockAlignment)] := rfl
  have hwrap : wrap (total [(dataStart, blockAlignment)]) = blockAlignment := by decide
  have hend : (byteStore free).dataEnd = 33554432 := rfl
  rw [hspans, hwrap, hend] at haccounted
  rw [hend] at hconsistent
  exact ⟨report, s', hrun, herrors hall, hover, hconsistent.trans hfree, haccounted.trans (decide_eq_true htotal)⟩

/-- The free list has what the object leaves. -/
theorem a_clean_report_of_a_sound_store : ∃ report s', verifyAll.exec (byteStore [(12288, 33542144)]) = (.ok report, s') ∧
    report.Clean ∧ (byteStore [(12288, 33542144)]).Sound := by
  obtain ⟨report, s', h, hclean⟩ := byteStore_clean [(12288, 33542144)] (by decide) (by decide)
  refine ⟨report, s', h, hclean, (clean_verify_is_sound_iff (by decide) layout_of_options rfl h hclean).mpr ?_⟩
  intro f hf e he x hfx hex
  obtain rfl : f = (12288, 33542144) := List.mem_singleton.mp hf
  obtain rfl : e = (8192, 4096) := List.mem_singleton.mp he
  unfold Span.Has at hfx hex
  omega

/-- The object's block is free, and the block behind it is in neither list. -/
theorem a_balanced_report_is_clean : ¬ ∀ (deviceSize : Nat) (sb : Superblock) (l : Layout) (s s' : Store)
    (report : VerifyReport), deviceSize ≤ u64Max → layoutOf deviceSize sb = .ok l → s.dataEnd = l.regionA →
    verifyAll.exec s = (.ok report, s') → report.Clean → s.Sound := by
  intro hall
  obtain ⟨report, s', h, hclean⟩ := byteStore_clean [(8192, 4096), (16384, 33538048)] (by decide) (by decide)
  have hsound := hall _ _ _ _ _ _ (by decide) layout_of_options rfl h hclean
  exact hsound.across 8192 ⟨(8192, 4096), List.mem_cons_self, by decide⟩ ⟨(8192, 4096), List.mem_cons_self, by decide⟩

end Sample

end ObjStr.Raw
