/-
  ObjStr.Raw.Placed — stores on which everything starts at a block boundary (`allocator.rs`, `store.rs`).

  On an `O_DIRECT` handle the extents of the index and the free regions consist of whole blocks, and so do the slots of the
  index where the layout says so (`Placed`). The allocator keeps this on its own: it takes from the front of a region, gives
  back whole extents, and rebuilds its list from the index. `Runs H H' W p R` says of a call that it leads from `H` to `H'`,
  that its events satisfy `W`, and that no assertion on an offset fires in it.
  - `runs_allocWrite`: an extent is taken, written inside, and given back if that fails.
-/

import ObjStr.Raw.AtBlocks

namespace ObjStr.Raw

open ObjStr.Lib DeviceIo

/-! ## Spans of whole blocks -/

/-- On an `O_DIRECT` handle the span consists of whole blocks. -/
structure BlockSpan (d : Bool) (e : Span) : Prop where
  start : Legal d e.1
  size : Legal d e.2

variable {d : Bool} {e f : Span} {l : List Span} {a a' : ExtentAllocator} {n off : Nat}

theorem Legal.plus {m : Nat} (h : Legal d n) (h' : Legal d m) : Legal d (n + m) := fun hd => h.add (h' hd) hd

theorem Legal.sub {m : Nat} (h : Legal d n) (h' : Legal d m) : Legal d (n - m) := by
  intro hd
  have h1 := h hd
  have h2 := h' hd
  unfold blockAlignment at *
  omega

/-- Two of them that are merged. -/
theorem BlockSpan.join (he : BlockSpan d e) (hf : BlockSpan d f) : BlockSpan d (e.1, e.2 + f.2) :=
  ⟨he.start, he.size.plus hf.size⟩

theorem blockSpans_mergeAt (h : ∀ e ∈ l, BlockSpan d e) (i : Nat) : ∀ e ∈ ExtentAllocator.mergeAt l i, BlockSpan d e := by
  unfold ExtentAllocator.mergeAt
  split
  · next e f he hf =>
    split
    · intro x hx
      rcases List.mem_or_eq_of_mem_set (List.mem_of_mem_eraseIdx hx) with hx | rfl
      · exact h x hx
      · exact (h e (List.mem_of_getElem? he)).join (h f (List.mem_of_getElem? hf))
    · exact h
  · exact h

theorem blockSpans_gaps {lo hi : Nat} (hlo : Legal d lo) (hhi : Legal d hi) (h : ∀ e ∈ l, BlockSpan d e) :
    ∀ g ∈ gaps hi lo l, BlockSpan d g := by
  induction l generalizing lo with
  | nil =>
    intro g hg
    unfold gaps at hg
    split at hg
    · rw [List.mem_singleton.mp hg]
      exact ⟨hlo, hhi.sub hlo⟩
    · cases hg
  | cons e l ih =>
    have he := h e (by simp)
    intro g hg
    unfold gaps at hg
    rcases List.mem_append.mp hg with hg | hg
    · split at hg
      · rw [List.mem_singleton.mp hg]
        exact ⟨hlo, he.start.sub hlo⟩
      · cases hg
    · exact ih (he.start.plus he.size) (fun f hf => h f (List.mem_cons_of_mem e hf)) g hg

/-! ## The allocator -/

/-- The free regions consist of whole blocks. -/
structure BlockAllocator (d : Bool) (a : ExtentAllocator) : Prop where
  alignment_eq : a.alignment = blockAlignment
  spans : ∀ e ∈ a.freeList, BlockSpan d e

theorem BlockAllocator.alloc (h : BlockAllocator d a) (ha : a.alloc n = .ok (off, a')) : Legal d off ∧ BlockAllocator d a' := by
  obtain ⟨pre, size, post, hlist, -, rfl⟩ := ExtentAllocator.alloc_split ha
  have htaken := h.spans (off, size) (by rw [hlist]; simp)
  have hround : Legal d (alignUp n a.alignment) := by
    intro _
    rw [h.alignment_eq]
    unfold alignUp blockAlignment
    omega
  refine ⟨htaken.start, h.alignment_eq, fun e he => ?_⟩
  rcases List.mem_append.mp he with he | he
  · exact h.spans e (by rw [hlist]; simp [he])
  rcases List.mem_append.mp he with he | he
  · split at he
    · rw [List.mem_singleton.mp he]
      exact ⟨htaken.start.plus hround, htaken.size.sub hround⟩
    · cases he
  · exact h.spans e (by rw [hlist]; simp [he])

theorem BlockAllocator.free (h : BlockAllocator d a) (hspan : BlockSpan d (off, n)) : BlockAllocator d (a.free off n) := by
  have hinsert : ∀ e ∈ a.freeList.insertIdx (a.freeList.findIdx fun e => ¬ e.1 < off) (off, n), BlockSpan d e := by
    intro e he
    rw [List.mem_insertIdx List.findIdx_le_length] at he
    rcases he with rfl | he
    · exact hspan
    · exact h.spans e he
  refine ⟨h.alignment_eq, ?_⟩
  unfold ExtentAllocator.free
  dsimp only
  split
  · exact blockSpans_mergeAt (blockSpans_mergeAt hinsert _) _
  · exact blockSpans_mergeAt hinsert _

theorem blockAllocator_fromFreeList (h : ∀ e ∈ l, BlockSpan d e) (lo hi : Nat) : BlockAllocator d (.fromFreeList l lo hi) := by
  refine ⟨rfl, fun e he => h e ?_⟩
  have hsort : e ∈ sortByOffset l := List.mem_of_mem_filter (List.mem_of_mem_filter he)
  exact (List.perm_insertionSort _ _).mem_iff.mp hsort

theorem legal_dataStart : Legal d dataStart := fun _ => rfl

/-- The allocator that is rebuilt from an index of whole blocks. -/
theorem blockAllocator_rebuilt {files : FMap ExtentInfo} {dataEnd : Nat} (hend : Legal d dataEnd)
    (h : ∀ k info, files.lookup k = some info → BlockSpan d info.span) :
    BlockAllocator d (.fromFreeList (rebuildFreeList files dataEnd).2 dataStart dataEnd) := by
  refine blockAllocator_fromFreeList (blockSpans_gaps legal_dataStart hend fun e he => ?_) _ _
  have hmem := (List.perm_insertionSort _ _).mem_iff.mp he
  obtain ⟨info, hinfo, rfl⟩ := List.mem_map.mp hmem
  obtain ⟨x, hx, rfl⟩ := List.mem_map.mp (List.mem_of_mem_filter hinfo)
  refine h x.1 x.2 ?_
  rw [← Option.mem_def, AList.mem_lookup_iff]
  exact hx

/-! ## Stores -/

/-- The index regions and slots of a layout start at block boundaries. -/
structure LegalLayout (d : Bool) (l : Layout) : Prop where
  regionA : Legal d l.regionA
  regionB : Legal d l.regionB
  slotSize : Legal d l.slotSize

/-- A store on a handle of this kind, laid out so, whose extents and free regions consist of whole blocks. -/
structure Placed (d : Bool) (l : Layout) (s : Store) : Prop where
  direct : s.io.direct = d
  layout : s.layout = l
  entries : ∀ k info, s.files.lookup k = some info → BlockSpan d info.span
  free : ∀ a, s.allocator = some a → BlockAllocator d a

/-- Such a store, with this allocator. -/
structure Here (d : Bool) (l : Layout) (a : Option ExtentAllocator) (s : Store) : Prop where
  placed : Placed d l s
  allocator : s.allocator = a

variable {L : Layout} {s s' : Store} {key : Key} {info : ExtentInfo}

theorem Placed.freeExtent (h : Placed d L s) (hspan : BlockSpan d (off, n)) : Placed d L (s.freeExtent off n) := by
  refine ⟨h.direct, h.layout, h.entries, fun a ha => ?_⟩
  change s.allocator.map (·.free off n) = some a at ha
  obtain ⟨b, hb, rfl⟩ := Option.map_eq_some_iff.mp ha
  exact (h.free b hb).free hspan

theorem Placed.removeFile (h : Placed d L s) (key : Key) : Placed d L (s.removeFile key) := by
  have hentries : ∀ k info, (s.removeFile key).files.lookup k = some info → BlockSpan d info.span := fun k info hk =>
    h.entries k info (lookup_removeFile_some hk)
  unfold Store.removeFile at *
  split
  · next old hold =>
    have hfree := h.freeExtent (h.entries key old hold)
    simp only [hold] at hentries
    exact ⟨hfree.direct, hfree.layout, hentries, hfree.free⟩
  · exact h

variable [Crates]

theorem Placed.insertFile (h : Placed d L s) (key : Key) (hinfo : BlockSpan d info.span) : Placed d L (s.insertFile key info) := by
  refine ⟨h.direct, h.layout, fun k info' hk => ?_, h.free⟩
  rcases lookup_insertFile_some hk with ⟨-, rfl⟩ | ⟨-, hk⟩
  · exact hinfo
  · exact h.entries k info' hk

theorem Placed.replaceFile (h : Placed d L s) (key : Key) (hinfo : BlockSpan d info.span) : Placed d L (s.replaceFile key info) := by
  have hrem := h.removeFile key
  have hcleared : Placed d L { s.removeFile key with tombstones := (s.removeFile key).tombstones.erase key } :=
    ⟨hrem.direct, hrem.layout, hrem.entries, hrem.free⟩
  exact hcleared.insertFile key hinfo

theorem Placed.dropFile (h : Placed d L s) (key : Key) : Placed d L (s.dropFile key) := by
  unfold Store.dropFile
  split
  · have hrem := h.removeFile key
    exact ⟨hrem.direct, hrem.layout, hrem.entries, hrem.free⟩
  · exact h

theorem Placed.dropParts (h : Placed d L s) (keys : List Key) : Placed d L (s.dropParts keys) := by
  unfold Store.dropParts
  induction keys generalizing s with
  | nil => exact h
  | cons k keys ih => exact ih (h.dropFile k)

omit [Crates] in
theorem Placed.withIo (h : Placed d L s) {io : DeviceIo} (hd : io.direct = s.io.direct) : Placed d L (s.withIo io) :=
  ⟨hd.trans h.direct, h.layout, h.entries, h.free⟩

omit [Crates] in
theorem Here.withIo {b : Option ExtentAllocator} (h : Here d L b s) {io : DeviceIo} (hd : io.direct = s.io.direct) :
    Here d L b (s.withIo io) := ⟨h.placed.withIo hd, h.allocator⟩

/-! ## Where a call may write -/

/-- The regions a call targets: a superblock, a slot of the index, the extent it takes, a free region. -/
inductive Region (L : Layout) (b : Option ExtentAllocator) : Span → Prop
  | primary : Region L b (0, superblockSize)
  | backup : Region L b (superblockSize, superblockSize)
  | slot (slot : UInt8) (i : Fin numShards) : Region L b (L.slotOffset slot i, L.slotSize)
  | extent {a a' : ExtentAllocator} {n off : Nat} (hb : b = some a) (h : a.alloc n = .ok (off, a')) : Region L b (off, n)
  | free {a : ExtentAllocator} {e : Span} (hb : b = some a) (he : e ∈ a.freeList) : Region L b e

def InRegion (L : Layout) (b : Option ExtentAllocator) (e : Disk.Event) : Prop := ∃ r, Region L b r ∧ Inside r e

/-! ## Calls -/

section Calls

variable {α β : Type} {H H' M : Store → Prop} {W : Disk.Event → Prop} {p : StoreM α} {R : α → Prop} {S : β → Prop}

/-- The call leads from `H` to `H'`, its events satisfy `W`, no assertion on an offset fires in it, and what it returns has the
    property. -/
def Runs {α : Type} (H H' : Store → Prop) (W : Disk.Event → Prop) (p : StoreM α) (R : α → Prop) : Prop :=
  ∀ s, H s → Prog.wp p (fun a s' => H' s' ∧ Wrote W s.io s'.io ∧ R a)
    (fun e s' => H' s' ∧ Wrote W s.io s'.io ∧ ¬ e.Misaligned) s

omit [Crates]

theorem Runs.bind {f : α → StoreM β} (hp : Runs H M W p R) (hf : ∀ a, R a → Runs M H' W (f a) S) (hweak : ∀ s, M s → H' s) :
    Runs H H' W (p >>= f) S := by
  intro s hs
  rw [Prog.wp_bind]
  refine Prog.wp_mono (hp s hs) (fun a s1 h1 => ?_) (fun _ s1 h1 => ⟨hweak s1 h1.1, h1.2⟩)
  refine Prog.wp_mono (hf a h1.2.2 s1 h1.1) (fun _ _ h => ?_) (fun _ _ h => ?_)
  · exact ⟨h.1, h1.2.1.trans h.2.1, h.2.2⟩
  · exact ⟨h.1, h1.2.1.trans h.2.1, h.2.2⟩

/-- A step that keeps `H`, and what follows it. -/
theorem Runs.seq {f : α → StoreM β} (hp : Runs H H W p R) (hf : ∀ a, R a → Runs H H W (f a) S) : Runs H H W (p >>= f) S :=
  hp.bind hf fun _ h => h

theorem Runs.mono {V : Disk.Event → Prop} (h : Runs H M V p R) (hV : ∀ e, V e → W e) (hH : ∀ s, M s → H' s) :
    Runs H H' W p R :=
  fun s hs => Prog.wp_mono (h s hs) (fun _ s1 h => ⟨hH s1 h.1, h.2.1.mono hV, h.2.2⟩) (fun _ s1 h => ⟨hH s1 h.1, h.2.1.mono hV, h.2.2⟩)

theorem runs_pure {a : α} (h : R a) : Runs H H W (pure a : StoreM α) R := fun _ hs => ⟨hs, Wrote.refl, h⟩

theorem runs_get : Runs H H W get H := fun _ hs => ⟨hs, Wrote.refl, hs⟩

theorem runs_failIf {c : Prop} [Decidable c] {e : RawStoreError} (h : ∀ reason, e ≠ .panic reason) :
    Runs H H W (Prog.failIf c e) fun _ => ¬ c := by
  intro s hs
  rw [Prog.wp_failIf]
  exact ⟨fun _ => ⟨hs, Wrote.refl, not_misaligned_of_ne h⟩, fun hc => ⟨hs, Wrote.refl, hc⟩⟩

theorem runs_ofExcept {r : Except RawStoreError α} (hok : ∀ a, r = .ok a → R a) (herr : ∀ e, r = .error e → ¬ e.Misaligned) :
    Runs H H W (ofExcept r) R := by
  intro s hs
  rw [wp_ofExcept]
  cases r with
  | ok a => exact ⟨hs, Wrote.refl, hok a rfl⟩
  | error e => exact ⟨hs, Wrote.refl, herr e rfl⟩

theorem runs_modify {g : Store → Store} (hio : ∀ s, (g s).io = s.io) (hg : ∀ s, H s → H' (g s)) :
    Runs H H' W (modify g) fun _ => True := by
  intro s hs
  rw [Prog.wp_modify, hio]
  exact ⟨hg s hs, Wrote.refl, trivial⟩

theorem runs_onDevice {p : IoM α} (hH : ∀ s, H s → s.io.direct = d)
    (hio : ∀ s io, H s → io.direct = s.io.direct → H (s.withIo io)) (h : AtBlocks d W p R) : Runs H H W (onDevice p) R := by
  intro s hs
  rw [wp_onDevice]
  refine Prog.wp_mono (h s.io (hH s hs)) (fun _ io h => ?_) (fun _ io h => ?_)
  · exact ⟨hio s io hs h.1.direct_eq, h⟩
  · exact ⟨hio s io hs h.1.direct_eq, h⟩

theorem runs_getFile (hH : ∀ s, H s → Placed d L s) (key : Key) :
    Runs H H W (getFile key) fun info => BlockSpan d info.span := by
  intro s hs
  refine wp_getFile (fun info hinfo => ?_) fun _ => ?_
  · exact ⟨hs, Wrote.refl, (hH s hs).entries key info hinfo⟩
  · exact ⟨hs, Wrote.refl, not_misaligned_of_ne nofun⟩

variable {b : Option ExtentAllocator}

theorem here_onDevice {p : IoM α} (h : AtBlocks d W p R) : Runs (Here d L b) (Here d L b) W (onDevice p) R :=
  runs_onDevice (fun _ hs => hs.placed.direct) (fun _ _ hs => hs.withIo) h

theorem here_getFile (key : Key) : Runs (Here d L b) (Here d L b) W (getFile key) fun info => BlockSpan d info.span :=
  runs_getFile (fun _ hs => hs.placed) key

theorem placed_onDevice {p : IoM α} (h : AtBlocks d W p R) : Runs (Placed d L) (Placed d L) W (onDevice p) R := by
  exact runs_onDevice (fun _ hs => hs.direct) (fun _ _ hs => hs.withIo) h

theorem runs_onError {h : RawStoreError → Store → Store} (hp : Runs H H' W p R) (hio : ∀ e s, (h e s).io = s.io)
    (hkeep : ∀ e s, H' s → H' (h e s)) : Runs H H' W (p.onError h) R := by
  intro s hs
  rw [Prog.wp_onError]
  refine Prog.wp_mono (hp s hs) (fun _ _ h => h) (fun e s1 h1 => ?_)
  rw [hio]
  exact ⟨hkeep e s1 h1.1, h1.2⟩

/-- An extent that is taken starts at a block boundary, and is the one that the allocator gives. -/
theorem runs_allocExtent (n : Nat) : Runs (Here d L b) (Placed d L) W (allocExtent n) fun off =>
    Legal d off ∧ ∀ e, Inside (off, n) e → InRegion L b e := by
  intro s hs
  have hp := hs.placed
  unfold Prog.wp allocExtent
  cases hb : s.allocator with
  | none => exact ⟨hp, Wrote.refl, not_misaligned_of_ne nofun⟩
  | some a =>
    dsimp only
    cases ha : a.alloc n with
    | error e =>
      refine ⟨hp, Wrote.refl, not_misaligned_of_ne fun reason he => ?_⟩
      rw [he] at ha
      unfold ExtentAllocator.alloc at ha
      dsimp only at ha
      split at ha
      · split at ha <;> cases ha
      · cases ha
    | ok r =>
      obtain ⟨off, a'⟩ := r
      obtain ⟨hoff, ha'⟩ := (hp.free a hb).alloc ha
      refine ⟨⟨hp.direct, hp.layout, hp.entries, fun c hc => ?_⟩, Wrote.refl, hoff, fun e he => ?_⟩
      · rw [← Option.some.inj hc]
        exact ha'
      · exact ⟨(off, n), .extent (hs.allocator.symm.trans hb) ha, he⟩

/-- It is written, and given back if that fails. -/
theorem runs_allocWrite {body : Nat → IoM α} (hn : Legal d n)
    (hbody : ∀ off, Legal d off → (∀ e, Inside (off, n) e → InRegion L b e) → AtBlocks d W (body off) R) :
    Runs (Here d L b) (Placed d L) W (allocWrite n body) fun r => Legal d r.1 ∧ R r.2 := by
  refine (runs_allocExtent n).bind (fun off hoff => ?_) fun _ h => h
  refine Runs.seq ?_ fun r hr => runs_pure ⟨hoff.1, hr⟩
  exact runs_onError (placed_onDevice (hbody off hoff.1 hoff.2)) (fun _ _ => rfl) fun _ _ hs => hs.freeExtent ⟨hoff.1, hn⟩

end Calls

end ObjStr.Raw
