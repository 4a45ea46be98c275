/-
  ObjStr.Raw.Step — what a call can do to the store, said once.

  A call other than a flush or a reload has two phases. First (`Prep`) it may allocate an
  extent and write into it, or scrub free space: the index stays as it is, and everything
  written lies in space that was free when the call began. Then (`Update`) it changes the
  index in one of a few ways. `Step` is the two together; a call that fails does the first
  phase and gives the extent back. Every invariant over runs is proved from `Prep` and
  `Update`, not from the calls.

  How much is said about the data is graded (`Care`): nothing about the device (`index`), that
  only free space is written (`slots`), or also that every entry's extent stores a payload with
  the recorded sizes and CRC (`content`). What compressed entries store is tracked with `slots` too:
  an upload is completed into as much space as its parts are said to decode to.
-/

import ObjStr.Raw.Bodies
import ObjStr.Raw.Space

namespace ObjStr.Raw

open ObjStr.Lib DeviceIo

/-! ## How much is tracked -/

inductive Care where
  | index
  | slots
  | content
  deriving DecidableEq

/-! ## Taking and writing extents -/

/-- The event writes only into space that is free. -/
def FreeIn (s : Store) (e : Disk.Event) : Prop := ∀ a, e.Reaches a → ∃ al, s.allocator = some al ∧ Covers al.freeList a

/-- Extents taken and written; the index is as it was. -/
structure Prep (care : Care) (s : Store) (held : List Span) (s' : Store) : Prop where
  eq : s' = { s with allocator := s'.allocator, io := s'.io }
  space : SpaceInv s' held
  wrote : care ≠ .index → Wrote (FreeIn s) s.io s'.io

theorem Prep.refl {care : Care} {s : Store} (h : SpaceInv s []) : Prep care s [] s := ⟨rfl, h, fun _ => Wrote.refl⟩

theorem Prep.files_eq {care : Care} {s s' : Store} {held : List Span} (h : Prep care s held s') : s'.files = s.files := by
  rw [h.eq]

theorem Prep.compression_eq {care : Care} {s s' : Store} {held : List Span} (h : Prep care s held s') :
    s'.compression = s.compression := by rw [h.eq]

theorem Prep.dataEnd_eq {care : Care} {s s' : Store} {held : List Span} (h : Prep care s held s') :
    s'.dataEnd = s.dataEnd := by rw [h.eq]; rfl

/-- Reading, or writing free space. -/
theorem prep_device {care : Care} {s : Store} {io : DeviceIo} (h : SpaceInv s [])
    (hw : care ≠ .index → Wrote (FreeIn s) s.io io) : Prep care s [] (s.withIo io) :=
  ⟨rfl, h.congr rfl rfl rfl, hw⟩

/-- Reads before a call do not matter. -/
theorem Prep.of_aged {care : Care} {s s' : Store} {io : DeviceIo} {held : List Span} (ha : Aged s.io io)
    (h : Prep care (s.withIo io) held s') : Prep care s held s' :=
  ⟨h.eq, h.space, fun hc => ha.wrote.trans (h.wrote hc)⟩

theorem wp_onDevice {α : Type} {s : Store} {p : IoM α} {Q : α → Store → Prop} {E : RawStoreError → Store → Prop} :
    Prog.wp (onDevice p) Q E s ↔ Prog.wp p (fun a io => Q a (s.withIo io)) (fun e io => E e (s.withIo io)) s.io :=
  Prog.wp_zoom _ _ _

/-- Nothing but the device changes, whatever the program is. -/
theorem wp_any {α : Type} (p : IoM α) (io : DeviceIo) : Prog.wp p (fun _ _ => True) (fun _ _ => True) io := by
  unfold Prog.wp
  split <;> trivial

/-- An extent taken from the free list, with what a call may do to it. -/
structure Taken (s : Store) (off n : Nat) (a : ExtentAllocator) : Prop where
  space : SpaceInv { s with allocator := some a } [(off, n)]
  apart : ∀ e ∈ spans s.files, Span.Apart (off, n) e
  free : ∀ e, Inside (off, n) e → FreeIn s e

theorem wp_takeExtent {s : Store} {n : Nat} {Q : Nat → Store → Prop} {E : RawStoreError → Store → Prop}
    (hs : SpaceInv s []) (hn : n % blockAlignment = 0) (hpos : 0 < n) (herr : ∀ e, E e s)
    (hok : ∀ off a, Taken s off n a → Q off { s with allocator := some a }) : Prog.wp (allocExtent n) Q E s := by
  obtain ⟨⟨a, ha, hpart⟩, hsized⟩ := hs
  unfold Prog.wp allocExtent
  simp only [ha]
  cases hal : a.alloc n with
  | error e => exact herr e
  | ok r =>
    obtain ⟨off, a'⟩ := r
    obtain ⟨-, -, -, -, hfree, -⟩ := ExtentAllocator.alloc_spec hpart.tidy hn hal
    have hpart' := hpart.alloc hn hpos hal
    exact hok off a' ⟨⟨⟨a', rfl, hpart'⟩, hsized⟩, (List.pairwise_cons.mp hpart'.ok.apart).1,
      fun e he x hx => ⟨a, ha, hfree x (Inside.reaches he hx)⟩⟩

theorem Taken.prep {care : Care} {s : Store} {off n : Nat} {a : ExtentAllocator} {io : DeviceIo} (h : Taken s off n a)
    (hw : care ≠ .index → Wrote (Inside (off, n)) s.io io) :
    Prep care s [(off, n)] (Store.withIo io { s with allocator := some a }) :=
  ⟨rfl, h.space.congr rfl rfl rfl, fun hc => (hw hc).mono h.free⟩

theorem Taken.prep_free {care : Care} {s : Store} {off n : Nat} {a : ExtentAllocator} {io : DeviceIo} (h : Taken s off n a)
    (hw : care ≠ .index → Wrote (Inside (off, n)) s.io io) :
    Prep care s [] (Store.freeExtent (Store.withIo io { s with allocator := some a }) off n) :=
  ⟨rfl, (h.prep hw).space.freeExtent, fun hc => (hw hc).mono h.free⟩

theorem Taken.inside {s : Store} {off n : Nat} {a : ExtentAllocator} (h : Taken s off n a) : off + n ≤ u64Max := by
  obtain ⟨⟨b, -, hp⟩, -⟩ := h.space
  have := (hp.ok.inside (off, n) (by simp)).2.1
  have := hp.max
  simp only at *
  omega

/-- Allocate, write, and free on failure. -/
theorem wp_allocWrite (care : Care) {α : Type} {s : Store} {n : Nat} {body : Nat → IoM α} {Q : Nat → α → DeviceIo → Prop}
    (hs : SpaceInv s []) (hn : n % blockAlignment = 0) (hpos : 0 < n)
    (hbody : care ≠ .index → ∀ off, (∀ e ∈ spans s.files, Span.Apart (off, n) e) →
      Prog.wp (body off) (fun r io' => Wrote (Inside (off, n)) s.io io' ∧ Q off r io')
        (fun _ io' => Wrote (Inside (off, n)) s.io io') s.io) :
    Prog.wp (allocWrite n body)
      (fun r s' => Prep care s [(r.1, n)] s' ∧ (care ≠ .index → Q r.1 r.2 s'.io))
      (fun _ s' => Prep care s [] s') s := by
  unfold allocWrite
  rw [Prog.wp_bind]
  refine wp_takeExtent hs hn hpos (fun _ => Prep.refl hs) ?_
  intro off a ht
  rw [Prog.wp_bind, Prog.wp_onError, wp_onDevice]
  by_cases hc : care = .index
  · refine Prog.wp_mono (wp_any (body off) _) ?_ ?_
    · intro r io' _
      exact ⟨ht.prep fun h => absurd hc h, fun h => absurd hc h⟩
    · intro _ io' _
      exact ht.prep_free fun h => absurd hc h
  · refine Prog.wp_mono (hbody hc off ht.apart) ?_ ?_
    · rintro r io' ⟨hw, hq⟩
      exact ⟨ht.prep fun _ => hw, fun _ => hq⟩
    · intro _ io' hw
      exact ht.prep_free fun _ => hw

variable [Crates]

/-! ## What an entry stores -/

/-- The entry's extent stores `payload`, as the client wrote it. -/
def Stores (c : Compression) (d : Disk) (info : ExtentInfo) (payload : Bytes) : Prop :=
  ∃ p, p.length = info.size ∧ Holds d info.offset p ∧ crc32c p = info.crc32c ∧
    (info.uncompressedSize = 0 ∧ p = payload ∨
      0 < info.uncompressedSize ∧ info.uncompressedSize = payload.length ∧ c.decompress p = .ok payload)

theorem Stores.payloadOf {c : Compression} {d : Disk} {info : ExtentInfo} {payload : Bytes} (h : Stores c d info payload) :
    payloadOf c d info = .ok payload := by
  obtain ⟨p, hlen, hholds, -, h⟩ := h
  unfold Raw.payloadOf
  rw [← hlen, hholds.decode]
  show (if 0 < info.uncompressedSize then c.decompress p else pure p) = _
  rcases h with ⟨h0, rfl⟩ | ⟨hpos, -, hd⟩
  · rw [if_neg (by omega)]
    rfl
  · rw [if_pos hpos, hd]

theorem Stores.length {c : Compression} {d : Disk} {info : ExtentInfo} {payload : Bytes} (h : Stores c d info payload) :
    payload.length = info.logicalSize := by
  obtain ⟨p, hlen, -, -, h⟩ := h
  unfold ExtentInfo.logicalSize
  rcases h with ⟨h0, rfl⟩ | ⟨hpos, hu, -⟩
  · rw [if_neg (by omega), hlen]
  · rw [if_pos hpos, hu]

/-- Only the blocks of the extent matter. -/
theorem Stores.congr {c : Compression} {d e : Disk} {info : ExtentInfo} {payload : Bytes} (h : Stores c d info payload)
    (hr : e.read info.offset (numBlocks info.size * blockAlignment) = d.read info.offset (numBlocks info.size * blockAlignment)) :
    Stores c e info payload := by
  obtain ⟨p, hlen, hholds, h⟩ := h
  refine ⟨p, hlen, ?_, h⟩
  unfold Holds at *
  rw [hlen, hr, ← hlen]
  exact hholds

theorem Stores.inj {c : Compression} {d : Disk} {info : ExtentInfo} {p q : Bytes} (h : Stores c d info p)
    (h' : Stores c d info q) : p = q := by
  have := h.payloadOf
  rw [h'.payloadOf] at this
  exact (Except.ok.inj this).symm

/-- What the entry's extent stores is tracked: with `slots`, only that of compressed entries. -/
def Care.Tracks (care : Care) (info : ExtentInfo) : Prop := care = .content ∨ care = .slots ∧ 0 < info.uncompressedSize

omit [Crates] in
theorem Care.Tracks.ne_index {care : Care} {info : ExtentInfo} (h : care.Tracks info) : care ≠ .index := by
  rcases h with rfl | ⟨rfl, -⟩ <;> decide

/-- The entry's extent has the blocks its size needs, and stores a payload if that is tracked. -/
structure Kept (care : Care) (c : Compression) (d : Disk) (info : ExtentInfo) : Prop where
  padded : info.paddedSize = numBlocks info.size * blockAlignment
  stored : care.Tracks info → ∃ payload, Stores c d info payload

def ContentInv (care : Care) (s : Store) : Prop :=
  ∀ k info, s.files.lookup k = some info → Kept care s.compression s.io.dev info

theorem ContentInv.index {care : Care} {s : Store} (h : ContentInv care s) : ContentInv .index s := fun k info hk =>
  ⟨(h k info hk).padded, fun ht => absurd rfl ht.ne_index⟩

/-! ## Changing the index -/

/-- One change of the index. `held` are the extents the call has taken. -/
inductive Update (care : Care) (s : Store) : List Span → Store → Prop
  | keep : Update care s [] s
  | put (k : Key) (info : ExtentInfo) (parts : List Key) (hsize : 0 < info.size)
      (hkept : Kept care s.compression s.io.dev info) :
      Update care s [info.span] ((s.replaceFile k info).dropParts parts)
  | copy (k : Key) (info : ExtentInfo) (hsize : 0 < info.size) (hkept : Kept care s.compression s.io.dev info) :
      Update care s [info.span] ((s.removeFile k).insertFile k info)
  | move (fromKey toKey : Key) (info : ExtentInfo) (hfrom : s.files.lookup fromKey = some info)
      (hkept : Kept care s.compression s.io.dev info) :
      Update care s [] (((Store.removeFile { s with files := s.files.erase fromKey } toKey).markShardDirty fromKey).insertFile
        toKey info)
  | drop (keys : List Key) : Update care s [] { s.dropParts keys with dirty := true }
  | amend (k : Key) (info : ExtentInfo) (metaLen : UInt16) (hk : s.files.lookup k = some info) :
      Update care s [] (s.insertFile k { info with metaLen := metaLen })
  | forget (path : Key) :
      Update care s [] { s.markShardDirty path with tombstones := s.tombstones.erase path, dirty := true }
  | forgetAll :
      Update care s [] { s.tombstones.entries.foldl (fun s e => s.markShardDirty e.1) s with tombstones := ∅, dirty := true }
  | upload : Update care s [] { s with nextUploadId := s.nextUploadId + 1 }

def Step (care : Care) (s s' : Store) : Prop := ∃ s1 held, Prep care s held s1 ∧ Update care s1 held s'

theorem Step.refl (care : Care) {s : Store} (h : SpaceInv s []) : Step care s s := ⟨s, [], Prep.refl h, .keep⟩

theorem Prep.step {care : Care} {s s' : Store} (h : Prep care s [] s') : Step care s s' := ⟨s', [], h, .keep⟩

end ObjStr.Raw
