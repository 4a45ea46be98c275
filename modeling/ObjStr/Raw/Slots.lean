/-
  ObjStr.Raw.Slots — what the superblocks and the index slots of a device hold, and which writes
  leave it as it is.

  `SlotOk` says that a slot holds a given shard. A shard that a flush has written is in its new
  slot (`Written.slotOk`); calls write only to the data area and shard writes only to the other
  slots of dirty shards, so neither touches a superblock or a slot in use
  (`Wrote.slotOk`, `superblockAt_frame`).
-/

import ObjStr.Raw.Flush

namespace ObjStr.Raw

open ObjStr.Lib DeviceIo

/-! ## Superblocks on a device -/

/-- The event leaves the bytes `[lo, hi)` alone. -/
def Misses (lo hi : Nat) (e : Disk.Event) : Prop := ∀ a, lo ≤ a → a < hi → ¬ e.Reaches a

theorem read_frame {d : Disk} {evs : List Disk.Event} {lo hi off len : Nat} (h : ∀ e ∈ evs, Misses lo hi e) (h1 : lo ≤ off)
    (h2 : off + len ≤ hi) : (d.replay evs).read off len = d.read off len :=
  Disk.read_congr fun a ha hb => Disk.replay_frame fun e he => h e he a (by omega) (by omega)

variable [Crates]

/-- The superblock as it reads back once written. -/
def Superblock.stored (sb : Superblock) : Superblock := sb.withChecksum sb.checksum

def HasSuperblock (d : Disk) (off : Nat) (sb : Superblock) : Prop := d.read off superblockSize = sb.bytes

theorem HasSuperblock.reads {d : Disk} {off : Nat} {sb : Superblock} {s : Store} (h : HasSuperblock d off sb)
    (hd : Describes sb s) : superblockAt d off = .ok sb.stored := by
  unfold superblockAt
  rw [h]
  exact fromBytes_image sb hd.magic hd.version hd.blockAlignment

theorem SuperblockWrite.lands {d : Disk} {off : Nat} {sb : Superblock} {e : Disk.Event}
    (h : SuperblockWrite off sb.bytes true e) : HasSuperblock (d.apply e) off sb := by
  obtain ⟨landed, rfl, hl⟩ := h
  have hsame : (d.write off sb.bytes landed).read off superblockSize =
      (d.write off sb.bytes fun _ => true).read off superblockSize := by
    apply Disk.read_congr
    intro a h1 h2
    simp only [Disk.write, hl a h1 h2]
  show (d.write off sb.bytes landed).read off superblockSize = sb.bytes
  rw [hsame]
  have := Disk.read_write_same d off sb.bytes
  rwa [Superblock.length_bytes] at this

omit [Crates] in
/-- A superblock write that did not land changes nothing. -/
theorem SuperblockWrite.lost {d : Disk} {off : Nat} {img : Bytes} {e : Disk.Event} (h : SuperblockWrite off img false e)
    (hlen : img.length = superblockSize) : d.apply e = d := by
  obtain ⟨landed, rfl, hl⟩ := h
  show d.write off img landed = d
  unfold Disk.write
  cases d with
  | mk size byte =>
    congr 1
    funext a
    rw [if_neg]
    rintro ⟨h1, h2, h3⟩
    rw [hl a h1 (by omega)] at h3
    exact absurd h3 (by simp)

omit [Crates] in
theorem SuperblockWrite.misses {off : Nat} {img : Bytes} {b : Bool} {e : Disk.Event} (h : SuperblockWrite off img b e)
    (hlen : img.length = superblockSize) {lo hi : Nat} (hap : off + superblockSize ≤ lo ∨ hi ≤ off) : Misses lo hi e := by
  obtain ⟨landed, rfl, -⟩ := h
  intro a h1 h2 hr
  simp only [Disk.Event.Reaches] at hr
  omega

/-! ## Shards on a device -/

/-- The slot's record is sane and the slot holds the shard. -/
structure SlotOk (l : Layout) (d : Disk) (slot : ShardSlotMeta) (i : Fin numShards) (data : ShardData) : Prop where
  active : slot.activeSlot = 0 ∨ slot.activeSlot = 1
  fits : slot.size.toNat ≤ l.slotSize
  holds : ∃ shard, shardAt l d slot i = .ok shard ∧ shard.Same data

theorem SlotOk.same {l : Layout} {d : Disk} {slot : ShardSlotMeta} {i : Fin numShards} {data data' : ShardData}
    (h : SlotOk l d slot i data) (hs : data.Same data') : SlotOk l d slot i data' := by
  obtain ⟨h1, h2, shard, h3, h4⟩ := h
  exact ⟨h1, h2, shard, h3, h4.trans hs⟩

/-- Only the bytes of the slot matter. -/
theorem shardAt_frame {l : Layout} {d : Disk} {evs : List Disk.Event} {slot : ShardSlotMeta} {i : Fin numShards}
    (hfits : slot.size.toNat ≤ l.slotSize)
    (h : ∀ e ∈ evs, Misses (l.slotOffset slot.activeSlot i) (l.slotOffset slot.activeSlot i + l.slotSize) e) :
    shardAt l (d.replay evs) slot i = shardAt l d slot i := by
  unfold shardAt
  rw [read_frame h (Nat.le_refl _) (by omega)]

theorem SlotOk.frame {l : Layout} {d : Disk} {evs : List Disk.Event} {slot : ShardSlotMeta} {i : Fin numShards}
    {data : ShardData} (hs : SlotOk l d slot i data)
    (h : ∀ e ∈ evs, Misses (l.slotOffset slot.activeSlot i) (l.slotOffset slot.activeSlot i + l.slotSize) e) :
    SlotOk l (d.replay evs) slot i data := by
  obtain ⟨h1, h2, h3⟩ := hs
  exact ⟨h1, h2, by rw [shardAt_frame h2 h]; exact h3⟩

/-! ## Which events touch what -/

omit [Crates] in
/-- A call writes to the data area only. -/
theorem FreeIn.misses {s : Store} (hs : SpaceInv s []) {e : Disk.Event} (he : FreeIn s e) :
    Misses 0 dataStart e ∧ ∀ hi, Misses s.dataEnd hi e := by
  obtain ⟨⟨a, ha, hpart⟩, -⟩ := hs
  have key : ∀ x, e.Reaches x → dataStart ≤ x ∧ x < s.dataEnd := by
    intro x hx
    obtain ⟨a', ha', hcov⟩ := he x hx
    rw [ha] at ha'
    obtain rfl := Option.some.inj ha'
    have := (hpart.covers x).mp hcov
    exact ⟨this.1, this.2.1⟩
  refine ⟨fun x _ h2 hr => ?_, fun hi x h1 _ hr => ?_⟩
  · have := (key x hr).1
    omega
  · have := (key x hr).2
    omega

/-- A shard write misses the superblocks and the data area. -/
theorem ShardWrite.misses_data {s : Store} (g : Geometry s) {e : Disk.Event} (he : ShardWrite s e) : Misses 0 s.dataEnd e := by
  obtain ⟨i, -, -, hin⟩ := he
  intro a _ h2 hr
  have hb := (g.slot_bounds (s.newSlot i).activeSlot i).1
  have := Inside.reaches hin hr
  unfold Span.Has Store.slotSpan at this
  unfold Store.dataEnd at h2
  dsimp only at this
  omega

end ObjStr.Raw
