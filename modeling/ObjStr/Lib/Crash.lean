/-
  ObjStr.Lib.Crash — what a crash leaves of a device that caches its writes.

  A write is durable once a sync after it has completed. Until then the device may write its blocks back in any order, and
  a block as it stood after any of the writes. So what a crash leaves is chosen block by block: each one is as the durable
  writes left it, or as it stood after some of the writes since.
  - `Cached.Leaves.of_run`: writes that do not reach an address leave there what could be left before them.
  - `Cached.leaves_synced`: after a sync there is one device that can be left.
  - `Cached.Leaves.single`: a write inside one block is there or it is not.
-/

import ObjStr.Lib.Disk

namespace ObjStr.Lib

open Disk (Event)

structure Cached where
  durable : Disk
  pending : List Event

namespace Cached

def device (c : Cached) : Disk := c.durable.replay c.pending

def apply (c : Cached) : Event → Cached
  | .write off data landed => { c with pending := c.pending ++ [.write off data landed] }
  | .sync => ⟨c.device, []⟩

def run (c : Cached) (log : List Event) : Cached := log.foldl apply c

structure Leaves (block : Nat) (c : Cached) (d : Disk) : Prop where
  size_eq : d.size = c.durable.size
  blocks : ∀ b, ∃ n, ∀ a, a / block = b → d.byte a = (c.durable.replay (c.pending.take n)).byte a

variable {block : Nat} {c : Cached} {d : Disk} {log : List Event} {e : Event}

@[simp] theorem run_nil (c : Cached) : c.run [] = c := rfl
@[simp] theorem run_cons (c : Cached) (e : Event) (log : List Event) : c.run (e :: log) = (c.apply e).run log := rfl

theorem run_append (c : Cached) (log log' : List Event) : c.run (log ++ log') = (c.run log).run log' := List.foldl_append

theorem device_apply (c : Cached) (e : Event) : (c.apply e).device = c.device.apply e := by
  cases e with
  | write off data landed => exact Disk.replay_append _ _ _
  | sync => rfl

theorem device_run (c : Cached) (log : List Event) : (c.run log).device = c.device.replay log := by
  induction log generalizing c with
  | nil => rfl
  | cons e log ih => rw [run_cons, ih, device_apply, Disk.replay_cons]

/-- A write and a sync on a device that is durable. -/
theorem apply_synced (d : Disk) (e : Event) : (apply ⟨d, []⟩ e).apply .sync = ⟨d.apply e, []⟩ :=
  congrArg (Cached.mk · []) (device_apply ⟨d, []⟩ e)

theorem run_sync (c : Cached) (log : List Event) : (c.run log).apply .sync = ⟨c.device.replay log, []⟩ :=
  congrArg (Cached.mk · []) (device_run c log)

theorem Leaves.size_device (h : Leaves block c d) : d.size = c.device.size := by
  rw [h.size_eq, device, Disk.replay_size]

/-- A crash may come after everything has been written back. -/
theorem leaves_device (block : Nat) (c : Cached) : Leaves block c c.device :=
  ⟨Disk.replay_size _ _, fun _ => ⟨c.pending.length, fun a _ => by rw [List.take_length]; rfl⟩⟩

/-- Without pending writes there is one device that can be left. -/
theorem Leaves.eq_of_synced (h : Leaves block c d) (hp : c.pending = []) : d = c.durable := by
  obtain ⟨size, byte⟩ := d
  have hbyte : byte = c.durable.byte := by
    funext a
    obtain ⟨n, hn⟩ := h.blocks (a / block)
    have := hn a rfl
    rwa [hp, List.take_nil] at this
  have hsize := h.size_eq
  dsimp only at hsize
  rw [hbyte, hsize]

theorem leaves_synced (h : Leaves block (c.apply .sync) d) : d = c.device := h.eq_of_synced rfl

/-- A device that is left after one more event, as it was before the event. -/
theorem Leaves.of_apply (h : Leaves block (c.apply e) d) :
    ∃ d', Leaves block c d' ∧ ∀ a, ¬ e.Reaches a → d.byte a = d'.byte a := by
  cases e with
  | sync =>
    rw [leaves_synced h]
    exact ⟨c.device, leaves_device block c, fun _ _ => rfl⟩
  | write off data landed =>
    obtain ⟨hsize, hblocks⟩ := h
    choose n hn using hblocks
    -- Each block as it stood after as many of the earlier writes.
    let d' : Disk := ⟨c.durable.size, fun a => (c.durable.replay (c.pending.take (n (a / block)))).byte a⟩
    refine ⟨d', ⟨rfl, fun b => ⟨n b, fun a ha => by rw [← ha]⟩⟩, fun a ha => ?_⟩
    rw [hn (a / block) a rfl]
    show (c.durable.replay ((c.pending ++ [Event.write off data landed]).take (n (a / block)))).byte a =
      (c.durable.replay (c.pending.take (n (a / block)))).byte a
    rw [List.take_append, Disk.replay_append]
    refine Disk.replay_frame fun e he => ?_
    rw [List.mem_singleton.mp (List.mem_of_mem_take he)]
    exact ha

theorem Leaves.of_run (h : Leaves block (c.run log) d) :
    ∃ d', Leaves block c d' ∧ ∀ a, (∀ e ∈ log, ¬ e.Reaches a) → d.byte a = d'.byte a := by
  induction log generalizing c with
  | nil => exact ⟨d, h, fun _ _ => rfl⟩
  | cons e log ih =>
    rw [run_cons] at h
    obtain ⟨d1, h1, heq1⟩ := ih h
    obtain ⟨d', h', heq'⟩ := h1.of_apply
    refine ⟨d', h', fun a ha => ?_⟩
    rw [heq1 a fun e' he' => ha e' (List.mem_cons_of_mem e he'), heq' a (ha e List.mem_cons_self)]

/-- A write inside one block, after a sync, is there or it is not. -/
theorem Leaves.single {b : Nat} (h : Leaves block (Cached.apply ⟨c.durable, []⟩ e) d) (he : ∀ a, e.Reaches a → a / block = b) :
    d = c.durable ∨ d = c.durable.apply e := by
  obtain ⟨size, byte⟩ := d
  cases e with
  | sync => exact .inl (leaves_synced h)
  | write off data landed =>
    obtain ⟨hsize, hblocks⟩ := h
    dsimp only at hsize hblocks
    subst hsize
    have hpending : (Cached.apply ⟨c.durable, []⟩ (.write off data landed)).pending = [.write off data landed] := rfl
    have hdurable : (Cached.apply ⟨c.durable, []⟩ (.write off data landed)).durable = c.durable := rfl
    rw [hpending, hdurable] at hblocks
    have hother : ∀ a, a / block ≠ b → byte a = c.durable.byte a := by
      intro a ha
      obtain ⟨n, hn⟩ := hblocks (a / block)
      rw [hn a rfl]
      refine Disk.replay_frame fun e' he' => ?_
      rw [List.mem_singleton.mp (List.mem_of_mem_take he')]
      exact fun hr => ha (he a hr)
    have hkeep : ∀ a, a / block ≠ b → (c.durable.apply (.write off data landed)).byte a = c.durable.byte a :=
      fun a ha => Disk.apply_byte_of_not_reaches fun hr => ha (he a hr)
    obtain ⟨n, hn⟩ := hblocks b
    cases n with
    | zero =>
      refine .inl (congrArg (Disk.mk _) (funext fun a => ?_))
      by_cases ha : a / block = b
      · exact hn a ha
      · exact hother a ha
    | succ n =>
      refine .inr (congrArg (Disk.mk _) (funext fun a => ?_))
      by_cases ha : a / block = b
      · have := hn a ha
        rwa [List.take_succ_cons, List.take_nil] at this
      · exact (hother a ha).trans (hkeep a ha).symm

end Cached

end ObjStr.Lib
