/-
  ObjStr.Sharded.Redistribution — the work loop of `redistribute_sweep`: when it ends, and what its moves do to the counts
  (`shardedobjstr/src/repair.rs`, `replicate_object` and `remove_replica` of `lib.rs`).

  The loop is given a world in each round: what the stores hold and fail next, and the times (`World`). So the outcomes of its
  copies and removals are any. What a round leaves besides is the cluster and the loop's own counts.

  A copy that fails changes nothing that the loop looks at, and the loop tries it again: the batch is counted by the moves
  that work. One that works lists the object on one more shard, or ends in a move.
  - `redistributeLoop_returns_iff`: left to the stores as they are, the loop with fuel for so many rounds returns if and only
    if it has ended by then.
  - `redistribution_iff`: the loop ends and each move it counts makes the catalog's counts more even, if and only if each copy
    it tries works in one of the worlds that come and the catalog's counts are uneven enough at each of its moves. The
    loop's own counts get more even with every move.
  - `uneven_of_removals_work`: they are, as long as no removal fails after its copy: only then does the loop lose count.
  - `full_shard_is_tried_for_ever`: a shard that rejects every write is tried for ever.
-/

import ObjStr.Lib.Retry
import ObjStr.Raw.Load
import ObjStr.Raw.Space
import ObjStr.Sharded.Sweeps

namespace ObjStr.Sharded

open ObjStr.Lib ObjStr.Raw Proc

/-! ## The loop -/

/-- What the stores hold and fail next, and the times that come. -/
structure World where
  stores : StoreId → Store
  clock : List DateTime

def Sys.world (s : Sys) : World := ⟨s.stores, s.clock⟩

def Sys.meet (s : Sys) (w : World) : Sys := ⟨w.stores, s.cluster, w.clock⟩

structure Redistribution where
  refs : Option RawRefRegistry
  tolerated : Nat → Bool
  batchSize : Nat
  healthySet : List ShardId

structure Balance where
  sys : Sys
  counts : List (ShardId × Nat)
  result : RedistributeResult

structure Move where
  src : ShardId
  dst : ShardId
  key : Key
  entry : PlacementEntry

def fullestFirst (counts : List (ShardId × Nat)) : List (ShardId × Nat) := counts.mergeSort fun a b => b.2 ≤ a.2

def recount (src dst : ShardId) (counts : List (ShardId × Nat)) : List (ShardId × Nat) :=
  counts.map fun c => (c.1, (if c.1 = src then c.2 - 1 else c.2) + (if c.1 = dst then 1 else 0))

namespace Redistribution

variable (p : Redistribution) (w : World) (b : Balance) (m : Move)

/-- The move that a round tries; none: the loop ends. -/
def next : Option Move :=
  if b.result.moved < p.batchSize then
    match (fullestFirst b.counts).head?, (fullestFirst b.counts).getLast? with
    | some (src, srcCount), some (dst, dstCount) =>
      if p.tolerated (srcCount - dstCount) || srcCount ≤ dstCount + 1 then none
      else ((b.sys.cluster.catalog.entriesForShard src).find?
        (movable b.sys.cluster.config.replicationFactor p.healthySet src dst)).map fun c => ⟨src, dst, c.1, c.2⟩
    | _, _ => none
  else none

/-- `replicate_object` works. -/
def Copies : Prop := ((replicateObject m.key m.src m.dst p.refs).exec (b.sys.meet w)).1.isOk

def attempt : (Bool × RedistributeResult) × Sys :=
  (moveObject p.refs p.healthySet m.key m.src m.dst b.result).exec (b.sys.meet w)

def Counts : Prop := (p.attempt w b m).1.1

instance : Decidable (p.Counts w b m) := inferInstanceAs (Decidable (_ = true))

def round : Balance where
  sys := (p.attempt w b m).2
  counts := if p.Counts w b m then recount m.src m.dst (fullestFirst b.counts) else fullestFirst b.counts
  result := (p.attempt w b m).1.2

def loop : Retry Balance World Move := ⟨p.next, p.Copies, p.round⟩

end Redistribution

/-! ## The loop of the model -/

/-- The worlds that the loop meets when nothing happens in between. -/
def Redistribution.alone (p : Redistribution) : Nat → Balance → World
  | 0, b => b.sys.world
  | n + 1, b =>
    match p.next b with
    | none => b.sys.world
    | some m => p.alone n (p.round b.sys.world b m)

theorem exec_redistributeLoop_succ (p : Redistribution) (rounds : Nat) (b : Balance) :
    (redistributeLoop p.refs p.tolerated p.batchSize p.healthySet (rounds + 1) b.counts b.result).exec b.sys =
      match p.next b with
      | none => (some b.result, b.sys)
      | some m => (redistributeLoop p.refs p.tolerated p.batchSize p.healthySet rounds (p.round b.sys.world b m).counts
          (p.round b.sys.world b m).result).exec (p.round b.sys.world b m).sys := by
  conv_lhs => unfold redistributeLoop
  unfold Redistribution.next
  by_cases hbatch : b.result.moved < p.batchSize
  · rw [if_pos hbatch, if_pos hbatch]
    dsimp only
    show Proc.exec (match (fullestFirst b.counts).head?, (fullestFirst b.counts).getLast? with
      | some (src, srcCount), some (dst, dstCount) => _
      | _, _ => _) b.sys = _
    cases hhead : (fullestFirst b.counts).head? with
    | none => rfl
    | some head =>
      cases hlast : (fullestFirst b.counts).getLast? with
      | none => rfl
      | some last =>
        dsimp only
        split
        · rfl
        · rw [exec_bind, exec_bind]
          cases hfind : (b.sys.cluster.catalog.entriesForShard head.1).find?
              (movable b.sys.cluster.config.replicationFactor p.healthySet head.1 last.1) with
          | none =>
            simp only [replicationFactor, look, exec_step, hfind]
            rfl
          | some c =>
            simp only [replicationFactor, look, exec_step, hfind]
            rw [exec_bind]
            rfl
  · rw [if_neg hbatch, if_neg hbatch]
    rfl

/-- The loop, left alone, with fuel for so many rounds. -/
theorem redistributeLoop_returns_iff (p : Redistribution) (rounds : Nat) (b : Balance) :
    ((redistributeLoop p.refs p.tolerated p.batchSize p.healthySet rounds b.counts b.result).exec b.sys).1.isSome ↔
      p.loop.run (fun n => p.alone n b) b rounds = none := by
  induction rounds generalizing b with
  | zero => exact iff_of_false (by simp [redistributeLoop]) (by simp [Retry.run])
  | succ rounds ih =>
    rw [exec_redistributeLoop_succ, Retry.run_succ]
    show _ ↔ (p.next b).bind _ = none
    cases hm : p.next b with
    | none => exact iff_of_true rfl rfl
    | some m =>
      have hworlds : (fun k => p.alone (k + 1) b) = fun k => p.alone k (p.round b.sys.world b m) := by
        funext k
        show (match p.next b with
          | none => b.sys.world
          | some m => p.alone k (p.round b.sys.world b m)) = _
        rw [hm]
      rw [Option.bind_some, hworlds]
      exact ih (p.round b.sys.world b m)

/-- The sweep returns before its loop. -/
def Sys.settled (tolerated : Nat → Nat → Nat → Bool) (s : Sys) : Bool :=
  let counts := s.cluster.shardObjectCounts
  let total := (counts.map (·.2)).sum
  let spread := ((counts.map (·.2)).max?.getD 0) - ((counts.map (·.2)).min?.getD 0)
  !s.cluster.findUnderReplicated.isEmpty || counts.length < 2 || total = 0 || tolerated total counts.length spread

/-- The loop of a sweep as it begins, if it does. -/
def redistribution (refs : Option RawRefRegistry) (batchSize : Nat) (tolerated : Nat → Nat → Nat → Bool) (s : Sys) :
    Option Redistribution :=
  let counts := s.cluster.shardObjectCounts
  if s.settled tolerated then none
  else some ⟨refs, tolerated (counts.map (·.2)).sum counts.length, batchSize, counts.map (·.1)⟩

def Balance.start (s : Sys) : Balance := ⟨s, s.cluster.shardObjectCounts, {}⟩

theorem redistributeSweep_returns_iff (refs : Option RawRefRegistry) (rounds batchSize : Nat) (tolerated : Nat → Nat → Nat → Bool)
    (s : Sys) : ((redistributeSweep rounds batchSize tolerated refs).exec s).1.isSome ↔
      ∀ p ∈ redistribution refs batchSize tolerated s, p.loop.run (fun n => p.alone n (.start s)) (.start s) rounds = none := by
  have hsweep : (redistributeSweep rounds batchSize tolerated refs).exec s =
      Proc.exec (if s.settled tolerated then pure (some { shardCounts := s.cluster.shardObjectCounts }) else do
        let counts := s.cluster.shardObjectCounts
        let result ← redistributeLoop refs (tolerated (counts.map (·.2)).sum counts.length) batchSize (counts.map (·.1))
          rounds counts {}
        let counts ← look fun s => s.cluster.shardObjectCounts
        pure (result.map fun r => { r with shardCounts := counts })) s := rfl
  rw [hsweep]
  unfold redistribution
  cases s.settled tolerated with
  | true => exact iff_of_true rfl fun p hp => nomatch hp
  | false =>
    simp only [Bool.false_eq_true, if_false, look, exec_bind, exec_step, exec_pure, Option.isSome_map, Option.mem_some_iff,
      forall_eq']
    exact redistributeLoop_returns_iff ⟨refs, _, batchSize, _⟩ rounds (.start s)

/-! ## One round -/

theorem perm_fullestFirst (counts : List (ShardId × Nat)) : (fullestFirst counts).Perm counts := List.mergeSort_perm ..

theorem fullestFirst_idem (counts : List (ShardId × Nat)) : fullestFirst (fullestFirst counts) = fullestFirst counts := by
  refine List.mergeSort_of_pairwise (List.pairwise_mergeSort (fun a b c hab hbc => ?_) (fun a b => ?_) counts)
  · simp only [decide_eq_true_eq] at hab hbc ⊢
    omega
  · simp only [Bool.or_eq_true, decide_eq_true_eq]
    omega

/-- A move that is tried: from the fullest shard to the emptiest, of an object that is on the one and not on the other. -/
structure Redistribution.Tried (p : Redistribution) (b : Balance) (m : Move) : Prop where
  batch : b.result.moved < p.batchSize
  uneven : ∃ srcCount dstCount, (fullestFirst b.counts).head? = some (m.src, srcCount) ∧
    (fullestFirst b.counts).getLast? = some (m.dst, dstCount) ∧ dstCount + 1 < srcCount
  entry : b.sys.cluster.catalog.get m.key = some m.entry
  source : m.src ∈ m.entry.shards
  target : m.dst ∉ m.entry.shards

theorem Redistribution.tried_of_next {p : Redistribution} {b : Balance} {m : Move} (h : p.next b = some m) : p.Tried b m := by
  unfold next at h
  split at h
  case isFalse => cases h
  case isTrue hbatch =>
    split at h
    case h_2 => cases h
    case h_1 src srcCount dst dstCount hhead hlast =>
      split at h
      case isTrue => cases h
      case isFalse hmore =>
        obtain ⟨c, hfind, rfl⟩ := Option.map_eq_some_iff.mp h
        have hmem := Catalog.mem_entriesForShard (List.mem_of_find?_eq_some hfind)
        have hmove := List.find?_some hfind
        simp only [Bool.or_eq_true, decide_eq_true_eq, not_or, not_le] at hmore
        simp only [movable, Bool.and_eq_true, Bool.not_eq_true', List.contains_eq_mem, decide_eq_false_iff_not] at hmove
        exact ⟨hbatch, ⟨srcCount, dstCount, hhead, hlast, hmore.2⟩, hmem.1, hmem.2, hmove.1⟩

/-- What a round leaves: the same cluster, if the copy fails; else the object is listed on the target too, and the move is
    counted if it is taken from the source then. -/
structure Redistribution.Left (p : Redistribution) (w : World) (b : Balance) (m : Move) (counted : Bool) (moved : Nat) (c : Cluster) :
    Prop where
  failed : ¬ p.Copies w b m → counted = false ∧ moved = b.result.moved ∧ c = b.sys.cluster
  copied : p.Copies w b m → ∃ size ml now, (counted = false ∧ moved = b.result.moved ∧
      c = { b.sys.cluster with catalog := b.sys.cluster.catalog.addReplica m.key m.dst size ml now }) ∨
    (counted = true ∧ moved = b.result.moved + 1 ∧
      c = { b.sys.cluster with catalog := (b.sys.cluster.catalog.addReplica m.key m.dst size ml now).removeShard m.key m.src })

theorem Redistribution.left_attempt (p : Redistribution) (w : World) (b : Balance) (m : Move) :
    p.Left w b m (p.attempt w b m).1.1 (p.attempt w b m).1.2.moved (p.attempt w b m).2.cluster := by
  suffices h : (moveObject p.refs p.healthySet m.key m.src m.dst b.result).wp
      (fun r s' _ => p.Left w b m r.1 r.2.moved s'.cluster) (b.sys.meet w) from h
  unfold moveObject
  rw [wp_bind]
  have hcopies : (replicateObject m.key m.src m.dst p.refs).wp (fun r _ _ => r.isOk ↔ p.Copies w b m) (b.sys.meet w) := Iff.rfl
  refine wp_mono (wp_and (wp_replicateObject m.key m.src m.dst p.refs) hcopies) fun r s1 t1 h1 => ?_
  obtain ⟨⟨s2, t2, hstill, hr⟩, hcopies⟩ := h1
  cases r with
  | error e =>
    obtain ⟨rfl, -, -⟩ := hr
    have hnot : ¬ p.Copies w b m := fun h => nomatch hcopies.mpr h
    exact ⟨fun _ => ⟨rfl, rfl, hstill.cluster⟩, fun h => absurd h hnot⟩
  | ok size =>
    obtain ⟨ml, rfl, -⟩ := hr
    have hyes : p.Copies w b m := hcopies.mp rfl
    have hadded : (s2.tick.withCatalog (s2.cluster.catalog.addReplica m.key m.dst size ml s2.now)).cluster =
        { b.sys.cluster with catalog := b.sys.cluster.catalog.addReplica m.key m.dst size ml s2.now } := by
      show { s2.cluster with catalog := s2.cluster.catalog.addReplica m.key m.dst size ml s2.now } = _
      rw [hstill.cluster]
      rfl
    generalize s2.tick.withCatalog (s2.cluster.catalog.addReplica m.key m.dst size ml s2.now) = s3 at hadded ⊢
    dsimp only
    rw [replicationFactor, wp_bind, wp_look, catalogGet, wp_bind, wp_look]
    split
    · rw [wp_bind]
      refine wp_mono (wp_removeReplica m.key m.src) fun r s4 t4 h4 => ?_
      obtain ⟨s5, t5, hstill', hr⟩ := h4
      cases r with
      | error e =>
        obtain ⟨rfl, -, -⟩ := hr
        exact ⟨absurd hyes, fun _ => ⟨size, ml, s2.now, .inl ⟨rfl, rfl, hstill'.cluster.trans hadded⟩⟩⟩
      | ok _ =>
        obtain ⟨rfl, -⟩ := hr
        refine ⟨absurd hyes, fun _ => ⟨size, ml, s2.now, .inr ⟨rfl, rfl, ?_⟩⟩⟩
        show { s5.cluster with catalog := s5.cluster.catalog.removeShard m.key m.src } = _
        rw [hstill'.cluster, hadded]
    · exact ⟨absurd hyes, fun _ => ⟨size, ml, s2.now, .inl ⟨rfl, rfl, hadded⟩⟩⟩

/-! ## Sums over a catalog -/

def Catalog.total (f : PlacementEntry → Nat) (c : Catalog) : Nat := (c.inner.entries.map fun e => f e.2).sum

/-- A catalog that differs in one entry. -/
theorem Catalog.total_replaced (f : PlacementEntry → Nat) {c c' : Catalog} {key : Key} {e e' : PlacementEntry}
    (h : c.get key = some e) (h' : c'.get key = some e') (hne : ∀ k, k ≠ key → c'.get k = c.get k) :
    c'.total f + f e = c.total f + f e' := by
  have hrest : (c'.inner.erase key).entries.Perm (c.inner.erase key).entries := by
    refine FMap.perm_of_lookup fun k => ?_
    by_cases hk : k = key
    · rw [hk, AList.lookup_erase, AList.lookup_erase]
    · rw [AList.lookup_erase_ne hk, AList.lookup_erase_ne hk]
      exact hne k hk
  have hsum : c.total f = f e + ((c.inner.erase key).entries.map fun e => f e.2).sum := by
    rw [total, ((entries_erase_perm h).map _).sum_nat, List.map_cons, List.sum_cons]
  have hsum' : c'.total f = f e' + ((c.inner.erase key).entries.map fun e => f e.2).sum := by
    rw [total, ((entries_erase_perm h').map _).sum_nat, List.map_cons, List.sum_cons, (hrest.map _).sum_nat]
  omega

/-- How many entries list the shard, one that does twice counted twice. -/
def Cluster.objectCount (c : Cluster) (id : ShardId) : Nat := c.catalog.total fun e => e.shards.count id

def Cluster.healthyIds (c : Cluster) : List ShardId := (List.range c.shards.length).filter fun id => c.isHealthy id

theorem Cluster.shardObjectCounts_eq (c : Cluster) : c.shardObjectCounts = c.healthyIds.map fun id => (id, c.objectCount id) := rfl

theorem Cluster.healthyIds_congr {c c' : Cluster} (h : c'.shards = c.shards) : c'.healthyIds = c.healthyIds := by
  unfold healthyIds
  rw [h]
  exact List.filter_congr fun x _ => isHealthy_congr h x

section Round

variable {p : Redistribution} {w : World} {b : Balance} {m : Move} {size : Nat} {ml : UInt16} {now : DateTime}

theorem Redistribution.Tried.added (h : p.Tried b m) :
    (b.sys.cluster.catalog.addReplica m.key m.dst size ml now).get m.key = some (m.entry.withReplica m.dst ml) := by
  rw [Catalog.get_addReplica, if_pos rfl, h.entry]
  rfl

theorem Redistribution.Tried.shards_added (h : p.Tried b m) : (m.entry.withReplica m.dst ml).shards = m.entry.shards ++ [m.dst] := by
  simp [PlacementEntry.withReplica, h.target]

theorem Redistribution.Tried.ne (h : p.Tried b m) : m.dst ≠ m.src := fun heq => h.target (heq ▸ h.source)

theorem Redistribution.Tried.moved (h : p.Tried b m) :
    ((b.sys.cluster.catalog.addReplica m.key m.dst size ml now).removeShard m.key m.src).get m.key =
      some ((m.entry.withReplica m.dst ml).without m.src) := by
  have hmem : m.dst ∈ ((m.entry.withReplica m.dst ml).without m.src).shards := by
    unfold PlacementEntry.without
    rw [h.shards_added, List.mem_filter]
    exact ⟨by simp, by simpa using h.ne⟩
  rw [Catalog.get_removeShard _ _ h.added, if_neg]
  intro hempty
  rw [List.isEmpty_iff.mp hempty] at hmem
  cases hmem

/-- The copy fills a place that the object was not at. -/
theorem Redistribution.Tried.fills (h : p.Tried b m) (hdst : m.dst ∈ p.healthySet) :
    ((b.sys.cluster.catalog.addReplica m.key m.dst size ml now).total fun e => (p.healthySet.filter (· ∉ e.shards)).length) <
      b.sys.cluster.catalog.total fun e => (p.healthySet.filter (· ∉ e.shards)).length := by
  have hsum := Catalog.total_replaced (fun e => (p.healthySet.filter (· ∉ e.shards)).length) h.entry h.added fun k hk =>
    (Catalog.get_addReplica _ _ _ m.dst size ml now).trans (if_neg hk)
  have hlt : (p.healthySet.filter (· ∉ (m.entry.withReplica m.dst ml).shards)).length <
      (p.healthySet.filter (· ∉ m.entry.shards)).length := by
    have hfilter : p.healthySet.filter (· ∉ (m.entry.withReplica m.dst ml).shards) =
        (p.healthySet.filter (· ∉ m.entry.shards)).filter (· ≠ m.dst) := by
      rw [List.filter_filter, h.shards_added]
      refine List.filter_congr fun x _ => ?_
      simp [and_comm]
    rw [hfilter, List.length_filter_lt_length_iff_exists]
    exact ⟨m.dst, by simp [hdst, h.target], by simp⟩
  omega

end Round

/-! ## When it ends -/

structure Balance.Alike (b b' : Balance) : Prop where
  cluster : b'.sys.cluster = b.sys.cluster
  counts : fullestFirst b'.counts = fullestFirst b.counts
  moved : b'.result.moved = b.result.moved

/-- The loop counts the Healthy shards. -/
structure Redistribution.Sound (p : Redistribution) (b : Balance) : Prop where
  healthySet : p.healthySet = b.sys.cluster.healthyIds
  counts : (b.counts.map (·.1)).Perm b.sys.cluster.healthyIds

/-- The moves that the batch still has, and the places that the objects are not at. -/
def Redistribution.height (p : Redistribution) (b : Balance) : Nat × Nat :=
  (p.batchSize - b.result.moved, b.sys.cluster.catalog.total fun e => (p.healthySet.filter (· ∉ e.shards)).length)

namespace Redistribution

variable {p : Redistribution} {w : World} {b b' : Balance} {m : Move}

theorem shards_round : (p.round w b m).sys.cluster.shards = b.sys.cluster.shards := by
  have hleft := p.left_attempt w b m
  by_cases hc : p.Copies w b m
  · obtain ⟨size, ml, now, h | h⟩ := hleft.copied hc
    · exact (congrArg Cluster.shards h.2.2).trans rfl
    · exact (congrArg Cluster.shards h.2.2).trans rfl
  · exact congrArg Cluster.shards (hleft.failed hc).2.2

theorem keys_recount (src dst : ShardId) (counts : List (ShardId × Nat)) :
    (recount src dst counts).map (·.1) = counts.map (·.1) := by
  unfold recount
  rw [List.map_map]
  rfl

theorem perm_keys_round : ((p.round w b m).counts.map (·.1)).Perm (b.counts.map (·.1)) := by
  have hperm : ((fullestFirst b.counts).map (·.1)).Perm (b.counts.map (·.1)) := (perm_fullestFirst _).map _
  unfold round
  dsimp only
  split
  · rw [keys_recount]
    exact hperm
  · exact hperm

theorem Sound.round (h : p.Sound b) : p.Sound (p.round w b m) := by
  have hids : (p.round w b m).sys.cluster.healthyIds = b.sys.cluster.healthyIds := Cluster.healthyIds_congr shards_round
  exact ⟨by rw [hids, h.healthySet], by rw [hids]; exact perm_keys_round.trans h.counts⟩

/-- The shards of a move that is tried are Healthy. -/
theorem Sound.ends (h : p.Sound b) (htried : p.Tried b m) : m.src ∈ b.sys.cluster.healthyIds ∧ m.dst ∈ b.sys.cluster.healthyIds := by
  have hmem : ∀ c ∈ fullestFirst b.counts, c.1 ∈ b.sys.cluster.healthyIds := fun c hc =>
    h.counts.mem_iff.mp (List.mem_map_of_mem ((perm_fullestFirst b.counts).mem_iff.mp hc))
  obtain ⟨srcCount, dstCount, hhead, hlast, -⟩ := htried.uneven
  exact ⟨hmem _ (List.mem_of_mem_head? hhead), hmem _ (List.mem_of_mem_getLast? hlast)⟩

theorem counts_round (h : p.Counts w b m) : (p.round w b m).counts = recount m.src m.dst (fullestFirst b.counts) := if_pos h

theorem counts_round_of_not (h : ¬ p.Counts w b m) : (p.round w b m).counts = fullestFirst b.counts := if_neg h

theorem next_congr (h : b.Alike b') : p.next b' = p.next b := by
  unfold next
  rw [h.cluster, h.counts, h.moved]

theorem copies_congr (h : b.Alike b') : p.Copies w b' m ↔ p.Copies w b m := by
  unfold Copies Sys.meet
  rw [h.cluster]

theorem alike_of_failed (h : ¬ p.Copies w b m) : b.Alike (p.round w b m) := by
  obtain ⟨hcounted, hmoved, hcluster⟩ := (p.left_attempt w b m).failed h
  refine ⟨hcluster, ?_, hmoved⟩
  rw [counts_round_of_not (by simp [Counts, hcounted])]
  exact fullestFirst_idem b.counts

/-- A copy that works is a move of the batch, or fills a place. -/
theorem height_of_copied (hsound : p.Sound b) (htried : p.Tried b m) (h : p.Copies w b m) :
    Prod.Lex (· < ·) (· < ·) (p.height (p.round w b m)) (p.height b) := by
  obtain ⟨size, ml, now, ⟨-, hmoved, hcluster⟩ | ⟨-, hmoved, -⟩⟩ := (p.left_attempt w b m).copied h
  · have hheight : p.height (p.round w b m) = (p.batchSize - b.result.moved,
        (b.sys.cluster.catalog.addReplica m.key m.dst size ml now).total fun e => (p.healthySet.filter (· ∉ e.shards)).length) := by
      unfold height round
      rw [hmoved, hcluster]
    rw [hheight]
    refine .right _ (htried.fills ?_)
    rw [hsound.healthySet]
    exact (hsound.ends htried).2
  · refine .left _ _ ?_
    show p.batchSize - (p.attempt w b m).1.2.moved < _
    have hbatch := htried.batch
    omega

theorem lawful (p : Redistribution) : p.loop.Lawful (Prod.Lex (· < ·) (· < ·)) Balance.Alike p.Sound p.height where
  wf := WellFounded.prod_lex Nat.lt_wfRel.wf Nat.lt_wfRel.wf
  refl := fun b => ⟨rfl, rfl, rfl⟩
  trans := fun h h' => ⟨h'.cluster.trans h.cluster, h'.counts.trans h.counts, h'.moved.trans h.moved⟩
  next := next_congr
  works := fun h w m => copies_congr h
  level := fun h => by
    unfold height
    rw [h.cluster, h.moved]
  inv := fun h _ w => h.round
  failed := fun _ _ h => alike_of_failed h
  worked := fun h hnext hcopies => height_of_copied h (tried_of_next hnext) hcopies

theorem sound_start {refs : Option RawRefRegistry} {batchSize : Nat} {tolerated : Nat → Nat → Nat → Bool} {s : Sys}
    (hp : p ∈ redistribution refs batchSize tolerated s) : p.Sound (.start s) := by
  unfold redistribution at hp
  split at hp
  · cases hp
  · cases hp
    have hkeys : s.cluster.shardObjectCounts.map (·.1) = s.cluster.healthyIds := by
      rw [Cluster.shardObjectCounts_eq, List.map_map]
      exact List.map_id _
    exact ⟨hkeys, by rw [Balance.start, hkeys]⟩

end Redistribution

/-! ## How even the counts are -/

def sumSquares (counts : List (ShardId × Nat)) : Nat := (counts.map fun c => c.2 ^ 2).sum

theorem sumSquares_cons (c : ShardId × Nat) (counts : List (ShardId × Nat)) : sumSquares (c :: counts) = c.2 ^ 2 + sumSquares counts :=
  List.sum_cons

theorem sumSquares_perm {l l' : List (ShardId × Nat)} (h : l.Perm l') : sumSquares l = sumSquares l' := (h.map _).sum_nat

/-- Two members of a list, and the others. -/
theorem exists_perm_pair {α : Type} [DecidableEq α] {l : List α} {x y : α} (hx : x ∈ l) (hy : y ∈ l) (hne : y ≠ x) :
    ∃ rest, l.Perm (x :: y :: rest) := by
  have hy' : y ∈ l.erase x := (List.mem_erase_of_ne hne).mpr hy
  exact ⟨_, (List.perm_cons_erase hx).trans ((List.perm_cons_erase hy').cons x)⟩

/-- A move by the loop's own counts, from a shard that has two more than the other. -/
theorem sumSquares_recount {counts : List (ShardId × Nat)} {src dst : ShardId} {srcCount dstCount : Nat}
    (hnodup : (counts.map (·.1)).Nodup) (hsrc : (src, srcCount) ∈ counts) (hdst : (dst, dstCount) ∈ counts)
    (hlt : dstCount + 1 < srcCount) : sumSquares (recount src dst counts) < sumSquares counts := by
  have hpair : (dst, dstCount) ≠ (src, srcCount) := fun h => by
    cases h
    omega
  obtain ⟨rest, hperm⟩ := exists_perm_pair hsrc hdst hpair
  have hkeys : (src :: dst :: rest.map (·.1)).Nodup := by
    rw [(hperm.map _).nodup_iff] at hnodup
    exact hnodup
  rw [List.nodup_cons, List.nodup_cons, List.mem_cons, not_or] at hkeys
  obtain ⟨⟨hne, hnotSrc⟩, hnotDst, -⟩ := hkeys
  have hrest : recount src dst rest = rest := by
    unfold recount
    refine (List.map_congr_left fun c hc => ?_).trans (List.map_id _)
    have h1 : c.1 ≠ src := fun h => hnotSrc (h ▸ List.mem_map_of_mem hc)
    have h2 : c.1 ≠ dst := fun h => hnotDst (h ▸ List.mem_map_of_mem hc)
    simp [h1, h2]
  have hcounted : (recount src dst counts).Perm ((src, srcCount - 1) :: (dst, dstCount + 1) :: rest) := by
    have h := hperm.map fun c => (c.1, (if c.1 = src then c.2 - 1 else c.2) + (if c.1 = dst then 1 else 0))
    rw [List.map_cons, List.map_cons, if_pos rfl, if_neg hne, if_neg (Ne.symm hne), if_pos rfl] at h
    change (recount src dst counts).Perm (_ :: _ :: recount src dst rest) at h
    rwa [hrest] at h
  rw [sumSquares_perm hcounted, sumSquares_perm hperm]
  simp only [sumSquares_cons]
  obtain ⟨n, rfl⟩ : ∃ n, srcCount = n + 1 := ⟨srcCount - 1, by omega⟩
  rw [Nat.add_sub_cancel]
  nlinarith

section Round

variable {p : Redistribution} {w : World} {b : Balance} {m : Move}

/-- The loop's own counts get more even with each move that is counted. -/
theorem Redistribution.own_sumSquares_lt (hsound : p.Sound b) (htried : p.Tried b m) (h : p.Counts w b m) :
    sumSquares (p.round w b m).counts < sumSquares b.counts := by
  have hperm := perm_fullestFirst b.counts
  have hnodup : ((fullestFirst b.counts).map (·.1)).Nodup :=
    ((hperm.map _).trans hsound.counts).nodup_iff.mpr (List.nodup_range.filter _)
  obtain ⟨srcCount, dstCount, hhead, hlast, hlt⟩ := htried.uneven
  rw [counts_round h, ← sumSquares_perm hperm]
  exact sumSquares_recount hnodup (List.mem_of_mem_head? hhead) (List.mem_of_mem_getLast? hlast) hlt

theorem Redistribution.cluster_round (h : p.Counts w b m) : ∃ size ml now, (p.round w b m).sys.cluster =
    { b.sys.cluster with catalog := (b.sys.cluster.catalog.addReplica m.key m.dst size ml now).removeShard m.key m.src } := by
  have hleft := p.left_attempt w b m
  by_cases hc : p.Copies w b m
  · obtain ⟨size, ml, now, hmoved | hmoved⟩ := hleft.copied hc
    · exact absurd (hmoved.1.symm.trans h) (by simp)
    · exact ⟨size, ml, now, hmoved.2.2⟩
  · exact absurd ((hleft.failed hc).1.symm.trans h) (by simp)

/-- What a move that is counted does to the catalog's counts. -/
theorem Redistribution.objectCount_round (htried : p.Tried b m) (h : p.Counts w b m) (x : ShardId) :
    (p.round w b m).sys.cluster.objectCount x + m.entry.shards.count x =
      b.sys.cluster.objectCount x + if x = m.src then 0 else m.entry.shards.count x + if x = m.dst then 1 else 0 := by
  obtain ⟨size, ml, now, hcluster⟩ := Redistribution.cluster_round h
  have hsum := Catalog.total_replaced (fun e => e.shards.count x) htried.entry (@Tried.moved p b m size ml now htried)
    fun k hk => by rw [Catalog.get_removeShard_ne _ _ _ _ hk, Catalog.get_addReplica, if_neg hk]
  have hcount : ((m.entry.withReplica m.dst ml).without m.src).shards.count x =
      if x = m.src then 0 else m.entry.shards.count x + if x = m.dst then 1 else 0 := by
    unfold PlacementEntry.without
    rw [htried.shards_added]
    by_cases hx : x = m.src
    · rw [if_pos hx, List.count_eq_zero]
      simp [hx]
    · rw [if_neg hx, List.count_filter (by simpa using hx), List.count_append, List.count_singleton]
      by_cases hd : x = m.dst
      · simp [hd]
      · simp [hd, Ne.symm hd]
  unfold Cluster.objectCount
  rw [hcluster, ← hcount]
  exact hsum

/-- The catalog lists more on the source than on the target, by more than one object; the source has as many as the entry
    lists it times to lose. -/
def Balance.Uneven (b : Balance) (m : Move) : Prop :=
  2 * b.sys.cluster.objectCount m.dst + 1 + m.entry.shards.count m.src ^ 2 <
    2 * b.sys.cluster.objectCount m.src * m.entry.shards.count m.src

/-- An entry that lists the source once. -/
theorem Balance.uneven_iff_of_once (hm : m.entry.shards.count m.src = 1) :
    b.Uneven m ↔ b.sys.cluster.objectCount m.dst + 1 < b.sys.cluster.objectCount m.src := by
  unfold Uneven
  rw [hm]
  omega

/-- A move that is counted makes the catalog's counts more even exactly if they are uneven enough. -/
theorem Redistribution.sumSquares_round_iff (hsound : p.Sound b) (htried : p.Tried b m) (h : p.Counts w b m) :
    sumSquares (p.round w b m).sys.cluster.shardObjectCounts < sumSquares b.sys.cluster.shardObjectCounts ↔ b.Uneven m := by
  obtain ⟨hsrc, hdst⟩ := hsound.ends htried
  obtain ⟨rest, hperm⟩ := exists_perm_pair hsrc hdst htried.ne
  have hkeys : (m.src :: m.dst :: rest).Nodup := hperm.nodup_iff.mp (List.nodup_range.filter _)
  rw [List.nodup_cons, List.nodup_cons, List.mem_cons, not_or] at hkeys
  obtain ⟨⟨-, hnotSrc⟩, hnotDst, -⟩ := hkeys
  have hcount := Redistribution.objectCount_round htried h
  have hids : (p.round w b m).sys.cluster.healthyIds = b.sys.cluster.healthyIds := Cluster.healthyIds_congr shards_round
  have hrest : (rest.map fun id => (id, (p.round w b m).sys.cluster.objectCount id)) =
      rest.map fun id => (id, b.sys.cluster.objectCount id) := by
    refine List.map_congr_left fun x hx => ?_
    have h1 : x ≠ m.src := fun heq => hnotSrc (heq ▸ hx)
    have h2 : x ≠ m.dst := fun heq => hnotDst (heq ▸ hx)
    have hx := hcount x
    rw [if_neg h1, if_neg h2, Nat.add_zero] at hx
    rw [Nat.add_right_cancel hx]
  rw [Cluster.shardObjectCounts_eq, Cluster.shardObjectCounts_eq, hids, sumSquares_perm (hperm.map _), sumSquares_perm (hperm.map _)]
  simp only [List.map_cons, sumSquares_cons, hrest]
  have hfrom := hcount m.src
  have hto := hcount m.dst
  rw [if_pos rfl] at hfrom
  rw [if_neg htried.ne, if_pos rfl, List.count_eq_zero.mpr htried.target] at hto
  unfold Balance.Uneven
  rw [← Nat.add_zero (b.sys.cluster.objectCount m.src), ← hfrom, show (p.round w b m).sys.cluster.objectCount m.dst =
    b.sys.cluster.objectCount m.dst + 1 by omega]
  generalize (p.round w b m).sys.cluster.objectCount m.src = n
  generalize m.entry.shards.count m.src = k
  constructor
  · intro hlt
    nlinarith
  · intro hlt
    nlinarith

end Round

/-! ## When the counts are the catalog's -/

/-- The loop's counts are the catalog's, in which no entry lists a shard twice. -/
structure Balance.Current (b : Balance) : Prop where
  nodup : ∀ k e, b.sys.cluster.catalog.get k = some e → e.shards.Nodup
  counts : b.counts.Perm b.sys.cluster.shardObjectCounts

section Round

variable {p : Redistribution} {w : World} {b : Balance} {m : Move}

theorem Balance.Current.once (h : b.Current) (htried : p.Tried b m) : m.entry.shards.count m.src = 1 :=
  List.count_eq_one_of_mem (h.nodup _ _ htried.entry) htried.source

/-- Then the catalog's counts are as uneven as the loop's. -/
theorem Balance.Current.uneven (h : b.Current) (htried : p.Tried b m) : b.Uneven m := by
  have hcount : ∀ c ∈ fullestFirst b.counts, c.2 = b.sys.cluster.objectCount c.1 := by
    intro c hc
    have hmem := h.counts.mem_iff.mp ((perm_fullestFirst b.counts).mem_iff.mp hc)
    obtain ⟨x, -, rfl⟩ := List.mem_map.mp hmem
    rfl
  obtain ⟨srcCount, dstCount, hhead, hlast, hlt⟩ := htried.uneven
  have hsrc := hcount _ (List.mem_of_mem_head? hhead)
  have hdst := hcount _ (List.mem_of_mem_getLast? hlast)
  dsimp only at hsrc hdst
  rw [Balance.uneven_iff_of_once (h.once htried), ← hsrc, ← hdst]
  exact hlt

theorem Balance.Current.round (h : b.Current) (htried : p.Tried b m) (hworks : p.Copies w b m → p.Counts w b m) :
    (p.round w b m).Current := by
  have hperm := (perm_fullestFirst b.counts).trans h.counts
  by_cases hcounted : p.Counts w b m
  · obtain ⟨size, ml, now, hcluster⟩ := Redistribution.cluster_round hcounted
    refine ⟨fun k e he => ?_, ?_⟩
    · rw [hcluster] at he
      by_cases hk : k = m.key
      · subst hk
        obtain rfl := Option.some.inj ((htried.moved).symm.trans he)
        refine List.Nodup.filter _ ?_
        rw [htried.shards_added, List.nodup_append]
        exact ⟨h.nodup _ _ htried.entry, by simp, fun x hx y hy => by
          rw [List.mem_singleton.mp hy]
          exact fun heq => htried.target (heq ▸ hx)⟩
      · refine h.nodup k e ?_
        rw [← he]
        show _ = Catalog.get _ k
        rw [Catalog.get_removeShard_ne _ _ _ _ hk, Catalog.get_addReplica, if_neg hk]
    · have hids : (p.round w b m).sys.cluster.healthyIds = b.sys.cluster.healthyIds :=
        Cluster.healthyIds_congr Redistribution.shards_round
      rw [Redistribution.counts_round hcounted, Cluster.shardObjectCounts_eq, hids]
      refine (hperm.map _).trans ?_
      rw [Cluster.shardObjectCounts_eq, List.map_map]
      refine .of_eq (List.map_congr_left fun x _ => ?_)
      have hx := Redistribution.objectCount_round htried hcounted x
      have honce := h.once htried
      dsimp only [Function.comp]
      refine Prod.ext rfl ?_
      dsimp only
      by_cases h1 : x = m.src
      · subst h1
        rw [if_pos rfl, honce] at hx
        rw [if_pos rfl, if_neg (Ne.symm htried.ne)]
        omega
      · rw [if_neg h1] at hx
        rw [if_neg h1]
        omega
  · have hfailed : ¬ p.Copies w b m := fun hc => hcounted (hworks hc)
    obtain ⟨-, -, hcluster⟩ := (p.left_attempt w b m).failed hfailed
    have hcluster : (p.round w b m).sys.cluster = b.sys.cluster := hcluster
    refine ⟨by rw [hcluster]; exact h.nodup, ?_⟩
    rw [Redistribution.counts_round_of_not hcounted, hcluster]
    exact hperm

end Round

/-! ## Every sweep -/

/-- The round `n` of a sweep makes the move, and counts it. -/
def Redistribution.Made (p : Redistribution) (worlds : Nat → World) (s : Sys) (n : Nat) (b : Balance) (m : Move) : Prop :=
  p.loop.Tries worlds (.start s) n b m ∧ p.Counts (worlds n) b m

/-- The sweep returns if its loop, left to the stores as they are, has ended by then. Whatever the stores do in each round: each
    move that the loop counts makes its own counts more even; and the loop ends and
    each such move makes the catalog's counts of the Healthy shards more even, if and only if every copy that it tries works,
    then or in a later world, and the catalog's counts are uneven enough at each move. -/
theorem redistribution_iff (refs : Option RawRefRegistry) (batchSize : Nat) (tolerated : Nat → Nat → Nat → Bool) (s : Sys)
    (worlds : Nat → World) :
    (∀ rounds, ((redistributeSweep rounds batchSize tolerated refs).exec s).1.isSome ↔
      ∀ p ∈ redistribution refs batchSize tolerated s, p.loop.run (fun n => p.alone n (.start s)) (.start s) rounds = none) ∧
    ∀ p ∈ redistribution refs batchSize tolerated s,
      (∀ n b m, p.Made worlds s n b m → sumSquares (p.round (worlds n) b m).counts < sumSquares b.counts) ∧
      ((p.loop.Ends worlds (.start s) ∧ ∀ n b m, p.Made worlds s n b m →
          sumSquares (p.round (worlds n) b m).sys.cluster.shardObjectCounts < sumSquares b.sys.cluster.shardObjectCounts) ↔
        p.loop.Recovers worlds (.start s) ∧ ∀ n b m, p.Made worlds s n b m → b.Uneven m) := by
  refine ⟨fun rounds => redistributeSweep_returns_iff refs rounds batchSize tolerated s, fun p hp => ?_⟩
  have hstart : p.Sound (.start s) := Redistribution.sound_start hp
  have hsound : ∀ {n b m}, p.Made worlds s n b m → p.Sound b ∧ p.Tried b m := fun hmade =>
    ⟨p.lawful.inv_run hstart hmade.1.1, Redistribution.tried_of_next hmade.1.2⟩
  refine ⟨fun n b m hmade => ?_, and_congr (p.lawful.ends_iff hstart) ?_⟩
  · exact Redistribution.own_sumSquares_lt (hsound hmade).1 (hsound hmade).2 hmade.2
  · refine forall_congr' fun n => forall_congr' fun b => forall_congr' fun m => forall_congr' fun hmade => ?_
    exact Redistribution.sumSquares_round_iff (hsound hmade).1 (hsound hmade).2 hmade.2

/-- While no removal fails after its copy, the catalog's counts are uneven enough: what can go wrong is a copy that fails
    for ever. -/
theorem uneven_of_removals_work {p : Redistribution} {s : Sys} {worlds : Nat → World}
    (hs : ∀ k e, s.cluster.catalog.get k = some e → e.shards.Nodup)
    (hworks : ∀ n b m, p.loop.Tries worlds (.start s) n b m → p.Copies (worlds n) b m → p.Counts (worlds n) b m)
    {n : Nat} {b : Balance} {m : Move} (hmade : p.Made worlds s n b m) : b.Uneven m := by
  have hcurrent : ∀ n b, p.loop.run worlds (.start s) n = some b → b.Current := by
    intro n
    induction n with
    | zero =>
      intro b hb
      cases hb
      exact ⟨hs, .refl _⟩
    | succ n ih =>
      intro b hb
      obtain ⟨b', m, htries, rfl⟩ := Retry.exists_tries hb
      exact (ih b' htries.1).round (Redistribution.tried_of_next htries.2) (hworks n b' m htries)
  exact (hcurrent n b hmade.1.1).uneven (Redistribution.tried_of_next hmade.1.2)

/-! ## A shard that rejects every write -/

namespace Sample

def lopsided : Sys := (sys 2 (config 1 1) fun _ => fresh).withCatalog
  (Catalog.put "a" [0] 1 none 0 0 (Catalog.put "b" [0] 1 none 0 0 ⟨∅, false⟩))

/-- The first shard has its objects, and the second one fails the next write. -/
def rejecting : World :=
  ⟨fun id => if id = 1 then Store.failing fresh .put [broken] else Store.holding (Store.holding fresh "a" [1]) "b" [2], []⟩

def oneMove : Redistribution := ⟨none, fun _ => false, 1, [0, 1]⟩

def firstToSecond : Move := ⟨0, 1, "a", ⟨[0], 1, none, 0, 0⟩⟩

theorem mem_redistribution_lopsided : oneMove ∈ redistribution none 1 (fun _ _ _ => false) lopsided := by
  rfl

theorem next_lopsided : oneMove.next (.start lopsided) = some firstToSecond := by
  have hsorted : fullestFirst [(0, 2), (1, 0)] = [(0, 2), (1, 0)] := List.mergeSort_of_pairwise (by decide)
  have hcounts : (Balance.start lopsided).counts = [(0, 2), (1, 0)] := by decide
  unfold Redistribution.next
  rw [hcounts, hsorted]
  rfl

theorem not_copies_lopsided : ¬ oneMove.Copies rejecting (.start lopsided) firstToSecond := by
  unfold Redistribution.Copies
  decide

/-- The second shard rejects every write, and the loop tries the same copy for ever. -/
theorem lopsided_never_ends : ¬ oneMove.loop.Ends (fun _ => rejecting) (.start lopsided) := by
  have htries : oneMove.loop.Tries (fun _ => rejecting) (.start lopsided) 0 (.start lopsided) firstToSecond :=
    ⟨rfl, next_lopsided⟩
  exact oneMove.lawful.never_ends (Redistribution.sound_start mem_redistribution_lopsided) htries fun _ _ => not_copies_lopsided

theorem lopsided_does_not_recover : ¬ (oneMove.loop.Recovers (fun _ => rejecting) (.start lopsided) ∧
    ∀ n b m, oneMove.Made (fun _ => rejecting) lopsided n b m → b.Uneven m) := by
  intro h
  have hiff := (redistribution_iff none 1 (fun _ _ _ => false) lopsided (fun _ => rejecting)).2 oneMove mem_redistribution_lopsided |>.2
  exact lopsided_never_ends (hiff.mpr h).1

theorem full_shard_is_tried_for_ever : ¬ ∀ (refs : Option RawRefRegistry) (batchSize : Nat) (tolerated : Nat → Nat → Nat → Bool)
    (s : Sys) (worlds : Nat → World), ∀ p ∈ redistribution refs batchSize tolerated s, p.loop.Ends worlds (.start s) ∧
      ∀ n b m, p.Made worlds s n b m →
        sumSquares (p.round (worlds n) b m).sys.cluster.shardObjectCounts < sumSquares b.sys.cluster.shardObjectCounts := by
  intro hall
  exact lopsided_never_ends (hall _ _ _ lopsided (fun _ => rejecting) oneMove mem_redistribution_lopsided).1

end Sample

end ObjStr.Sharded
