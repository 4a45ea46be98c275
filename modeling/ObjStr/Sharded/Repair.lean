/-
  ObjStr.Sharded.Repair — rebuilding the catalog (`shardedobjstr/src/lib.rs`), and the sweeps that
  copy, trim and move replicas (`repair.rs`).

  A loop of the source that has no bound of its own takes the number of rounds it may run, and
  returns `none` if they do not suffice. `redistribute_sweep` compares `f64`s to decide
  whether the shards are balanced; any function may stand for that test here. The logging and
  progress messages are not modelled.
-/

import ObjStr.Sharded.Metadata

namespace ObjStr.Sharded

open ObjStr.Lib ObjStr.Raw

/-! ## Rebuild -/

/-- One object of a shard's listing, merged into the entries so far: entries are matched by key. -/
def mergeListed (shardId : ShardId) (entries : FMap PlacementEntry) (item : Key × Object × UInt16) : FMap PlacementEntry :=
  let (key, o, ml) := item
  if isSidecar key then entries
  else
    let entry := (entries.lookup key).getD ⟨[], o.body.length, none, o.lastModified, ml⟩
    entries.set key { entry with
      metaLen := if entry.metaLen < ml then ml else entry.metaLen
      shards := if entry.shards.contains shardId then entry.shards else entry.shards ++ [shardId] }

/-- What a shard lists: a raw shard from its index, which does not fail, with the metadata lengths. -/
def scanShard (refs : Option RawRefRegistry) (shardId : ShardId) (store : StoreRef) :
    ClusterM (Except StoreError (List (Key × Object × UInt16))) :=
  match refs.bind (·.get shardId) with
  | some raw => look fun s =>
      .ok ((s.stores raw).objects.entries.map fun e => (e.1, e.2, UInt16.ofNat e.2.metadata.length))
  | none => do
    let r ← store.list
    pure (r.map fun objects => objects.map fun o => (o.1, o.2, 0))

/-- Scan every shard that can be reached, and replace the catalog; a shard whose scan fails is left
    out. -/
def rebuildCatalog : ClusterM Unit := do
  let refs ← rawRefs
  let stores ← look fun s => ((List.range s.cluster.shards.length).filter fun id => s.cluster.available id).map fun id =>
    (id, s.cluster.storeRef id)
  let results ← Proc.joinAll (stores.map fun st => do
    let r ← scanShard refs st.1 st.2
    pure (st.1, r))
  let entries := results.foldl (fun m r => (r.2.toOption.getD []).foldl (mergeListed r.1) m) ∅
  Proc.step (fun s => ((), s.withCatalog (s.cluster.catalog.replace entries))) fun _ => .replaced
  Proc.step (fun s => ((), s.withCatalog s.cluster.catalog.clearDirty)) fun _ => .other

/-! ## Counting replicas -/

/-- `max_by_key`: the last one of those with the greatest key. -/
def maxByKey {α : Type} (f : α → Nat) (l : List α) : Option α :=
  l.foldl (fun best x => match best with
    | none => some x
    | some b => if f b ≤ f x then some x else some b) none

/-- `min_by_key`: the first one of those with the least key. -/
def minByKey {α : Type} (f : α → Nat) (l : List α) : Option α :=
  l.foldl (fun best x => match best with
    | none => some x
    | some b => if f x < f b then some x else some b) none

namespace Cluster

variable (c : Cluster)

def isHealthy (id : ShardId) : Bool := c.healthOf id = some .healthy

/-- How many of the shards have one of these states of health. -/
def countHealth (shards : List ShardId) (states : List ShardHealth) : Nat :=
  (shards.filter fun id => (c.healthOf id).any states.contains).length

def freeSpaceOf (id : ShardId) : Nat := ((c.shards[id]?).map (·.freeSpace)).getD 0

/-- The keys with too few replicas that are Healthy or Syncing, and how many they have. -/
def findUnderReplicated : List (Key × Nat) :=
  (c.catalog.inner.entries.map fun e => (e.1, c.countHealth e.2.shards [.healthy, .syncing])).filter fun e =>
    e.2 < c.config.replicationFactor

/-- The keys with too many replicas that are Healthy or Degraded, and how many they have. -/
def findOverReplicated : List (Key × Nat) :=
  (c.catalog.inner.entries.map fun e => (e.1, c.countHealth e.2.shards [.healthy, .degraded])).filter fun e =>
    c.config.replicationFactor < e.2

def shardObjectCounts : List (ShardId × Nat) :=
  ((List.range c.shards.length).filter fun id => c.isHealthy id).map fun id =>
    (id, (c.catalog.inner.entries.map fun e => e.2.shards.count id).sum)

/-- The Healthy shard with the most free space that does not have the object. -/
def replicationTarget (existing : List ShardId) : Option ShardId :=
  maxByKey c.freeSpaceOf ((List.range c.shards.length).filter fun id => !existing.contains id && c.isHealthy id)

/-- The Healthy shard with the least free space that can go, with enough Healthy ones left. -/
def excessShard (shards : List ShardId) : Option ShardId :=
  if shards.length ≤ c.config.replicationFactor then none
  else minByKey c.freeSpaceOf ((shards.filter fun id => c.isHealthy id).filter fun candidate =>
    c.config.replicationFactor ≤ ((shards.filter (· != candidate)).filter fun id => c.isHealthy id).length)

end Cluster

def findReplicationTarget (key : Key) : ClusterM (Option ShardId) := do
  let entry ← catalogGet key
  look fun s => s.cluster.replicationTarget ((entry.map (·.shards)).getD [])

def pickExcessShard (key : Key) : ClusterM (Option ShardId) := do
  match ← catalogGet key with
  | none => pure none
  | some entry => look fun s => s.cluster.excessShard entry.shards

/-! ## Copying and removing a replica -/

/-- Copy an object from one shard to another, and list it there; the size. -/
def replicateObject (key : Key) (fromShard toShard : ShardId) (refs : Option RawRefRegistry) : ClusterM (Except Error Nat) := do
  let stores ← look fun s =>
    if fromShard < s.cluster.shards.length && toShard < s.cluster.shards.length then
      some (s.cluster.storeRef fromShard, s.cluster.storeRef toShard)
    else none
  match stores with
  | none => pure (.error .noShards)
  | some (fromStore, toStore) => do
    let path := Path.fromStr key
    match ← fromStore.get path with
    | .error e => pure (.error (.store e))
    | .ok o => do
      let metaBytes ← match refs with
        | some refs => readMetadataFromShard fromStore fromShard path o.attributes refs
        | none => pure none
      let written ← match metaBytes, refs with
        | some m, some refs => writeWithMetaToShard refs toShard toStore path o.body m
        | _, _ => toStore.put path { body := o.body }
      match written with
      | .error e => pure (.error (.store e))
      | .ok _ => do
        catalogAddReplica key toShard o.body.length (UInt16.ofNat (metaBytes.getD []).length)
        pure (.ok o.body.length)

/-- The end of `replicateObject`: a copy that was written is listed. -/
def listCopy (key : Key) (toShard : ShardId) (size : Nat) (metaLen : UInt16) (written : Except StoreError Unit) :
    ClusterM (Except Error Nat) :=
  match written with
  | .error e => pure (.error (.store e))
  | .ok _ => do
    catalogAddReplica key toShard size metaLen
    pure (.ok size)

def removeReplica (key : Key) (shardId : ShardId) : ClusterM (Except Error Unit) := do
  match ← shardStore shardId with
  | none => pure (.error .noShards)
  | some store => do
    let path := Path.fromStr key
    let refs ← rawRefs
    cleanupSidecarMaybe store path refs shardId
    match ← store.delete path with
    | .error e => pure (.error (.store e))
    | .ok _ => do
      catalogRemoveShard key shardId
      pure (.ok ())

/-! ## The repair sweep -/

structure RepairReplicationResult where
  reReplicated : Nat
  trimmed : Nat
  underRemaining : Nat
  overRemaining : Nat
  deriving DecidableEq, Repr

def replicationFactor : ClusterM Nat := look fun s => s.cluster.config.replicationFactor

/-- Copy one key until it has enough replicas; `n` counts the copies. -/
def repairKey (refs : Option RawRefRegistry) (key : Key) : (rounds : Nat) → (n : Nat) → ClusterM (Option Nat)
  | 0, _ => pure none
  | rounds + 1, n => do
    match ← catalogGet key with
    | none => pure (some n)
    | some entry => do
      let enough ← look fun s =>
        decide (s.cluster.config.replicationFactor ≤ s.cluster.countHealth entry.shards [.healthy, .syncing])
      if enough then pure (some n)
      else do
        match ← look fun s => entry.shards.find? fun id => s.cluster.isHealthy id with
        | none => pure (some n)
        | some source => do
          match ← findReplicationTarget key with
          | none => pure (some n)
          | some target => do
            match ← replicateObject key source target refs with
            | .ok _ => repairKey refs key rounds (n + 1)
            | .error _ => pure (some n)

/-- Remove replicas of one key while it has too many; `n` counts the removals. -/
def trimKey (key : Key) : (rounds : Nat) → (n : Nat) → ClusterM (Option Nat)
  | 0, _ => pure none
  | rounds + 1, n => do
    match ← pickExcessShard key with
    | none => pure (some n)
    | some shard => do
      match ← removeReplica key shard with
      | .ok _ => trimKey key rounds (n + 1)
      | .error _ => pure (some n)

/-- Run a loop for each key, as long as the rounds suffice. -/
def forKeys (keys : List (Key × Nat)) (f : Key → Nat → ClusterM (Option Nat)) : ClusterM (Option Nat) :=
  keys.foldlM (fun acc k => match acc with
    | none => pure none
    | some n => f k.1 n) (some 0)

def forKey (f : Key → Nat → ClusterM (Option Nat)) (acc : Option Nat) (k : Key × Nat) : ClusterM (Option Nat) :=
  match acc with
  | none => pure none
  | some n => f k.1 n

/-- Copy what has too few replicas, then trim what has too many. -/
def repairReplicationSweep (rounds batchSize : Nat) (refs : Option RawRefRegistry) :
    ClusterM (Option RepairReplicationResult) := do
  let under ← look fun s => s.cluster.findUnderReplicated
  let copied ← forKeys (under.take batchSize) fun key n => repairKey refs key rounds n
  let overKeys ← look fun s => s.cluster.findOverReplicated
  let trimmed ← forKeys (overKeys.take batchSize) fun key n => trimKey key rounds n
  let underLeft ← look fun s => s.cluster.findUnderReplicated.length
  let overLeft ← look fun s => s.cluster.findOverReplicated.length
  pure (do pure ⟨← copied, ← trimmed, underLeft, overLeft⟩)

/-! ## The trim -/

/-- Remove one replica of each key that has too many; the number removed. -/
def overReplicationTrim (batchSize : Nat) : ClusterM Nat := do
  let overKeys ← look fun s => s.cluster.findOverReplicated
  (overKeys.take batchSize).foldlM (fun trimmed k => do
    match ← pickExcessShard k.1 with
    | none => pure trimmed
    | some shard => do
      match ← removeReplica k.1 shard with
      | .ok _ => pure (trimmed + 1)
      | .error _ => pure trimmed) 0

/-! ## The redistribution -/

structure RedistributeResult where
  moved : Nat := 0
  skipped : Nat := 0
  errors : Nat := 0
  shardCounts : List (ShardId × Nat) := []
  deriving DecidableEq, Repr

/-- Move one object: copy it, check that there are enough replicas, then remove it from the source.
    Whether it was moved. -/
def moveObject (refs : Option RawRefRegistry) (healthySet : List ShardId) (key : Key) (src dst : ShardId)
    (result : RedistributeResult) : ClusterM (Bool × RedistributeResult) := do
  match ← replicateObject key src dst refs with
  | .error _ => pure (false, { result with errors := result.errors + 1 })
  | .ok _ => do
    let rf ← replicationFactor
    let entry ← catalogGet key
    if entry.any fun e => rf ≤ (e.shards.filter fun s => healthySet.contains s).length then do
      match ← removeReplica key src with
      | .ok _ => pure (true, { result with moved := result.moved + 1 })
      | .error _ => pure (false, { result with errors := result.errors + 1 })
    else pure (false, { result with skipped := result.skipped + 1 })

/-- The object to move: on the source, not on the destination, with enough replicas elsewhere. -/
def movable (rf : Nat) (healthySet : List ShardId) (src dst : ShardId) (candidate : Key × PlacementEntry) : Bool :=
  !candidate.2.shards.contains dst &&
    rf ≤ (candidate.2.shards.filter fun s => s != src && healthySet.contains s).length + 1

/-- Move objects from the fullest shard to the emptiest. -/
def redistributeLoop (refs : Option RawRefRegistry) (tolerated : Nat → Bool) (batchSize : Nat)
    (healthySet : List ShardId) :
    (rounds : Nat) → (counts : List (ShardId × Nat)) → RedistributeResult → ClusterM (Option RedistributeResult)
  | 0, _, _ => pure none
  | rounds + 1, counts, result =>
    if result.moved < batchSize then
      let counts := counts.mergeSort fun a b => b.2 ≤ a.2
      match counts.head?, counts.getLast? with
      | some (src, srcCount), some (dst, dstCount) =>
        if tolerated (srcCount - dstCount) || srcCount ≤ dstCount + 1 then pure (some result)
        else do
          let rf ← replicationFactor
          let candidates ← look fun s => s.cluster.catalog.entriesForShard src
          match candidates.find? (movable rf healthySet src dst) with
          | none => pure (some result)
          | some (key, _) => do
            let (moved, result) ← moveObject refs healthySet key src dst result
            let counts := if moved then counts.map fun c =>
              (c.1, (if c.1 = src then c.2 - 1 else c.2) + (if c.1 = dst then 1 else 0)) else counts
            redistributeLoop refs tolerated batchSize healthySet rounds counts result
      | _, _ => pure (some result)
    else pure (some result)

/-- `tolerated` says of a difference between two counts, with the sum of all counts and their number,
    whether it is within the tolerance. -/
def redistributeSweep (rounds batchSize : Nat) (tolerated : Nat → Nat → Nat → Bool) (refs : Option RawRefRegistry) :
    ClusterM (Option RedistributeResult) := do
  let under ← look fun s => s.cluster.findUnderReplicated
  let counts ← look fun s => s.cluster.shardObjectCounts
  let total := (counts.map (·.2)).sum
  let spread := ((counts.map (·.2)).max?.getD 0) - ((counts.map (·.2)).min?.getD 0)
  if !under.isEmpty || counts.length < 2 || total = 0 || tolerated total counts.length spread then
    pure (some { shardCounts := counts })
  else do
    let result ← redistributeLoop refs (tolerated total counts.length) batchSize (counts.map (·.1)) rounds counts {}
    let counts ← look fun s => s.cluster.shardObjectCounts
    pure (result.map fun r => { r with shardCounts := counts })

end ObjStr.Sharded
