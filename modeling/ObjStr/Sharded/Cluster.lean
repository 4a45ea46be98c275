/-
  ObjStr.Sharded.Cluster — the cluster as a process: its atomic steps, the health of its shards,
  and which shards hold a key (`shardedobjstr/src/lib.rs`, `replication.rs`).

  A step is a call of a shard's store, a method of the catalog, or what is done while the
  shards' lock is held once; everything else may happen in between. A step reports the store
  calls and catalog changes it makes (`Event`).

  `jump_consistent_hash` computes in `f64`: the quotient and the product are rounded to the
  nearest double (`toDouble`), and the result is truncated.
-/

import ObjStr.Sharded.Catalog
import Mathlib.Algebra.Order.Floor.Defs
import Mathlib.Data.Rat.Floor

namespace ObjStr.Sharded

open ObjStr.Lib ObjStr.Raw

/-! ## Steps -/

inductive Event where
  /-- A call of a store, and what it failed with. -/
  | call (store : StoreId) (kind : Call) (key : Key) (failure : Option StoreError)
  /-- `Catalog::put`. -/
  | recorded (key : Key) (entry : PlacementEntry)
  /-- `Catalog::try_insert`, and whether there was no entry. -/
  | inserted (key : Key) (done : Bool)
  | replicaAdded (key : Key) (shard : ShardId)
  /-- `Catalog::remove`, and the entry there was. -/
  | removed (key : Key) (entry : Option PlacementEntry)
  | shardRemoved (key : Key) (shard : ShardId)
  /-- `Catalog::remove_all_for_shard`. -/
  | shardPurged (shard : ShardId)
  /-- `Catalog::replace`. -/
  | replaced
  | other
  deriving DecidableEq

abbrev ClusterM := Proc Event Sys

def Sys.now (s : Sys) : DateTime := s.clock.headD 0

def Sys.tick (s : Sys) : Sys := { s with clock := s.clock.tail }

def Sys.withCatalog (s : Sys) (c : Catalog) : Sys := { s with cluster := { s.cluster with catalog := c } }

def look {α : Type} (f : Sys → α) : ClusterM α := Proc.step (fun s => (f s, s)) fun _ => .other

/-! ## Store calls -/

def failure {α : Type} : Except StoreError α → Option StoreError
  | .ok _ => none
  | .error e => some e

def onStore {α : Type} (id : StoreId) (kind : Call) (key : Key) (f : Store → Except StoreError α × Store) :
    ClusterM (Except StoreError α) :=
  Proc.step
    (fun s => ((f (s.stores id)).1, { s with stores := Function.update s.stores id (f (s.stores id)).2 }))
    fun r => .call id kind key (failure r)

/-- `Arc<dyn ObjectStore>`: a store, or the placeholder. -/
abbrev StoreRef := Option StoreId

namespace StoreRef

variable {α : Type}

/-- A call of a store; the placeholder fails it. -/
def call (r : StoreRef) (kind : Call) (key : Key) (f : Store → Except StoreError α × Store) :
    ClusterM (Except StoreError α) :=
  match r with
  | some id => onStore id kind key f
  | none => pure (.error (.backend false))

def put (r : StoreRef) (key : Key) (up : Upload) : ClusterM (Except StoreError Unit) := r.call .put key (Store.put key up)

def get (r : StoreRef) (key : Key) : ClusterM (Except StoreError Object) := r.call .get key (Store.get key)

def head (r : StoreRef) (key : Key) : ClusterM (Except StoreError Object) := r.call .head key (Store.head key)

def delete (r : StoreRef) (key : Key) : ClusterM (Except StoreError Unit) := r.call .delete key (Store.delete key)

def list (r : StoreRef) : ClusterM (Except StoreError (List (Key × Object))) := r.call .list "" Store.list

end StoreRef

/-- `shards[id].store`. -/
def Cluster.storeRef (c : Cluster) (id : ShardId) : StoreRef :=
  if (c.shards[id]?).any (·.attached) then some (c.config.storeOf id) else none

/-- `shards.get(id).map(|s| s.store.clone())`. -/
def shardStore (id : ShardId) : ClusterM (Option StoreRef) :=
  look fun s => if id < s.cluster.shards.length then some (s.cluster.storeRef id) else none

/-- The stores of those of the shards that exist, taken under the lock. -/
def storesOf (ids : List ShardId) : ClusterM (List (ShardId × StoreRef)) :=
  look fun s => (ids.filter (· < s.cluster.shards.length)).map fun id => (id, s.cluster.storeRef id)

/-! ## Catalog steps -/

def catalogGet (key : Key) : ClusterM (Option PlacementEntry) := look fun s => s.cluster.catalog.get key

def catalogPut (key : Key) (shards : List ShardId) (size : Nat) (crc : Option UInt32) (metaLen : UInt16) :
    ClusterM PlacementEntry :=
  Proc.step
    (fun s => (⟨shards, size, crc, s.now, metaLen⟩,
      s.tick.withCatalog (s.cluster.catalog.put key shards size crc metaLen s.now)))
    fun e => .recorded key e

def catalogAddReplica (key : Key) (shardId : ShardId) (size : Nat) (metaLen : UInt16) : ClusterM Unit :=
  Proc.step (fun s => ((), s.tick.withCatalog (s.cluster.catalog.addReplica key shardId size metaLen s.now)))
    fun _ => .replicaAdded key shardId

def catalogTryInsert (key : Key) (shards : List ShardId) (size : Nat) : ClusterM Bool :=
  Proc.step
    (fun s => ((s.cluster.catalog.tryInsert key shards size s.now).1,
      s.tick.withCatalog (s.cluster.catalog.tryInsert key shards size s.now).2))
    fun done => .inserted key done

def catalogRemove (key : Key) : ClusterM (Option PlacementEntry) :=
  Proc.step (fun s => ((s.cluster.catalog.remove key).1, s.withCatalog (s.cluster.catalog.remove key).2))
    fun e => .removed key e

def catalogRemoveShard (key : Key) (shardId : ShardId) : ClusterM Unit :=
  Proc.step (fun s => ((), s.withCatalog (s.cluster.catalog.removeShard key shardId))) fun _ => .shardRemoved key shardId

def catalogRemoveAllForShard (shardId : ShardId) : ClusterM Nat :=
  Proc.step
    (fun s => ((s.cluster.catalog.removeAllForShard shardId).1,
      s.withCatalog (s.cluster.catalog.removeAllForShard shardId).2))
    fun _ => .shardPurged shardId

/-! ## Health -/

/-- `set_shard_health` on one shard: the time it went out of service is kept while it is out. -/
def ShardInfo.setHealth (info : ShardInfo) (health : ShardHealth) (now : DateTime) : ShardInfo :=
  if health.isUnavailable || health == .degraded then
    if !info.health.isUnavailable && info.health != .degraded then
      { info with health, offlineSince := some now }
    else { info with health }
  else if health == .healthy then
    { info with health, offlineSince := none, detachReason := none, suppressReplication := false }
  else { info with health }

def Cluster.setShardHealth (c : Cluster) (id : ShardId) (health : ShardHealth) (now : DateTime) : Cluster :=
  { c with shards := c.shards.modify id (·.setHealth health now) }

def setShardHealth (id : ShardId) (health : ShardHealth) : ClusterM Unit :=
  Proc.step (fun s => ((), { s.tick with cluster := s.cluster.setShardHealth id health s.now })) fun _ => .other

def Cluster.healthOf (c : Cluster) (id : ShardId) : Option ShardHealth := (c.shards[id]?).map (·.health)

def Cluster.available (c : Cluster) (id : ShardId) : Bool := (c.healthOf id).any fun h => !h.isUnavailable

def shardHealth (id : ShardId) : ClusterM (Option ShardHealth) := look fun s => s.cluster.healthOf id

/-! ## Placement -/

/-- The nearest double of a number of at least 1, ties to even. -/
def toDouble (q : ℚ) : ℚ :=
  -- 53 bits: the exponent of the last one
  let ulp : ℚ := 2 ^ ((Nat.log2 ⌊q⌋₊ : Int) - 52)
  let m := ⌊q / ulp⌋₊
  let rest := q / ulp - m
  if rest < 1 / 2 || (rest == 1 / 2 && m % 2 == 0) then m * ulp else (m + 1) * ulp

/-- The loop of `jump_consistent_hash`: at most one round for each bucket. -/
def jumpLoop (numBuckets : Nat) : (rounds : Nat) → (key : UInt64) → (b : Int) → (j : Nat) → Int
  | 0, _, b, _ => b
  | rounds + 1, key, b, j =>
    if j < numBuckets then
      let key := key * 2862933555777941757 + 1
      let j' := ⌊toDouble ((j + 1) * toDouble (2 ^ 31 / ((key >>> 33).toNat + 1)))⌋₊
      jumpLoop numBuckets rounds key j j'
    else b

def jumpConsistentHash (key : UInt64) (numBuckets : UInt32) : UInt32 :=
  UInt32.ofInt (jumpLoop numBuckets.toNat numBuckets.toNat key (-1) 0)

section Placement

variable [Crates] (c : Cluster)

def Cluster.home (key : Key) : Nat :=
  (jumpConsistentHash (crc32c (keyBytes key)).toUInt64 (UInt32.ofNat c.shards.length)).toNat

def Cluster.writable (id : ShardId) : Bool := (c.healthOf id).any fun h => !h.isUnavailable && h != .syncing

/-- The shards that should hold a new object: all writable ones if there are not more than needed,
    else the first ones clockwise from the key's home. -/
def Cluster.selectTargets (path : Key) : List ShardId :=
  let rf := c.config.replicationFactor
  let n := c.shards.length
  let writable := (List.range n).filter fun id => c.writable id
  if writable.length ≤ rf then writable
  else (((List.range n).map fun offset => (c.home path + offset) % n).filter fun id => c.writable id).take rf

def selectTargets (path : Key) : ClusterM (List ShardId) := look fun s => s.cluster.selectTargets path

/-- The shards an existing object may be on: those of its entry, or all, the likeliest first. -/
def Cluster.replicas (key : Key) (entry : Option PlacementEntry) : List ShardId :=
  match entry with
  | some e => (e.shards.filter (· < c.shards.length)).filter fun id => c.available id
  | none =>
    let n := c.shards.length
    let ids := (List.range n).filter fun id => c.available id
    ids.mergeSort fun a b => (a + n - c.home key) % n ≤ (b + n - c.home key) % n

/-- `balanced_shard_order`: start one further on each read. -/
def balancedShardOrder (shards : List ShardId) : ClusterM (List ShardId) :=
  if shards.length ≤ 1 then pure shards
  else Proc.step
    (fun s => (shards.rotate (s.cluster.readCounter % shards.length),
      { s with cluster := { s.cluster with readCounter := s.cluster.readCounter + 1 } }))
    fun _ => .other

/-- The shards to read an object from, in order, and whether it has no entry. -/
def resolveShards (key : Key) : ClusterM (List ShardId × Bool) := do
  let entry ← catalogGet key
  let raw ← look fun s => s.cluster.replicas key entry
  let pref ← look fun s => s.cluster.readPreference
  match pref with
  | .ordered => pure (raw, entry.isNone)
  | .roundRobin => do
    let ordered ← balancedShardOrder raw
    pure (ordered, entry.isNone)

end Placement

end ObjStr.Sharded
