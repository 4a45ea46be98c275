/-
  ObjStr.Sharded.Recovery — taking a shard out and putting it back (`shardedobjstr/src/lib.rs`), the sync
  of a shard that comes back (`repair.rs`), and the recovery task of the daemon
  (`objstrd/src/recovery.rs`).

  The store a shard is attached to is its own (`Config.storeOf`), and the daemon keeps it for the
  shards that have one (`Daemon.originals`). A probe lists the store; one that runs out of time
  fails like any other. What the daemon finds at the paths of the devices is not decided: each
  pass is given what it sees. The log, the recovery status and the time of a pass are not modelled.
-/

import ObjStr.Sharded.Repair
import ObjStr.Sharded.Vacuum

namespace ObjStr.Sharded

open ObjStr.Lib ObjStr.Raw

/-! ## Out -/

/-- What is done to one shard while the lock is held. -/
def Cluster.onShard (c : Cluster) (id : ShardId) (f : ShardInfo → ShardInfo) : Cluster :=
  { c with shards := c.shards.modify id f }

def changeShard (id : ShardId) (f : DateTime → ShardInfo → ShardInfo) : ClusterM Unit :=
  Proc.step (fun s => ((), { s.tick with cluster := s.cluster.onShard id (f s.now) })) fun _ => .other

/-- The placeholder is in place of the store. -/
def ShardInfo.detach (info : ShardInfo) (health : ShardHealth) (now : DateTime) : ShardInfo :=
  { info with
    attached := false
    health
    freeSpace := 0
    offlineSince := if info.health.isUnavailable then info.offlineSince else some now }

def detachShard (id : ShardId) : ClusterM Unit := changeShard id fun now i => i.detach .offline now

def setDetachReason (id : ShardId) (reason : DetachReason) : ClusterM Unit :=
  changeShard id fun _ i => { i with detachReason := some reason }

/-- Taken out by hand: the recovery does not put it back. -/
def holdOffline (id : ShardId) (suppressReplication : Bool) (reason : DetachReason) : ClusterM Unit :=
  changeShard id fun now i => { i.detach .detached now with detachReason := some reason, suppressReplication }

def releaseHold (id : ShardId) : ClusterM Unit :=
  changeShard id fun _ i =>
    if i.health = .detached then { i with health := .offline, detachReason := none, suppressReplication := false } else i

/-! ## Back -/

/-- `rebuild_catalog_for_shard`: the entries forget the shard, then those of the objects found on it list
    it. A raw shard is not filtered. -/
def rebuildCatalogForShard (id : ShardId) : ClusterM (Except Error Nat) := do
  match ← shardStore id with
  | none => pure (.error .noShards)
  | some store => do
    let _ ← catalogRemoveAllForShard id
    let refs ← rawRefs
    match ← scanShard refs id store with
    | .error e => pure (.error (.store e))
    | .ok items => do
      let kept := if (refs.bind (·.get id)).isSome then items else items.filter fun item => !isSidecar item.1
      kept.forM fun item => catalogAddReplica item.1 id item.2.1.body.length item.2.2
      pure (.ok kept.length)

structure InvalidateReport where
  entriesPurged : Nat
  entriesRestored : Nat
  missingKeys : List Key
  scanOk : Bool
  deriving DecidableEq, Repr

/-- `invalidate_shard`: Degraded while the shard is scanned, and Healthy if that works. -/
def invalidateShard (id : ShardId) : ClusterM (Except Error InvalidateReport) := do
  let known ← look fun s => decide (id < s.cluster.shards.length)
  if !known then pure (.error .noShards)
  else do
    changeShard id fun _ i => { i with health := .degraded }
    let oldKeys ← look fun s => (s.cluster.catalog.entriesForShard id).map (·.1)
    let purged ← catalogRemoveAllForShard id
    let scanned ← rebuildCatalogForShard id
    let newKeys ← look fun s => (s.cluster.catalog.entriesForShard id).map (·.1)
    let report : InvalidateReport :=
      ⟨purged, scanned.toOption.getD 0, oldKeys.filter fun k => !newKeys.contains k, scanned.toOption.isSome⟩
    if scanned.toOption.isSome then do
      changeShard id fun _ i => { i with health := .healthy, offlineSince := none }
      pure (.ok report)
    else pure (.ok report)

/-- `attach_shard`: the store is in place and the shard Syncing while it is scanned. -/
def attachShard (id : ShardId) (force : Bool) : ClusterM (Except Error Nat) := do
  let known ← Proc.step (fun s => (decide (id < s.cluster.shards.length),
    { s with cluster := s.cluster.onShard id fun i =>
      { i with
        attached := true
        health := .syncing
        freeSpace := 2 ^ 64 - 1
        offlineSince := none
        suppressReplication := false
        detachReason := none } })) fun _ => .other
  if !known then pure (.error .noShards)
  else do
    let result ←
      if force then rebuildCatalogForShard id
      else do
        let report ← invalidateShard id
        pure (report.map (·.entriesRestored))
    changeShard id fun now i =>
      if result.toOption.isSome then { i with health := .healthy } else { i with health := .offline, offlineSince := some now }
    pure result

/-! ## Sync -/

def firstHealthy : List ShardId → ClusterM (Option ShardId)
  | [] => pure none
  | id :: ids => do
    let health ← shardHealth id
    if health = some .healthy then pure (some id) else firstHealthy ids

section Sync

variable [Crates]

/-- `read_source_metadata`: of any replica; an entry without a length is taken to have none. -/
def readSourceMetadata (refs : RawRefRegistry) (location : Key) : ClusterM Bytes := do
  let entry ← catalogGet location
  if entry.any fun e => e.metaLen = 0 then pure []
  else do
    let found ← getMetadata refs location
    pure (found.toOption.getD [])

def writeCopy (refs : Option RawRefRegistry) (target : ShardId) (store : StoreRef) (location : Key) (data : Bytes) :
    ClusterM (Except StoreError Unit) :=
  match refs with
  | none => store.put location { body := data }
  | some refs => do
    let metadata ← readSourceMetadata refs location
    writeWithMetaToShard refs target store location data metadata

structure MirrorSyncReport where
  copied : Nat := 0
  updated : Nat := 0
  deleted : Nat := 0
  bytesCopied : Nat := 0
  deriving DecidableEq, Repr

/-- Copy what is missing or old on the target. -/
def mirrorCopies (refs : Option RawRefRegistry) (target : ShardId) (source store : StoreRef) (targetObjects : List (Key × Object)) :
    List (Key × Object) → MirrorSyncReport → ClusterM (Except StoreError MirrorSyncReport)
  | [], stats => pure (.ok stats)
  | (key, o) :: rest, stats =>
    let there := (targetObjects.find? fun t => t.1 = key).map (·.2)
    if there.all fun t => t.lastModified < o.lastModified || o.body.length ≠ t.body.length then do
      match ← source.get key with
      | .error e => pure (.error e)
      | .ok data => do
        match ← writeCopy refs target store key data.body with
        | .error e => pure (.error e)
        | .ok _ =>
          let stats := { stats with bytesCopied := stats.bytesCopied + o.body.length }
          mirrorCopies refs target source store targetObjects rest
            (if there.isSome then { stats with updated := stats.updated + 1 } else { stats with copied := stats.copied + 1 })
    else mirrorCopies refs target source store targetObjects rest stats

/-- Delete what the source does not have. -/
def mirrorDeletes (store : StoreRef) (sourceKeys : List Key) :
    List (Key × Object) → MirrorSyncReport → ClusterM (Except StoreError MirrorSyncReport)
  | [], stats => pure (.ok stats)
  | (key, _) :: rest, stats =>
    if sourceKeys.contains key then mirrorDeletes store sourceKeys rest stats
    else do
      match ← store.delete key with
      | .error e => pure (.error e)
      | .ok _ => mirrorDeletes store sourceKeys rest { stats with deleted := stats.deleted + 1 }

/-- `mirror_sync`: make the target's store the same as that of a Healthy shard. -/
def mirrorSync (original : StoreRef) (target : ShardId) (given : Option RawRefRegistry) :
    ClusterM (Except Error MirrorSyncReport) := do
  let own ← rawRefs
  let refs := given.or own
  let ids ← look fun s => (List.range s.cluster.shards.length).filter (· ≠ target)
  match ← firstHealthy ids with
  | none => pure (.error .noShards)
  | some sourceShard => do
    match ← shardStore sourceShard with
    | none => pure (.error .noShards)
    | some source =>
      if original.isNone then pure (.error .noShards)
      else do
        match ← source.list with
        | .error e => pure (.error (.store e))
        | .ok sourceObjects => do
          match ← original.list with
          | .error e => pure (.error (.store e))
          | .ok targetObjects => do
            match ← mirrorCopies refs target source original targetObjects sourceObjects {} with
            | .error e => pure (.error (.store e))
            | .ok stats => do
              let done ← mirrorDeletes original (sourceObjects.map (·.1)) targetObjects stats
              pure (done.mapError .store)

def syncKey (refs : Option RawRefRegistry) (target : ShardId) (original : StoreRef) (key : Key) : ClusterM Bool := do
  match ← catalogGet key with
  | none => pure false
  | some entry => do
    match ← firstHealthy (entry.shards.filter (· ≠ target)) with
    | none => pure false
    | some sourceShard => do
      match ← shardStore sourceShard with
      | none => pure false
      | some source => do
        let path := Path.fromStr key
        match ← source.get path with
        | .error _ => pure false
        | .ok o => do
          let written ← writeCopy refs target original path o.body
          pure written.toOption.isSome

/-- A copy that is not newer than the delete goes. -/
def replayMarker (original : StoreRef) (marker : Key × DateTime) : ClusterM Unit := do
  let path := Path.fromStr marker.1
  match ← original.head path with
  | .error _ => pure ()
  | .ok o =>
    if o.lastModified ≤ marker.2 then do
      let _ ← original.delete path
      pure ()
    else pure ()

/-- A copy that has no entry goes, and one that is older than its entry is replaced. -/
def refreshObject (refs : Option RawRefRegistry) (target : ShardId) (original : StoreRef) (item : Key × Object) :
    ClusterM Unit := do
  if isDeleteMarker item.1 then pure ()
  else do
    match ← catalogGet item.1 with
    | none => do
      let _ ← original.delete item.1
      pure ()
    | some entry =>
      if item.2.lastModified < entry.updated then do
        match ← firstHealthy (entry.shards.filter (· ≠ target)) with
        | none => do
          let _ ← original.delete item.1
          pure ()
        | some sourceShard => do
          match ← shardStore sourceShard with
          | none => pure ()
          | some source => do
            match ← source.get item.1 with
            | .error _ => do
              let _ ← original.delete item.1
              pure ()
            | .ok o => do
              let _ ← writeCopy refs target original item.1 o.body
              pure ()
      else pure ()

variable [Chrono]

/-- A marker that the cluster has no more goes, and one of a key that has been written again. -/
def refreshMarker (original : StoreRef) (item : Key × Object) : ClusterM Unit := do
  match markedKey item.1 with
  | none => pure ()
  | some key => do
    let found ← original.get item.1
    match found.toOption.bind fun o => Chrono.parseFromRfc3339 o.body with
    | none => pure ()
    | some deletedAt => do
      match ← getDeleteMarker key with
      | none => do
        let _ ← original.delete item.1
        pure ()
      | some _ => do
        match ← head (Path.fromStr key) with
        | .error _ => pure ()
        | .ok live =>
          if deletedAt < live.lastModified then do
            let _ ← original.delete item.1
            pure ()
          else pure ()

/-- `partitioned_sync`: copy what has too few replicas, replay the deletes, and go through what the target
    holds. A listing that fails is taken to be empty. -/
def partitionedSync (original : StoreRef) (target : ShardId) (given : Option RawRefRegistry) :
    ClusterM (Except Error Nat) := do
  let own ← rawRefs
  let refs := given.or own
  if original.isNone then pure (.error .noShards)
  else do
    let under ← look fun s => s.cluster.findUnderReplicated
    let replicated ← under.foldlM (fun n k => do
      let copied ← syncKey refs target original k.1
      pure (if copied then n + 1 else n)) 0
    let markers ← listDeleteMarkers
    markers.forM (replayMarker original)
    let listed ← original.list
    let targetObjects := listed.toOption.getD []
    -- the given registry, not the cluster's
    targetObjects.forM (refreshObject given target original)
    targetObjects.forM (refreshMarker original)
    pure (.ok replicated)

/-! ## The recovery task -/

structure Daemon where
  /-- The shards whose store is kept. -/
  originals : ShardId → Bool
  rawRefs : Option RawRefRegistry
  failureThreshold : Nat
  batchSize : Nat

omit [Crates] [Chrono] in
def Daemon.original (d : Daemon) (id : ShardId) : ClusterM StoreRef :=
  look fun s => if d.originals id then some (s.cluster.config.storeOf id) else none

def syncAndReattach (d : Daemon) (id : ShardId) : ClusterM Unit := do
  setShardHealth id .syncing
  let isMirror ← look fun s => decide (s.cluster.config.replicationFactor = s.cluster.shards.length)
  let original ← d.original id
  let synced ←
    if isMirror then do
      let r ← mirrorSync original id d.rawRefs
      pure r.toOption.isSome
    else do
      let r ← partitionedSync original id d.rawRefs
      pure r.toOption.isSome
  if !synced || original.isNone then setShardHealth id .offline
  else do
    let attached ← attachShard id true
    if attached.toOption.isSome then pure () else setShardHealth id .offline

omit [Crates] [Chrono] in
def probeStore (r : StoreRef) : ClusterM Bool := do
  let listed ← r.list
  pure listed.toOption.isSome

/-- What a pass sees: whether the path of a shard's device is known, and whether it exists; and
    whether an operation of the administrator is running. -/
structure Sighting where
  device : ShardId → Option Bool
  adminOpActive : Bool

/-- One shard of a pass; the number of probes that have failed in a row. -/
def recoverShard (d : Daemon) (seen : Sighting) (id : ShardId) (fails : Nat) : ClusterM Nat := do
  match ← shardHealth id with
  | none => pure fails
  | some health =>
    if health = .healthy || health = .degraded then
      if seen.device id = some false then do
        detachShard id
        setDetachReason id .deviceMissing
        pure 0
      else do
        match ← shardStore id with
        | none => pure fails
        | some store => do
          if ← probeStore store then pure 0
          else if d.failureThreshold ≤ fails + 1 then do
            detachShard id
            setDetachReason id .probeFailure
            pure 0
          else pure (fails + 1)
    else if health = .offline then
      if seen.device id = some false then pure fails
      else do
        let original ← d.original id
        if original.isNone then pure fails
        else if ← probeStore original then do
          syncAndReattach d id
          pure fails
        else pure fails
    else pure fails

omit [Crates] [Chrono] in
def anyEligible : List ShardId → ClusterM Bool
  | [] => pure false
  | id :: ids => do
    let suppressed ← look fun s => (s.cluster.shards[id]?).any (·.suppressReplication)
    if suppressed then anyEligible ids
    else do
      let health ← shardHealth id
      if health.any fun h => h.isUnavailable || h == .degraded then pure true else anyEligible ids

def reReplicate (refs : Option RawRefRegistry) (key : Key) : ClusterM Bool := do
  match ← catalogGet key with
  | none => pure false
  | some entry => do
    match ← firstHealthy entry.shards with
    | none => pure false
    | some source => do
      match ← findReplicationTarget key with
      | none => pure false
      | some target => do
        let copied ← replicateObject key source target refs
        pure copied.toOption.isSome

/-- Copy the keys that have too few replicas. -/
def reReplicateUnder (batchSize : Nat) (refs : Option RawRefRegistry) : ClusterM Nat := do
  let under ← look fun s => s.cluster.findUnderReplicated
  (under.take batchSize).foldlM (fun n k => do
    let copied ← reReplicate refs k.1
    pure (if copied then n + 1 else n)) 0

def reReplicationSweep (batchSize : Nat) (refs : Option RawRefRegistry) : ClusterM Nat := do
  let ids ← look fun s => List.range s.cluster.shards.length
  if ← anyEligible ids then reReplicateUnder batchSize refs else pure 0

/-- One pass of `recovery_loop`: every shard, then the sweeps. -/
def recoveryPass (d : Daemon) (seen : Sighting) (fails : List Nat) : ClusterM (List Nat) := do
  let ids ← look fun s => List.range s.cluster.shards.length
  let counts ← ids.foldlM (fun counts id => do
    let n ← recoverShard d seen id (counts.getD id 0)
    pure (counts.set id n)) fails
  if seen.adminOpActive then pure counts
  else do
    let swept ← reReplicationSweep d.batchSize d.rawRefs
    if swept = 0 then do
      let _ ← reReplicateUnder d.batchSize d.rawRefs
      let _ ← overReplicationTrim d.batchSize
      pure counts
    else do
      let _ ← overReplicationTrim d.batchSize
      pure counts

/-- `recovery_loop`, as many passes as there are sightings. -/
def recoveryLoop (d : Daemon) : List Sighting → List Nat → ClusterM Unit
  | [], _ => pure ()
  | seen :: rest, fails => do
    let counts ← recoveryPass d seen fails
    recoveryLoop d rest counts

end Sync

end ObjStr.Sharded
