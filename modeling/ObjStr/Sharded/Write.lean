/-
  ObjStr.Sharded.Write — writing and deleting through the cluster (`shardedobjstr/src/lib.rs`):
  the fan-out with its retry, `put`, `put_opts`, and `delete` with its markers.

  The futures of a `join_all` run side by side. The `PutResult` of a write is not modelled, nor
  are the events sent to the event bus.
-/

import ObjStr.Sharded.Cluster

namespace ObjStr.Sharded

open ObjStr.Lib ObjStr.Raw

/-! ## Sidecars -/

def cleanupSidecar (store : StoreRef) (location : Key) (kind : ShardKind) : ClusterM Unit :=
  if kind = .sidecar then do
    let _ ← store.delete (metaSidecarPath location)
    pure ()
  else pure ()

/-- Without a registry any shard may have one. -/
def cleanupSidecarMaybe (store : StoreRef) (location : Key) (refs : Option RawRefRegistry) (shardId : ShardId) :
    ClusterM Unit :=
  cleanupSidecar store location ((refs.map (·.kind shardId)).getD .sidecar)

def rawRefs : ClusterM (Option RawRefRegistry) := look fun s => s.cluster.config.rawRefs

/-! ## The fan-out -/

abbrev Outcomes := List (ShardId × Except StoreError Unit)

def Outcomes.accepted (o : Outcomes) : List ShardId := (o.filter fun x => (failure x.2).isNone).map (·.1)

def Outcomes.rejected (o : Outcomes) : List ShardId := (o.filter fun x => (failure x.2).isSome).map (·.1)

def Outcomes.failures (o : Outcomes) (retry : Bool) : List WriteFailure :=
  o.filterMap fun x => (failure x.2).map fun e => ⟨x.1, retry, e⟩

def fanOut (stores : List (ShardId × StoreRef)) (location : Key) (up : Upload) : ClusterM Outcomes :=
  Proc.joinAll (stores.map fun s => do
    let r ← s.2.put location up
    pure (s.1, r))

section Writes

variable [Crates]

/-- Mark the shards that failed a write: all of them, then they are offline, and the shards to
    retry on are returned; some of them, then they are degraded. -/
def markWriteFailures (placed failed tried : List ShardId) (location : Key) : ClusterM (List ShardId) :=
  if placed.isEmpty && !failed.isEmpty then do
    failed.forM fun sid => setShardHealth sid .offline
    let targets ← selectTargets location
    pure (targets.filter fun sid => !tried.contains sid)
  else if !failed.isEmpty then do
    failed.forM fun sid => do
      let h ← shardHealth sid
      if h = some .healthy then setShardHealth sid .degraded else pure ()
    pure []
  else pure []

/-- Delete what was written for a key that has no entry. -/
def cleanupOrphanedWrites (location : Key) (placed : List ShardId) : ClusterM Unit := do
  let entry ← catalogGet location
  if entry.isSome then pure ()
  else do
    let refs ← rawRefs
    let stores ← storesOf placed
    let _ ← Proc.joinAll (stores.map fun s => do
      let r ← s.2.delete location
      cleanupSidecar s.2 location ((refs.map (·.kind s.1)).getD .sidecar)
      pure (s.1, r))
    pure ()

def requireWrites (location : Key) (placed : List ShardId) (errors : List WriteFailure) (minRequired : Nat)
    (cleanupOnFail : Bool) : ClusterM (Except Error (List ShardId)) :=
  if placed.length < minRequired then do
    if cleanupOnFail then cleanupOrphanedWrites location placed else pure ()
    pure (.error (.insufficientWrites location minRequired placed.length errors))
  else pure (.ok placed)

/-- Write to the targets; if all of them fail, to the shards that are left. -/
def writeToShardsInner (location : Key) (data : Bytes) (targets : List ShardId) (minRequired : Nat)
    (cleanupOnFail : Bool) : ClusterM (Except Error (List ShardId)) := do
  let stores ← storesOf targets
  let outcomes ← fanOut stores location { body := data }
  if outcomes.accepted.isEmpty && !outcomes.rejected.isEmpty then do
    let retryIds ← markWriteFailures [] outcomes.rejected targets location
    let retryStores ← storesOf retryIds
    let retried ← fanOut retryStores location { body := data }
    let errors := outcomes.failures false ++ retried.failures true
    if retried.accepted.isEmpty then pure (.error (.allReplicasFailed location errors))
    else requireWrites location retried.accepted errors minRequired cleanupOnFail
  else do
    let _ ← markWriteFailures outcomes.accepted outcomes.rejected targets location
    requireWrites location outcomes.accepted (outcomes.failures false) minRequired cleanupOnFail

def minWrites : ClusterM Nat := look fun s => s.cluster.config.minWrites

def writeToShards (location : Key) (data : Bytes) (targets : List ShardId) :
    ClusterM (Except Error (List ShardId)) := do
  let required ← minWrites
  writeToShardsInner location data targets required true

/-- One shard is enough, and what was written stays. -/
def writeToShardsBestEffort (location : Key) (data : Bytes) (targets : List ShardId) :
    ClusterM (Except Error (List ShardId)) :=
  writeToShardsInner location data targets 1 false

/-! ## Deleting -/

/-- The shards a delete goes to: those of the entry, or all; only those that can be reached. -/
def Cluster.deleteTargets (c : Cluster) (entry : Option PlacementEntry) : List ShardId :=
  ((entry.map fun e => e.shards.filter (· < c.shards.length)).getD (List.range c.shards.length)).filter fun id =>
    c.available id

/-- A shard that does not have the object counts as one that deleted it. -/
def gone : Except StoreError Unit → Bool
  | .ok _ => true
  | .error (.notFound _) => true
  | .error _ => false

/-- Delete an object from its shards, and those that deleted it from its entry. No marker. -/
def deleteRaw (location : Key) : ClusterM (Except Error Unit) := do
  let entry ← catalogGet location
  let stores ← look fun s => (s.cluster.deleteTargets entry).map fun id => (id, s.cluster.storeRef id)
  let refs ← rawRefs
  let outcomes ← Proc.joinAll (stores.map fun s => do
    cleanupSidecarMaybe s.2 location refs s.1
    let r ← s.2.delete location
    pure (s.1, r))
  let succeeded := (outcomes.filter fun o => gone o.2).map (·.1)
  match (outcomes.filter fun o => !gone o.2).getLast?.bind fun o => failure o.2 with
  | none => do
    let _ ← catalogRemove location
    pure (.ok ())
  | some lastErr => do
    let config ← look fun s => s.cluster.config
    succeeded.forM fun id => catalogRemoveShard location id
    if config.deleteRequiresMinWrites then
      pure (if config.minWrites ≤ succeeded.length then .ok () else .error (.store lastErr))
    else pure (if succeeded.isEmpty then .error (.store lastErr) else .ok ())

def removeDeleteMarker (key : Key) : ClusterM (Except Error Unit) := deleteRaw (Path.fromStr (deleteMarkerKey key))

def putDeleteMarker [Chrono] (key : Key) : ClusterM (Except Error Unit) := do
  let now ← Proc.step (fun s => (s.now, s.tick)) fun _ => .other
  let body := Chrono.toRfc3339 now
  let path := Path.fromStr (deleteMarkerKey key)
  let reachable ← look fun s => (List.range s.cluster.shards.length).filter fun id => s.cluster.available id
  if reachable.isEmpty then pure (.error .noShards)
  else do
    let strict ← look fun s => s.cluster.config.deleteRequiresMinWrites
    let written ← if strict then writeToShards path body reachable else writeToShardsBestEffort path body reachable
    match written with
    | .error e => pure (.error e)
    | .ok placed => do
      let _ ← catalogPut (deleteMarkerKey key) placed body.length none 0
      pure (.ok ())

/-- The end of `putDeleteMarker`: a marker that was written is recorded. -/
def recordMarker (key : Key) (size : Nat) (written : Except Error (List ShardId)) : ClusterM (Except Error Unit) :=
  match written with
  | .error e => pure (.error e)
  | .ok placed => do
    let _ ← catalogPut (deleteMarkerKey key) placed size none 0
    pure (.ok ())

def readOnly : ClusterM Bool := look fun s => s.cluster.config.readOnly

/-- Write the marker, then delete the object. The marker stays if the delete fails. -/
def delete [Chrono] (location : Key) : ClusterM (Except Error Unit) := do
  if ← readOnly then pure (.error .readOnly)
  else if isDeleteMarker location then deleteRaw location
  else do
    match ← putDeleteMarker location with
    | .error e => pure (.error e)
    | .ok _ => deleteRaw location

/-! ## Putting -/

def recordPut (location : Key) (payload : Bytes) (placed : List ShardId) : ClusterM (Except Error Unit) := do
  let _ ← catalogPut location placed payload.length (some (crc32c payload)) 0
  let _ ← removeDeleteMarker location
  pure (.ok ())

/-- The targets of a write that failed everywhere are offline, and others are chosen; `none` if there
    are none. -/
def retryTargets (location : Key) (targets : List ShardId) : ClusterM (Option (List ShardId)) := do
  targets.forM fun sid => setShardHealth sid .offline
  let others ← selectTargets location
  pure (if others.isEmpty || others = targets then none else some others)

def put (location : Key) (payload : Bytes) : ClusterM (Except Error Unit) := do
  if ← readOnly then pure (.error .readOnly)
  else do
    let targets ← selectTargets location
    if targets.isEmpty then pure (.error .noShards)
    else do
      match ← writeToShards location payload targets with
      | .ok placed => recordPut location payload placed
      | .error firstErr =>
        if firstErr.isInsufficientWrites then pure (.error firstErr)
        else do
          match ← retryTargets location targets with
          | none => pure (.error .noShards)
          | some others => do
            match ← writeToShards location payload others with
            | .ok placed => recordPut location payload placed
            | .error e => pure (.error e)

/-- Remove an entry if it is a placeholder; it is looked at first, and removed then. -/
def dropPlaceholder (location : Key) : ClusterM Unit := do
  match ← catalogGet location with
  | some e => if e.crc32c.isNone then do let _ ← catalogRemove location; pure () else pure ()
  | none => pure ()

/-- `put_opts` with `PutMode::Create`: a placeholder decides who creates the object. -/
def putCreate (location : Key) (payload : Bytes) : ClusterM (Except Error Unit) := do
  let targets ← selectTargets location
  if targets.isEmpty then pure (.error .noShards)
  else do
    if !(← catalogTryInsert location targets payload.length) then pure (.error (.alreadyExists location))
    else do
      match ← writeToShards location payload targets with
      | .ok placed => recordPut location payload placed
      | .error firstErr =>
        if firstErr.isInsufficientWrites then do
          dropPlaceholder location
          pure (.error firstErr)
        else do
          match ← retryTargets location targets with
          | none => do
            dropPlaceholder location
            pure (.error .noShards)
          | some others => do
            match ← writeToShards location payload others with
            | .ok placed => recordPut location payload placed
            | .error e => do
              dropPlaceholder location
              pure (.error e)

inductive PutMode where
  | overwrite
  | create
  | update (eTag version : Option String)
  deriving DecidableEq, Repr

def putOpts (location : Key) (payload : Bytes) (mode : PutMode) : ClusterM (Except Error Unit) := do
  if ← readOnly then pure (.error .readOnly)
  else match mode with
    | .create => putCreate location payload
    | .overwrite => put location payload
    | .update eTag version =>
      if eTag.isSome || version.isSome then pure (.error (.precondition location)) else put location payload

end Writes

end ObjStr.Sharded
