/-
  ObjStr.Sharded.Multipart — multipart uploads (`shardedobjstr/src/lib.rs`): the registry of the uploads
  in progress, and an upload that is assembled on a primary shard and copied from there.

  The upload of the primary's store is modelled by what the trait documents: it takes parts, and
  `complete` puts them together as one object or fails and changes nothing. Where the store keeps
  the parts meanwhile is its own. Which of these calls fail is not decided: as for the other calls,
  each store carries the outcomes of the next ones. `Instant`s are numbers. The events sent to
  the bus and the log are not modelled.
-/

import ObjStr.Sharded.Read

namespace ObjStr.Sharded

open ObjStr.Lib ObjStr.Raw

/-! ## The registry -/

structure TrackedUpload where
  location : Key
  createdAt : Nat
  primaryShardId : ShardId
  deriving DecidableEq, Repr

structure Front where
  sys : Sys
  /-- The registry, in the order in which it is gone through. -/
  multipartUploads : List (Nat × TrackedUpload)
  nextUploadId : Nat
  multipartExpiry : Nat
  /-- The next readings of the monotonic clock. -/
  instants : List Nat
  /-- What the next uploads fail to start with. -/
  starts : StoreId → List (Option StoreError)
  /-- What the next uploads fail to complete with. -/
  completes : StoreId → List (Option StoreError)

abbrev FrontM := Proc Event Front

namespace Front

def withSys (f : Front) (s : Sys) : Front := { f with sys := s }

def instant (f : Front) : Nat := f.instants.headD 0

/-- What an upload is registered as. -/
def register (f : Front) (location : Key) (primaryShardId : ShardId) : Front :=
  { f with
    multipartUploads := f.multipartUploads ++ [(f.nextUploadId, ⟨location, f.instant, primaryShardId⟩)]
    nextUploadId := f.nextUploadId + 1
    instants := f.instants.tail }

def deregister (f : Front) (id : Nat) : Front :=
  { f with multipartUploads := f.multipartUploads.filter fun u => u.1 != id }

/-- The uploads that are older than the expiry. -/
def stale (f : Front) : List (Nat × TrackedUpload) :=
  f.multipartUploads.filter fun u => f.multipartExpiry < f.instant - u.2.createdAt

end Front

def onCluster {α : Type} (p : ClusterM α) : FrontM α := p.within Front.sys Front.withSys

def registerMultipart (location : Key) (primaryShardId : ShardId) : FrontM Nat :=
  Proc.step (fun f => (f.nextUploadId, f.register location primaryShardId)) fun _ => .other

def deregisterMultipart (id : Nat) : FrontM Unit := Proc.step (fun f => ((), f.deregister id)) fun _ => .other

/-- `purge_stale_multiparts`: what is at the upload's location on its primary shard is deleted. -/
def purgeStaleMultiparts : FrontM Nat := do
  let stale ← Proc.step (fun f => (f.stale, { f with instants := f.instants.tail })) fun _ => .other
  stale.foldlM (fun purged u => do
    let store ← onCluster (shardStore u.2.primaryShardId)
    match store with
    | some store => do
      let _ ← onCluster (store.delete u.2.location)
      deregisterMultipart u.1
      pure (purged + 1)
    | none => do
      deregisterMultipart u.1
      pure (purged + 1)) 0

/-! ## The primary's upload -/

/-- `put_multipart_opts` of a store. -/
def StoreRef.startUpload (r : StoreRef) : FrontM (Except StoreError Unit) :=
  match r with
  | none => pure (.error (.backend false))
  | some id => Proc.step
      (fun f => (match (f.starts id).head?.join with
        | some e => .error e
        | none => .ok (), { f with starts := Function.update f.starts id (f.starts id).tail }))
      fun _ => .other

/-- `complete` of a store's upload: the parts become the object. -/
def StoreRef.completeUpload (r : StoreRef) (location : Key) (up : Upload) : FrontM (Except StoreError Unit) :=
  match r with
  | none => pure (.error (.backend false))
  | some id => Proc.step
      (fun f => match (f.completes id).head?.join with
        | some e => (.error e, { f with completes := Function.update f.completes id (f.completes id).tail })
        | none => (.ok (), { f with
            completes := Function.update f.completes id (f.completes id).tail
            sys := { f.sys with
              stores := Function.update f.sys.stores id { f.sys.stores id with
                objects := (f.sys.stores id).objects.insert location ⟨up.body, up.metadata, up.attributes, (f.sys.stores id).clock.headD 0⟩
                clock := (f.sys.stores id).clock.tail } } }))
      fun r => .call id .put location (failure r)

/-! ## A sharded upload -/

structure ShardedMultipartUpload where
  location : Key
  /-- The parts the primary has taken. -/
  parts : List Bytes
  attributes : FMap String
  primaryShardId : ShardId
  primaryStore : StoreRef
  replicaStores : List (ShardId × StoreRef)
  trackingId : Nat

namespace ShardedMultipartUpload

def putPart (u : ShardedMultipartUpload) (payload : Bytes) : ShardedMultipartUpload := { u with parts := u.parts ++ [payload] }

def assembled (u : ShardedMultipartUpload) : Upload := { body := u.parts.flatten, attributes := u.attributes }

end ShardedMultipartUpload

section Uploads

variable [Crates]

/-- Start the upload on the first target; the other targets are for copies. -/
def startOn (location : Key) (attributes : FMap String) (primaryId : ShardId) (replicas : List ShardId) :
    FrontM (Except StoreError ShardedMultipartUpload) := do
  let (primaryStore, replicaStores) ← onCluster (look fun s => (s.cluster.storeRef primaryId,
    (replicas.filter (· < s.cluster.shards.length)).map fun id => (id, s.cluster.storeRef id)))
  match ← primaryStore.startUpload with
  | .error e => pure (.error e)
  | .ok _ => do
    let trackingId ← registerMultipart location primaryId
    pure (.ok ⟨location, [], attributes, primaryId, primaryStore, replicaStores, trackingId⟩)

/-- `put_multipart_opts`: if the first target cannot start it, that goes offline and others are
    selected, once. -/
def putMultipartOpts (location : Key) (attributes : FMap String) : FrontM (Except Error ShardedMultipartUpload) := do
  if ← onCluster readOnly then pure (.error .readOnly)
  else do
    match ← onCluster (selectTargets location) with
    | [] => pure (.error .noShards)
    | primaryId :: replicas => do
      match ← startOn location attributes primaryId replicas with
      | .ok u => pure (.ok u)
      | .error _ => do
        onCluster (setShardHealth primaryId .offline)
        match ← onCluster (selectTargets location) with
        | [] => pure (.error .noShards)
        | primaryId :: replicas => do
          match ← startOn location attributes primaryId replicas with
          | .ok u => pure (.ok u)
          | .error e => pure (.error (.store e))

def sendCopy (refs : Option RawRefRegistry) (location : Key) (data metadata : Bytes) (r : ShardId × StoreRef) :
    ClusterM (Except StoreError Unit) :=
  match if metadata.isEmpty then none else refs with
  | some refs => writeWithMetaToShard refs r.1 r.2 location data metadata
  | none => r.2.put location { body := data }

/-- Copy the object to the replicas, side by side. -/
def replicateUpload (refs : Option RawRefRegistry) (location : Key) (data metadata : Bytes)
    (replicas : List (ShardId × StoreRef)) : ClusterM Outcomes :=
  Proc.joinAll (replicas.map fun r => do
    let o ← sendCopy refs location data metadata r
    pure (r.1, o))

/-- Delete what was written: from the replicas that took it, and from the primary. -/
def discardUpload (location : Key) (primaryStore : StoreRef) (replicas : List (ShardId × StoreRef)) (placed : List ShardId) :
    ClusterM Unit := do
  replicas.forM fun r => do
    if placed.contains r.1 then do
      let _ ← r.2.delete location
      pure ()
    else pure ()
  let _ ← primaryStore.delete location
  pure ()

/-- The metadata the primary has for the object. -/
def ShardedMultipartUpload.metaBytes (u : ShardedMultipartUpload) (refs : Option RawRefRegistry) (attributes : FMap String) :
    ClusterM Bytes :=
  match refs with
  | none => pure []
  | some refs => do
    let found ← readMetadataFromShard u.primaryStore u.primaryShardId u.location attributes refs
    pure (found.getD [])

/-- Without replicas only a raw primary is asked for the length. -/
def ShardedMultipartUpload.singleMetaLen (u : ShardedMultipartUpload) (refs : Option RawRefRegistry) : ClusterM UInt16 :=
  match (refs.filter fun r => r.kind u.primaryShardId = .raw).bind (·.get u.primaryShardId) with
  | none => pure 0
  | some raw => do
    let found ← StoreRef.get (some raw) u.location
    pure ((found.toOption.map fun o => UInt16.ofNat o.metadata.length).getD 0)

/-- The object is on the primary: copy it, and record it. -/
def ShardedMultipartUpload.publish (u : ShardedMultipartUpload) : ClusterM (Except Error Unit) := do
  let refs ← rawRefs
  let required ← minWrites
  match ← u.primaryStore.get u.location with
  | .error e => pure (.error (.store e))
  | .ok o =>
    if u.replicaStores.isEmpty then do
      -- the CRC is made chunk by chunk
      let metaLen ← u.singleMetaLen refs
      let _ ← catalogPut u.location [u.primaryShardId] o.body.length (some (crc32c o.body)) metaLen
      pure (.ok ())
    else do
      let metaBytes ← u.metaBytes refs o.attributes
      let outcomes ← replicateUpload refs u.location o.body metaBytes u.replicaStores
      let placed := u.primaryShardId :: outcomes.accepted
      if placed.length < required then do
        discardUpload u.location u.primaryStore u.replicaStores placed
        pure (.error (.insufficientWrites u.location required placed.length (outcomes.failures false)))
      else do
        let _ ← catalogPut u.location placed o.body.length (some (crc32c o.body)) (UInt16.ofNat metaBytes.length)
        pure (.ok ())

namespace ShardedMultipartUpload

/-- `complete`: the upload leaves the registry as soon as the primary has the object. -/
def complete (u : ShardedMultipartUpload) : FrontM (Except Error Unit) := do
  match ← u.primaryStore.completeUpload u.location u.assembled with
  | .error e => pure (.error (.store e))
  | .ok _ => do
    deregisterMultipart u.trackingId
    onCluster u.publish

def abort (u : ShardedMultipartUpload) : FrontM Unit := deregisterMultipart u.trackingId

end ShardedMultipartUpload

end Uploads

end ObjStr.Sharded
