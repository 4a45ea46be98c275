/-
  ObjStr.Sharded.Read — reading through the cluster (`shardedobjstr/src/lib.rs`): replicas in
  order, the next one when one fails, and read repair of a corrupt one.

  A scheduled read repair is a process of its own (`readRepair`), that runs some time later.
  The semaphore that bounds how many run at once and the repair counters are not modelled.
-/

import ObjStr.Sharded.Write
import ObjStr.Sharded.Tlv

namespace ObjStr.Sharded

open ObjStr.Lib ObjStr.Raw

/-! ## Metadata on a shard -/

/-- The metadata a shard holds for an object, if it holds any. -/
def readMetadataFromShard (store : StoreRef) (shardId : ShardId) (location : Key) (attributes : FMap String)
    (refs : RawRefRegistry) : ClusterM (Option Bytes) :=
  match refs.kind shardId with
  | .raw =>
    match refs.get shardId with
    | none => pure none
    | some raw => do
      let r ← StoreRef.get (some raw) location
      pure (r.toOption.bind fun o => if o.metadata.isEmpty then none else some o.metadata)
  | .s3Like =>
    pure ((Tlv.encodeMetadata (Tlv.attributesToMeta attributes)).toOption.bind fun b => if b.isEmpty then none else some b)
  | .sidecar => do
    let r ← store.get (metaSidecarPath location)
    pure (r.toOption.bind fun o => if o.body.isEmpty then none else some o.body)

def writeWithMetaToShard (refs : RawRefRegistry) (target : ShardId) (store : StoreRef) (location : Key) (data metadata : Bytes) :
    ClusterM (Except StoreError Unit) :=
  if metadata.isEmpty then store.put location { body := data }
  else match refs.kind target with
    | .raw =>
      match refs.get target with
      | some raw => StoreRef.put (some raw) location { body := data, metadata }
      | none => store.put location { body := data }
    | .s3Like =>
      store.put location { body := data, attributes := Tlv.metaToAttributes (Tlv.decodeMetadata metadata) }
    | .sidecar => do
      match ← store.put location { body := data } with
      | .error e => pure (.error e)
      | .ok _ => store.put (metaSidecarPath location) { body := metadata }

/-! ## Read repair -/

def scheduleReadRepair (key : Key) (goodShard corruptShard : ShardId) : ClusterM Unit :=
  Proc.step
    (fun s => ((),
      if s.cluster.available goodShard && s.cluster.available corruptShard then
        { s with cluster := { s.cluster with
          repairs := s.cluster.repairs ++
            [⟨key, goodShard, corruptShard, s.cluster.storeRef goodShard, s.cluster.storeRef corruptShard⟩] } }
      else s))
    fun _ => .other

/-- The task of a read repair: read the good copy, write it over the corrupt one, list that again. -/
def readRepair (r : ReadRepair) : ClusterM Unit := do
  let path := Path.fromStr r.key
  match ← StoreRef.get r.goodStore path with
  | .error _ => pure ()
  | .ok o => do
    let refs ← rawRefs
    let found ← match refs with
      | some refs => readMetadataFromShard r.goodStore r.goodShard path o.attributes refs
      | none => pure none
    let metaBytes := found.getD []
    let written ← match refs with
      | some refs => writeWithMetaToShard refs r.corruptShard r.badStore path o.body metaBytes
      | none => StoreRef.put r.badStore path { body := o.body }
    match written with
    | .error _ => pure ()
    | .ok _ => catalogAddReplica r.key r.corruptShard o.body.length (UInt16.ofNat metaBytes.length)

/-- The end of `readRepair`: a copy that was written is listed. -/
def listRepaired (r : ReadRepair) (size : Nat) (metaLen : UInt16) (written : Except StoreError Unit) : ClusterM Unit :=
  match written with
  | .error _ => pure ()
  | .ok _ => catalogAddReplica r.key r.corruptShard size metaLen

/-- A read error that tells of corruption counts against the shard, and takes the replica out of
    the entry. -/
def handleReadError (shardId : ShardId) (key : Key) (e : StoreError) : ClusterM Bool :=
  if !e.saysCorruption then pure false
  else do
    let known ← Proc.step
      (fun s => (decide (shardId < s.cluster.shards.length),
        { s with cluster := { s.cluster with
          shards := s.cluster.shards.modify shardId fun i => { i with crcErrorCount := i.crcErrorCount + 1 } } }))
      fun _ => .other
    if known then do
      catalogRemoveShard key shardId
      pure true
    else pure true

/-! ## Reading -/

/-- The size and metadata length to list for an object found on a shard that no entry names. -/
def foundOnShard (store : StoreRef) (shardId : ShardId) (location : Key) (refs : Option RawRefRegistry) :
    ClusterM (Nat × UInt16) := do
  let rawHit ← match refs.bind (·.get shardId) with
    | none => pure none
    | some raw => do
      let r ← StoreRef.head (some raw) location
      pure r.toOption
  match rawHit with
  | some o => pure (o.body.length, UInt16.ofNat o.metadata.length)
  | none => do
    let r ← store.head location
    pure ((r.toOption.map (·.body.length)).getD 0, 0)

/-- The rest of `foundOnShard`, when the raw store has been asked. -/
def sizesFound (store : StoreRef) (location : Key) (rawHit : Option Object) : ClusterM (Nat × UInt16) :=
  match rawHit with
  | some o => pure (o.body.length, UInt16.ofNat o.metadata.length)
  | none => do
    let r ← store.head location
    pure ((r.toOption.map (·.body.length)).getD 0, 0)

def readReplicas (location : Key) (isFallback : Bool) (refs : Option RawRefRegistry) :
    List (ShardId × StoreRef) → List ShardId → Option StoreError → ClusterM (Except Error Object)
  | [], _, lastErr => pure (.error ((lastErr.map .store).getD (.notFound location)))
  | (shardId, store) :: rest, corrupted, _ => do
    match ← store.get location with
    | .ok o => do
      if isFallback then do
        let (size, ml) ← foundOnShard store shardId location refs
        catalogAddReplica location shardId size ml
      else pure ()
      corrupted.forM fun bad => scheduleReadRepair location shardId bad
      pure (.ok o)
    | .error e => do
      let isCrc ← handleReadError shardId location e
      readReplicas location isFallback refs rest (if isCrc then corrupted ++ [shardId] else corrupted) (some e)

section Reads

variable [Crates]

/-- The replicas to read from, with their stores, and whether there is no entry. -/
def readOrder (location : Key) : ClusterM (List (ShardId × StoreRef) × Bool) := do
  let (ids, isFallback) ← resolveShards location
  let stores ← look fun s => ids.map fun id => (id, s.cluster.storeRef id)
  pure (stores, isFallback)

def get (location : Key) : ClusterM (Except Error Object) := do
  if isDeleteMarker location then pure (.error (.notFound location))
  else do
    let (stores, isFallback) ← readOrder location
    let refs ← rawRefs
    readReplicas location isFallback (if isFallback then refs else none) stores [] none

/-- `head` tries the replicas too, but does not repair. -/
def headReplicas (location : Key) (isFallback : Bool) (refs : Option RawRefRegistry) :
    List (ShardId × StoreRef) → Option StoreError → ClusterM (Except Error Object)
  | [], lastErr => pure (.error ((lastErr.map .store).getD (.notFound location)))
  | (shardId, store) :: rest, _ => do
    match ← store.head location with
    | .ok o => do
      if isFallback then do
        let ml ← match refs.bind (·.get shardId) with
          | none => pure 0
          | some raw => do
            let r ← StoreRef.head (some raw) location
            pure ((r.toOption.map fun o => UInt16.ofNat o.metadata.length).getD 0)
        catalogAddReplica location shardId o.body.length ml
      else pure ()
      pure (.ok o)
    | .error e => headReplicas location isFallback refs rest (some e)

def head (location : Key) : ClusterM (Except Error Object) := do
  if isDeleteMarker location then pure (.error (.notFound location))
  else do
    let (stores, isFallback) ← readOrder location
    let refs ← rawRefs
    headReplicas location isFallback (if isFallback then refs else none) stores none

end Reads

def list (pre : Option Key) : ClusterM (List (Key × PlacementEntry)) :=
  look fun s => (s.cluster.catalog.list pre).filter fun m => !isDeleteMarker m.1

end ObjStr.Sharded
