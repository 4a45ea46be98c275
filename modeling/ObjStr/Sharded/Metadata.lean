/-
  ObjStr.Sharded.Metadata — objects with metadata (`shardedobjstr/src/metadata.rs`), and the copies
  that carry it (`lib.rs`).

  `put_with_meta` is a second write path next to `write_to_shards_inner`, and
  `put_with_meta_from_file` a third one when all targets are raw shards: it streams the file
  to one shard after the other.
-/

import ObjStr.Sharded.Read

namespace ObjStr.Sharded

open ObjStr.Lib ObjStr.Raw

section Metadata

variable [Crates]

/-! ## Reading metadata -/

/-- Ask the shards in order; a shard that fails or has none is passed over, except that an object
    without attributes has no metadata. -/
def metadataFrom (refs : RawRefRegistry) (location : Key) : List ShardId → ClusterM (Except Error Bytes)
  | [] => pure (.error (.notFound location))
  | shardId :: rest =>
    match refs.get shardId with
    | some raw => do
      match ← StoreRef.get (some raw) location with
      | .ok o => pure (.ok o.metadata)
      | .error _ => metadataFrom refs location rest
    | none => do
      match ← shardStore shardId with
      | none => metadataFrom refs location rest
      | some store =>
        match refs.kind shardId with
        | .s3Like => do
          match ← store.get location with
          | .ok o => pure (.ok ((Tlv.encodeMetadata (Tlv.attributesToMeta o.attributes)).toOption.getD []))
          | .error _ => metadataFrom refs location rest
        | .sidecar => do
          match ← store.get (metaSidecarPath location) with
          | .ok o => pure (.ok o.body)
          | .error _ => metadataFrom refs location rest
        -- unreachable!(): a raw shard without a raw reference
        | .raw => pure (.error .panic)

/-- What an answer says of the metadata, or else the next shards are asked. -/
def metadataOr (f : Object → Except Error Bytes) (others : ClusterM (Except Error Bytes)) (r : Except StoreError Object) :
    ClusterM (Except Error Bytes) :=
  match r with
  | .ok o => pure (f o)
  | .error _ => others

def getMetadata (refs : RawRefRegistry) (location : Key) : ClusterM (Except Error Bytes) := do
  if isDeleteMarker location then pure (.error (.notFound location))
  else do
    let (order, _) ← resolveShards location
    metadataFrom refs location order

/-- Ask the shards in order. One that has no such object is passed over, and so is one that fails, but its error is kept. -/
def headWithMetaFrom (refs : RawRefRegistry) (location : Key) : List ShardId → Option StoreError →
    ClusterM (Except Error (Object × UInt16))
  | [], lastErr => pure (.error ((lastErr.map .store).getD (.notFound location)))
  | shardId :: rest, lastErr =>
    match refs.get shardId with
    | some raw => do
      match ← StoreRef.head (some raw) location with
      | .ok o => pure (.ok (o, UInt16.ofNat o.metadata.length))
      | .error (.notFound _) => headWithMetaFrom refs location rest lastErr
      | .error e => headWithMetaFrom refs location rest (some e)
    | none => do
      match ← shardStore shardId with
      | none => headWithMetaFrom refs location rest lastErr
      | some store => do
        match ← store.head location with
        | .ok o => do
          let entry ← catalogGet location
          pure (.ok (o, (entry.map (·.metaLen)).getD 0))
        | .error (.notFound _) => headWithMetaFrom refs location rest lastErr
        | .error e => headWithMetaFrom refs location rest (some e)

def headWithMeta (refs : RawRefRegistry) (location : Key) : ClusterM (Except Error (Object × UInt16)) := do
  if isDeleteMarker location then pure (.error (.notFound location))
  else do
    let (order, _) ← resolveShards location
    headWithMetaFrom refs location order none

def readObjectMetadata (location : Key) (attributes : FMap String) : ClusterM Bytes := do
  match ← rawRefs with
  | none => pure []
  | some refs => do
    let entry ← catalogGet location
    -- S3 shards do not track the length: their objects may have metadata all the same
    if entry.any fun e => e.metaLen = 0 && !e.shards.any fun sid => refs.kind sid = .s3Like then pure []
    else do
      match ← getMetadata refs location with
      | .ok bytes => pure bytes
      | .error _ => pure ((Tlv.encodeMetadata (Tlv.attributesToMeta attributes)).toOption.getD [])

/-! ## Writing with metadata -/

def tryPutShard (refs : RawRefRegistry) (shardId : ShardId) (location : Key) (payload metadata : Bytes) :
    ClusterM (Except StoreError Unit) :=
  match refs.kind shardId with
  | .raw =>
    match refs.get shardId with
    | some raw => StoreRef.put (some raw) location { body := payload, metadata }
    | none => pure (.error (.notFound s!"shard {shardId}: no raw ref"))
  | .s3Like => do
    match ← shardStore shardId with
    | some store =>
      store.put location { body := payload, attributes := Tlv.metaToAttributes (Tlv.decodeMetadata metadata) }
    | none => pure (.error (.notFound s!"shard {shardId}: no store"))
  | .sidecar => do
    match ← shardStore shardId with
    | some store => do
      match ← store.put location { body := payload } with
      | .error e => pure (.error e)
      | .ok _ =>
        if metadata.isEmpty then pure (.ok ()) else store.put (metaSidecarPath location) { body := metadata }
    | none => pure (.error (.notFound s!"shard {shardId}: no store"))

/-- All writes failed: the last error, or none was tried. -/
def lastFailure (location : Key) (o : Outcomes) : Error :=
  (((o.filter fun x => (failure x.2).isSome).getLast?.bind fun x => failure x.2).map .store).getD (.notFound location)

/-- The end of `put_with_meta`: enough replicas must have landed, then they are recorded. -/
def finishWithMeta (location : Key) (placed : List ShardId) (tried : Outcomes) (size : Nat) (crc : UInt32)
    (metaLen : UInt16) : ClusterM (Except Error Unit) :=
  if placed.isEmpty then pure (.error (lastFailure location tried))
  else do
    let required ← minWrites
    if placed.length < required then do
      cleanupOrphanedWrites location placed
      pure (.error (.insufficientWrites location required placed.length []))
    else do
      let _ ← catalogPut location placed size (some crc) metaLen
      pure (.ok ())

def fanOutWithMeta (refs : RawRefRegistry) (location : Key) (payload metadata : Bytes) (ids : List ShardId) :
    ClusterM Outcomes :=
  Proc.joinAll (ids.map fun id => do
    let r ← tryPutShard refs id location payload metadata
    pure (id, r))

def putWithMeta (refs : RawRefRegistry) (location : Key) (payload metadata : Bytes) : ClusterM (Except Error Unit) := do
  if ← readOnly then pure (.error .readOnly)
  else do
    let targets ← selectTargets location
    let outcomes ← fanOutWithMeta refs location payload metadata targets
    let retryIds ← markWriteFailures outcomes.accepted outcomes.rejected targets location
    let retried ← if outcomes.accepted.isEmpty then fanOutWithMeta refs location payload metadata retryIds else pure []
    finishWithMeta location (outcomes.accepted ++ retried.accepted) (outcomes ++ retried) payload.length
      (crc32c payload) (UInt16.ofNat metadata.length)

/-- 1 MB. -/
def crcChunk : Nat := 1024 * 1024

def crcOfChunks (body : Bytes) : UInt32 := (body.toChunks crcChunk).foldl crc32cAppend 0

/-- Stream a file to the raw shards among the targets, one after the other. -/
def streamToShards (refs : RawRefRegistry) (location : Key) (body metadata : Bytes) (ids : List ShardId) :
    ClusterM Outcomes :=
  ids.foldlM (fun done id =>
    match refs.get id with
    | none => pure done
    | some raw => do
      let r ← StoreRef.put (some raw) location { body, metadata }
      pure (done ++ [(id, r)])) []

def streamToShard (refs : RawRefRegistry) (location : Key) (body metadata : Bytes) (done : Outcomes) (id : ShardId) :
    ClusterM Outcomes :=
  match refs.get id with
  | none => pure done
  | some raw => do
    let r ← StoreRef.put (some raw) location { body, metadata }
    pure (done ++ [(id, r)])

/-- `put_with_meta_from_file`: the file holds the payload and then the metadata. -/
def putWithMetaFromFile (refs : RawRefRegistry) (location : Key) (file : Bytes) (metaLen : UInt16) :
    ClusterM (Except Error Unit) := do
  let bodyLen := file.length - metaLen.toNat
  let body := file.take bodyLen
  let metadata := file.drop bodyLen
  let targets ← selectTargets location
  if targets.all fun sid => refs.kind sid = .raw then
    -- read_exact of the metadata
    if file.length < metaLen.toNat then pure (.error .io)
    else do
      let outcomes ← streamToShards refs location body metadata targets
      let retryIds ← markWriteFailures outcomes.accepted outcomes.rejected targets location
      let retried ← if outcomes.accepted.isEmpty then streamToShards refs location body metadata retryIds else pure []
      finishWithMeta location (outcomes.accepted ++ retried.accepted) (outcomes ++ retried) bodyLen (crcOfChunks body) metaLen
  else putWithMeta refs location body metadata

/-! ## Copying -/

def copy (src dst : Key) : ClusterM (Except Error Unit) := do
  if ← readOnly then pure (.error .readOnly)
  else do
    match ← get src with
    | .error e => pure (.error e)
    | .ok o => do
      let metaBytes ← readObjectMetadata src o.attributes
      let refs ← rawRefs
      match (if metaBytes.isEmpty then none else refs) with
      | some refs => putWithMeta refs dst o.body metaBytes
      | none => put dst o.body

/-- A placeholder decides who creates the object; it is removed if the copy fails. -/
def copyIfNotExists (src dst : Key) : ClusterM (Except Error Unit) := do
  if ← readOnly then pure (.error .readOnly)
  else if (← catalogGet dst).isSome then pure (.error (.alreadyExists dst))
  else do
    match ← get src with
    | .error e => pure (.error e)
    | .ok o => do
      let targets ← selectTargets dst
      if !(← catalogTryInsert dst targets o.body.length) then pure (.error (.alreadyExists dst))
      else do
        let metaBytes ← readObjectMetadata src o.attributes
        let refs ← rawRefs
        match (if metaBytes.isEmpty then none else refs) with
        | some refs => do
          match ← putWithMeta refs dst o.body metaBytes with
          | .ok _ => pure (.ok ())
          | .error e => do
            let _ ← catalogRemove dst
            pure (.error e)
        | none => do
          match ← writeToShards dst o.body targets with
          | .ok placed => do
            let _ ← catalogPut dst placed o.body.length (some (crc32c o.body)) 0
            pure (.ok ())
          | .error e => do
            let _ ← catalogRemove dst
            pure (.error e)

end Metadata

end ObjStr.Sharded
