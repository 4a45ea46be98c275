/-
  ObjStr.Sharded.Vacuum — reading delete markers and vacuuming them (`shardedobjstr/src/lib.rs`).

  A marker is an object under `__deleted__/` that holds the time of the delete. It is written by
  `delete` (`putDeleteMarker`) and removed by `put` (`removeDeleteMarker`); `vacuum` removes
  the markers of objects that are gone, and of objects that have been written again.

  The flag that keeps two vacuums apart is not modelled: a run is one process.
-/

import ObjStr.Sharded.Read

namespace ObjStr.Sharded

open ObjStr.Lib ObjStr.Raw

section Vacuum

variable [Crates]

/-! ## Reads that see markers -/

/-- Try the replicas one after the other; an error is passed over. -/
def rawReplicas {α : Type} (read : StoreRef → ClusterM (Except StoreError α)) (found : ShardId → StoreRef → α → ClusterM Unit)
    (location : Key) : List (ShardId × StoreRef) → Option StoreError → ClusterM (Except Error α)
  | [], lastErr => pure (.error ((lastErr.map .store).getD (.notFound location)))
  | (shardId, store) :: rest, _ => do
    match ← read store with
    | .ok a => do
      found shardId store a
      pure (.ok a)
    | .error e => rawReplicas read found location rest (some e)

/-- `get_raw`: an object that has no entry is listed when it is found, with the size `head` tells. -/
def getRaw (location : Key) : ClusterM (Except Error Object) := do
  let (stores, isFallback) ← readOrder location
  rawReplicas (·.get location)
    (fun shardId store _ =>
      if isFallback then do
        let r ← store.head location
        catalogAddReplica location shardId ((r.toOption.map (·.body.length)).getD 0) 0
      else pure ())
    location stores none

def headRaw (location : Key) : ClusterM (Except Error Object) := do
  let (stores, isFallback) ← readOrder location
  rawReplicas (·.head location)
    (fun shardId _ o => if isFallback then catalogAddReplica location shardId o.body.length 0 else pure ())
    location stores none

variable [Chrono]

def getDeleteMarker (key : Key) : ClusterM (Option DateTime) := do
  let r ← getRaw (Path.fromStr (deleteMarkerKey key))
  pure (r.toOption.bind fun o => Chrono.parseFromRfc3339 o.body)

/-- `marker_key.strip_prefix(DELETE_MARKER_PREFIX)`. -/
def markedKey (location : Key) : Option Key :=
  if isDeleteMarker location then some (String.ofList (location.toList.drop deleteMarkerPrefix.toList.length)) else none

def Catalog.markedKeys (c : Catalog) : List Key :=
  (c.list (some (Path.fromStr deleteMarkerPrefix))).filterMap fun m => markedKey m.1

/-- `list_delete_markers`: the keys that have a marker, with the time it holds; all markers are read side by
    side. -/
def listDeleteMarkers : ClusterM (List (Key × DateTime)) := do
  let keys ← look fun s => s.cluster.catalog.markedKeys
  let times ← Proc.joinAll (keys.map getDeleteMarker)
  pure ((keys.zip times).filterMap fun m => m.2.map fun t => (m.1, t))

/-! ## Vacuum -/

structure Vacuumed where
  purged : Nat
  cleaned : Nat
  deriving DecidableEq, Repr

/-- One marker: an object that is newer keeps, one that is older is deleted, and the marker goes; it goes
    too if no replica answers. -/
def vacuumMarker (done : Vacuumed) (marker : Key × DateTime) : ClusterM Vacuumed := do
  let path := Path.fromStr marker.1
  match ← headRaw path with
  | .ok o =>
    if marker.2 < o.lastModified then do
      let _ ← removeDeleteMarker marker.1
      pure { done with purged := done.purged + 1 }
    else do
      let _ ← deleteRaw path
      let _ ← removeDeleteMarker marker.1
      pure { purged := done.purged + 1, cleaned := done.cleaned + 1 }
  | .error _ => do
    let _ ← removeDeleteMarker marker.1
    pure { done with purged := done.purged + 1 }

/-- A shard that is offline or degraded may hold what a marker still has to delete. -/
def Cluster.blocksVacuum (c : Cluster) : Bool :=
  c.shards.any fun s => s.health.isUnavailable || s.health == .degraded

/-- `vacuum_delete_markers`: `none` if a shard is offline or degraded. -/
def vacuumDeleteMarkers : ClusterM (Option Vacuumed) := do
  let blocked ← look fun s => s.cluster.blocksVacuum
  if blocked then pure none
  else do
    let markers ← listDeleteMarkers
    let done ← markers.foldlM vacuumMarker ⟨0, 0⟩
    pure (some done)

end Vacuum

end ObjStr.Sharded
