/-
  ObjStr.Sharded.Catalog — the placement catalog (`shardedobjstr/src/catalog.rs`).

  Each method runs under the catalog's lock, and is one function here. An entry that is
  changed keeps its place in the map's iteration order.
-/

import ObjStr.Sharded.Basic

namespace ObjStr.Raw.FMap

variable {V : Type}

/-! ## Maps -/

def mapValues {W : Type} (m : FMap V) (f : Key → V → W) : FMap W :=
  ⟨m.entries.map fun e => ⟨e.1, f e.1 e.2⟩, by
    have h : (m.entries.map fun e => (⟨e.1, f e.1 e.2⟩ : Sigma fun _ : Key => W)).keys = m.entries.keys := by
      simp [List.keys]
    rw [List.NodupKeys, h]
    exact m.nodupKeys⟩

/-- `HashMap::insert`. -/
def set (m : FMap V) (k : Key) (v : V) : FMap V :=
  if k ∈ m then m.mapValues fun k' w => if k' = k then v else w else m.insert k v

def filterValues (m : FMap V) (p : V → Bool) : FMap V :=
  ⟨m.entries.filter fun e => p e.2, m.nodupKeys.sublist List.filter_sublist⟩

theorem lookup_mapValues {W : Type} (m : FMap V) (f : Key → V → W) (k : Key) :
    (m.mapValues f).lookup k = (m.lookup k).map (f k) :=
  List.dlookup_map₂ k

theorem lookup_set (m : FMap V) (k : Key) (v : V) (k' : Key) :
    (m.set k v).lookup k' = if k' = k then some v else m.lookup k' := by
  unfold set
  split
  · next hk =>
    rw [lookup_mapValues]
    obtain ⟨w, hw⟩ := Option.isSome_iff_exists.mp (AList.lookup_isSome.mpr hk)
    by_cases h : k' = k
    · subst h
      simp [hw]
    · simp [h]
  · by_cases h : k' = k
    · subst h
      simp
    · simp [h]

theorem lookup_erase (m : FMap V) (k k' : Key) :
    (m.erase k).lookup k' = if k' = k then none else m.lookup k' := by
  by_cases h : k' = k
  · subst h
    simp
  · simp [h]

theorem lookup_filterValues (m : FMap V) (p : V → Bool) (k : Key) :
    (m.filterValues p).lookup k = (m.lookup k).filter p := by
  apply Option.ext
  intro v
  have hm : ∀ v, v ∈ m.lookup k ↔ (⟨k, v⟩ : Sigma fun _ : Key => V) ∈ m.entries := fun v =>
    AList.mem_lookup_iff
  rw [← Option.mem_def, ← Option.mem_def, AList.mem_lookup_iff, Option.mem_filter_iff, hm]
  simp [filterValues]

theorem mapValues_erase {W : Type} (m : FMap V) (f : Key → V → W) (k : Key) :
    mapValues (m.erase k) f = (m.mapValues f).erase k := by
  apply AList.ext
  show (m.entries.kerase k).map _ = (m.entries.map _).kerase k
  unfold List.kerase
  rw [List.eraseP_map]
  rfl

theorem mapValues_insert {W : Type} (m : FMap V) (f : Key → V → W) (k : Key) (v : V) :
    mapValues (m.insert k v) f = (m.mapValues f).insert k (f k v) := by
  have herase := congrArg AList.entries (mapValues_erase m f k)
  apply AList.ext
  show ⟨k, f k v⟩ :: (mapValues (m.erase k) f).entries = ⟨k, f k v⟩ :: ((m.mapValues f).erase k).entries
  rw [herase]

theorem mapValues_filterValues {W : Type} (m : FMap V) (f : Key → V → W) {p : W → Bool} {q : V → Bool}
    (h : ∀ k v, p (f k v) = q v) : (m.filterValues q).mapValues f = (m.mapValues f).filterValues p := by
  apply AList.ext
  show (m.entries.filter _).map _ = (m.entries.map _).filter _
  rw [List.filter_map]
  congr 1
  apply List.filter_congr
  intro e _
  exact (h e.1 e.2).symm

theorem mapValues_congr {W : Type} {m : FMap V} {f g : Key → V → W} (h : ∀ k v, m.lookup k = some v → f k v = g k v) :
    m.mapValues f = m.mapValues g := by
  apply AList.ext
  apply List.map_congr_left
  intro e he
  rw [h e.1 e.2 (AList.mem_lookup_iff.mpr he)]

end ObjStr.Raw.FMap

namespace ObjStr.Sharded

open ObjStr.Raw

/-- An entry with one more replica; a length of zero does not replace the one that is known. -/
def PlacementEntry.withReplica (e : PlacementEntry) (shardId : ShardId) (metaLen : UInt16) : PlacementEntry :=
  { e with
    shards := if e.shards.contains shardId then e.shards else e.shards ++ [shardId]
    metaLen := if 0 < metaLen then metaLen else e.metaLen }

def PlacementEntry.without (e : PlacementEntry) (shardId : ShardId) : PlacementEntry :=
  { e with shards := e.shards.filter (· != shardId) }

namespace Catalog

/-! ## Methods -/

def get (c : Catalog) (key : Key) : Option PlacementEntry := c.inner.lookup key

def put (key : Key) (shards : List ShardId) (size : Nat) (crc : Option UInt32) (metaLen : UInt16) (now : DateTime)
    (c : Catalog) : Catalog :=
  ⟨c.inner.set key ⟨shards, size, crc, now, metaLen⟩, true⟩

def addReplica (key : Key) (shardId : ShardId) (size : Nat) (metaLen : UInt16) (now : DateTime) (c : Catalog) : Catalog :=
  ⟨c.inner.set key (((c.get key).getD ⟨[], size, none, now, metaLen⟩).withReplica shardId metaLen), true⟩

def tryInsert (key : Key) (shards : List ShardId) (size : Nat) (now : DateTime) (c : Catalog) : Bool × Catalog :=
  match c.get key with
  | some _ => (false, c)
  | none => (true, ⟨c.inner.set key ⟨shards, size, none, now, 0⟩, true⟩)

def remove (key : Key) (c : Catalog) : Option PlacementEntry × Catalog :=
  (c.get key, ⟨c.inner.erase key, c.dirty || (c.get key).isSome⟩)

def removeShard (key : Key) (shardId : ShardId) (c : Catalog) : Catalog :=
  match c.get key with
  | none => c
  | some e =>
    if (e.without shardId).shards.isEmpty then ⟨c.inner.erase key, true⟩
    else ⟨c.inner.set key (e.without shardId), true⟩

def removeAllForShard (shardId : ShardId) (c : Catalog) : Nat × Catalog :=
  let affected := (c.inner.filterValues fun e => e.shards.contains shardId).entries.length
  let kept := c.inner.filterValues fun e => !(e.shards.contains shardId && (e.without shardId).shards.isEmpty)
  (affected, ⟨kept.mapValues fun _ e => e.without shardId, c.dirty || 0 < affected⟩)

def replace (inner : FMap PlacementEntry) (_ : Catalog) : Catalog := ⟨inner, true⟩

def clearDirty (c : Catalog) : Catalog := { c with dirty := false }

def entriesForShard (shardId : ShardId) (c : Catalog) : List (Key × PlacementEntry) :=
  (c.inner.entries.filter fun e => e.2.shards.contains shardId).map fun e => (e.1, e.2)

/-- `list`: the keys that start with the prefix; their paths are built with `Path::from`. -/
def list (pre : Option Key) (c : Catalog) : List (Key × PlacementEntry) :=
  (c.inner.entries.filter fun e => pre.all fun p => p.toList.isPrefixOf e.1.toList).map fun e =>
    (Path.fromStr e.1, e.2)

/-! ## What they do to an entry -/

variable (c : Catalog) (key k : Key)

@[simp] theorem get_put (shards : List ShardId) (size : Nat) (crc : Option UInt32) (ml : UInt16) (now : DateTime) :
    (c.put key shards size crc ml now).get k = if k = key then some ⟨shards, size, crc, now, ml⟩ else c.get k :=
  FMap.lookup_set ..

@[simp] theorem get_addReplica (x : ShardId) (size : Nat) (ml : UInt16) (now : DateTime) :
    (c.addReplica key x size ml now).get k =
      if k = key then some (((c.get key).getD ⟨[], size, none, now, ml⟩).withReplica x ml) else c.get k :=
  FMap.lookup_set ..

theorem get_tryInsert (shards : List ShardId) (size : Nat) (now : DateTime) (h : c.get key = none) :
    (c.tryInsert key shards size now).2.get k = if k = key then some ⟨shards, size, none, now, 0⟩ else c.get k := by
  rw [tryInsert, h]
  exact FMap.lookup_set ..

@[simp] theorem get_remove : (c.remove key).2.get k = if k = key then none else c.get k :=
  FMap.lookup_erase ..

theorem get_removeShard_ne (x : ShardId) (h : k ≠ key) : (c.removeShard key x).get k = c.get k := by
  unfold removeShard
  split
  · rfl
  · split <;> simp only [get, FMap.lookup_erase, FMap.lookup_set, if_neg h]

theorem get_removeShard {e : PlacementEntry} (h : c.get key = some e) (x : ShardId) :
    (c.removeShard key x).get key = if (e.without x).shards.isEmpty then none else some (e.without x) := by
  have hx : c.removeShard key x = if (e.without x).shards.isEmpty then ⟨c.inner.erase key, true⟩
      else ⟨c.inner.set key (e.without x), true⟩ := by
    rw [removeShard, h]
  rw [hx]
  by_cases he : (e.without x).shards.isEmpty
  · simp only [he, if_true, get, FMap.lookup_erase]
  · simp only [he, Bool.false_eq_true, if_false, get, FMap.lookup_set, if_true]

theorem removeShard_none (h : c.get key = none) (x : ShardId) : c.removeShard key x = c := by
  rw [removeShard, h]

theorem get_removeAllForShard (x : ShardId) :
    (c.removeAllForShard x).2.get k =
      ((c.get k).filter fun e => !(e.shards.contains x && (e.without x).shards.isEmpty)).map (·.without x) := by
  simp only [removeAllForShard, get, FMap.lookup_mapValues, FMap.lookup_filterValues]

end Catalog

end ObjStr.Sharded
