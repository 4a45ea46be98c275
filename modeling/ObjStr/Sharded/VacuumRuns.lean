/-
  ObjStr.Sharded.VacuumRuns — what a vacuum deletes, and when it may drop a marker.

  A vacuum goes through the markers in rounds. A round looks at one replica of the object, the first
  one that answers (`Sys.firstAnswer`); if that is older than the marker, the object is deleted from the
  shards of its entry (`Sys.clearedFrom`). The marker goes in any case.
  - `vacuum_drops_applied_markers`: no marker is dropped before it is applied, and no newer copy is
    deleted, as long as each round takes exactly the copies that are not newer (`Sys.MayDrop`).
  - `a_failed_head_drops_the_marker`: an error of a head counts as "no copy".
-/

import ObjStr.Sharded.Vacuum
import ObjStr.Sharded.WritePaths
import ObjStr.Sharded.Aside

namespace ObjStr.Sharded

open ObjStr.Lib ObjStr.Raw Proc

variable {s s' s'' : Sys} {k key : Key}

/-! ## The first answer -/

def firstAnswer (ref : ShardId → StoreRef) (key : Key) : List ShardId → (StoreId → Store) → Option (ShardId × Object)
  | [], _ => none
  | x :: xs, stores =>
    match ref x with
    | none => firstAnswer ref key xs stores
    | some st =>
      match ((stores st).head key).1 with
      | .ok o => some (x, o)
      | .error _ => firstAnswer ref key xs (Function.update stores st ((stores st).head key).2)

/-- Only heads have been answered since. -/
structure Headed (s s' : Sys) : Prop where
  cluster : s'.cluster = s.cluster
  clock : s'.clock = s.clock
  objects : ∀ st, (s'.stores st).objects = (s.stores st).objects
  outcomes : ∀ st, (s'.stores st).outcomes .delete = (s.stores st).outcomes .delete
  strict : ∀ st, (s'.stores st).strictDelete = (s.stores st).strictDelete

theorem Headed.refl (s : Sys) : Headed s s := ⟨rfl, rfl, fun _ => rfl, fun _ => rfl, fun _ => rfl⟩

theorem Headed.trans (h : Headed s s') (h' : Headed s' s'') : Headed s s'' where
  cluster := h'.cluster.trans h.cluster
  clock := h'.clock.trans h.clock
  objects := fun st => (h'.objects st).trans (h.objects st)
  outcomes := fun st => (h'.outcomes st).trans (h.outcomes st)
  strict := fun st => (h'.strict st).trans (h.strict st)

theorem Headed.alike (h : Headed s s') (key : Key) (st : StoreId) : (s.stores st).Alike key (s'.stores st) :=
  ⟨h.outcomes st, h.strict st, by rw [h.objects]⟩

theorem headed_head (s : Sys) (key : Key) (st : StoreId) :
    Headed s { s with stores := Function.update s.stores st ((s.stores st).head key).2 } := by
  rw [Store.head_next]
  have hnext : ∀ st', Function.update s.stores st ((s.stores st).next .head) st' = s.stores st' ∨
      Function.update s.stores st ((s.stores st).next .head) st' = (s.stores st').next .head := fun st' => by
    by_cases h : st' = st
    · subst h
      exact .inr (Function.update_self ..)
    · exact .inl (Function.update_of_ne h ..)
  refine ⟨rfl, rfl, fun st' => ?_, fun st' => ?_, fun st' => ?_⟩
  · rcases hnext st' with h | h
    · exact congrArg Store.objects h
    · exact (congrArg Store.objects h).trans rfl
  · rcases hnext st' with h | h
    · exact congrArg (fun q => Store.outcomes q .delete) h
    · exact (congrArg (fun q => Store.outcomes q .delete) h).trans (by simp [Store.next])
  · rcases hnext st' with h | h
    · exact congrArg Store.strictDelete h
    · exact (congrArg Store.strictDelete h).trans rfl

/-- The replicas in order: what the first answer is, and what is done with it. -/
theorem wp_headsInOrder (s : Sys) (key : Key) (found : ShardId → StoreRef → Object → ClusterM Unit) (location : Key) (ref : ShardId → StoreRef)
    (ids : List ShardId) (last : Option StoreError) :
    (rawReplicas (·.head key) found location (ids.map fun x => (x, ref x)) last).wp (fun r s' _ =>
      ∃ s1, Headed s s1 ∧ match firstAnswer ref key ids s.stores with
        | some (x, o) => r = .ok o ∧ s' = ((found x (ref x) o).exec s1).2
        | none => (∃ e, r = .error e) ∧ s' = s1) s := by
  induction ids generalizing s last with
  | nil => exact ⟨s, .refl s, ⟨_, rfl⟩, rfl⟩
  | cons x xs ih =>
    rw [List.map_cons, rawReplicas, wp_bind]
    unfold firstAnswer
    cases hr : ref x with
    | none => exact ih s (some (.backend false))
    | some st =>
      have hhead := headed_head s key st
      rw [StoreRef.head, StoreRef.call, onStore, wp_step]
      dsimp only
      generalize ((s.stores st).head key).1 = r
      cases r with
      | ok o =>
        refine ⟨_, hhead, ?_⟩
        simp only [exec_bind, exec_pure, hr, and_self]
      | error e =>
        obtain ⟨s1, h1, h2⟩ := ih { s with stores := Function.update s.stores st ((s.stores st).head key).2 } (some e)
        exact ⟨s1, hhead.trans h1, h2⟩

/-! ## What a delete takes -/

/-- The kind of a shard; without a registry any shard may have sidecars. -/
def Cluster.kindOf (c : Cluster) (x : ShardId) : ShardKind := (c.config.rawRefs.map (·.kind x)).getD .sidecar

def Store.deletedTimes (kind : ShardKind) (key : Key) (n : Nat) (st : Store) : Store :=
  (fun q => (Store.deleteBoth kind key q).2)^[n] st

theorem Store.deletedTimes_succ (kind : ShardKind) (key : Key) (n : Nat) (st : Store) :
    st.deletedTimes kind key (n + 1) = ((st.deletedTimes kind key n).deleteBoth kind key).2 :=
  Function.iterate_succ_apply' ..

/-- A delete takes the object or leaves it. -/
theorem Store.kept_or_gone (st : Store) (path : Key) :
    (st.delete path).2.objects.lookup key = st.objects.lookup key ∨ (st.delete path).2.objects.lookup key = none := by
  rw [st.lookup_delete]
  split
  · exact .inr rfl
  · exact .inl rfl

theorem Store.Alike.deleteOne {st st' : Store} (h : st.Alike key st') (path : Key) :
    (st.delete path).2.Alike key (st'.delete path).2 := by
  by_cases hp : key = path
  · subst hp
    have hstrict : ∀ q : Store, (q.delete key).2.strictDelete = q.strictDelete := fun q => by
      unfold Store.delete
      cases q.outcome .delete with
      | some e => rfl
      | none =>
        dsimp only
        split <;> rfl
    refine ⟨?_, by rw [hstrict, hstrict, h.strict], h.delete.2⟩
    rw [outcomes_delete, outcomes_delete, if_pos rfl, if_pos rfl, h.outcomes]
  · exact h.deleteOther hp

/-- The paths that a delete of the key sends a shard of this kind. -/
def deletedPaths (kind : ShardKind) (key : Key) : List Key := if kind = .sidecar then [key, metaSidecarPath key] else [key]

theorem Store.lookup_deletedTimes {kind : ShardKind} {path : Key} (h : path ∉ deletedPaths kind key) (n : Nat) (st : Store) :
    (st.deletedTimes kind key n).objects.lookup path = st.objects.lookup path := by
  have hkey : path ≠ key := by
    rintro rfl
    exact h (by unfold deletedPaths; split <;> exact List.mem_cons_self)
  induction n with
  | zero => rfl
  | succ n ih =>
    rw [deletedTimes_succ]
    unfold Store.deleteBoth
    rw [Store.lookup_delete_ne _ hkey]
    split
    · next hkind =>
      have hside : path ≠ metaSidecarPath key := by
        rintro rfl
        exact h (by simp [deletedPaths, hkind])
      rw [Store.lookup_delete_ne _ hside, ih]
    · exact ih

theorem Store.Alike.deletedTimes {st st' : Store} (h : st.Alike key st') (kind : ShardKind) (n : Nat) :
    (st.deletedTimes kind key n).Alike key (st'.deletedTimes kind key n) := by
  induction n with
  | zero => exact h
  | succ n ih =>
    rw [deletedTimes_succ, deletedTimes_succ]
    unfold Store.deleteBoth
    split
    · exact (ih.deleteOne _).deleteOne _
    · exact ih.deleteOne _

/-- Each shard is sent the delete as often as it is listed. -/
theorem wp_deleteRaw_count (key : Key) :
    (deleteRaw key).wp (fun _ s' _ => ∀ x st, s.cluster.storeRef x = some st →
      s'.stores st = (s.stores st).deletedTimes (s.cluster.kindOf x) key
        ((s.cluster.deleteTargets (s.cluster.catalog.get key)).count x)) s := by
  set targets := s.cluster.deleteTargets (s.cluster.catalog.get key) with htargets
  unfold deleteRaw
  rw [wp_bind, catalogGet, wp_look, wp_bind, wp_look, wp_bind, rawRefs, wp_look, wp_bind, List.map_map, ← htargets]
  refine wp_joinAll (fun done _ s1 _ => s1.cluster = s.cluster ∧ ∀ x st, s.cluster.storeRef x = some st →
    s1.stores st = (s.stores st).deletedTimes (s.cluster.kindOf x) key (done.count x)) ⟨rfl, fun _ _ _ => rfl⟩ ?_ ?_
  · intro done id rest _ os s1 t h1
    obtain ⟨hcl, hran⟩ := h1
    simp only [Function.comp_apply]
    refine wp_mono (wp_deleteBoth id key s.cluster.config.rawRefs (s.cluster.storeRef id)) fun o s2 t2 h2 => ?_
    obtain ⟨-, rfl⟩ := h2
    unfold Sys.ranOn
    cases hr : s.cluster.storeRef id with
    | none =>
      refine ⟨hcl, fun x st hx => ?_⟩
      have hne : id ≠ x := by
        rintro rfl
        rw [hr] at hx
        cases hx
      rw [List.count_append, List.count_singleton, if_neg (by simpa using hne), Nat.add_zero]
      exact hran x st hx
    | some st' =>
      refine ⟨hcl, fun x st hx => ?_⟩
      dsimp only
      rw [List.count_append, List.count_singleton]
      by_cases hid : id = x
      · subst hid
        obtain rfl := Option.some.inj (hr.symm.trans hx)
        rw [Function.update_self, hran id st' hr, if_pos (by simp), Store.deletedTimes_succ]
        rfl
      · have hst : st ≠ st' := fun h => hid (storeRef_injective hr (h ▸ hx))
        rw [Function.update_of_ne hst, if_neg (by simpa using hid), Nat.add_zero]
        exact hran x st hx
  · intro os s1 t h1
    dsimp only
    split
    · rw [wp_bind, catalogRemove, wp_step, wp_pure]
      exact h1.2
    · rw [wp_bind, wp_look, wp_bind]
      refine wp_mono (wp_removeShards key _) fun _ s2 t2 h2 => ?_
      obtain ⟨⟨c, rfl, -⟩, -⟩ := h2
      split
      · exact h1.2
      · exact h1.2

/-! ## A round -/

section Round

variable [Crates]

def Sys.readIds (s : Sys) (key : Key) : List ShardId :=
  let ids := s.cluster.replicas key (s.cluster.catalog.get key)
  match s.cluster.readPreference with
  | .ordered => ids
  | .roundRobin => if ids.length ≤ 1 then ids else ids.rotate (s.cluster.readCounter % ids.length)

def Sys.answer1 (s : Sys) (key : Key) : Option (ShardId × Object) :=
  firstAnswer s.cluster.storeRef key (s.readIds key) s.stores

def Sys.counted (s : Sys) (n : Nat) : Sys := { s with cluster := { s.cluster with readCounter := n } }

theorem exec_resolveShards (s : Sys) (key : Key) :
    ∃ n, (resolveShards key).exec s = ((s.readIds key, (s.cluster.catalog.get key).isNone), s.counted n) := by
  unfold resolveShards Sys.readIds
  simp only [exec_bind, catalogGet, look, exec_step]
  cases s.cluster.readPreference with
  | ordered => exact ⟨s.cluster.readCounter, rfl⟩
  | roundRobin =>
    simp only [exec_bind, exec_pure, balancedShardOrder]
    split
    · exact ⟨s.cluster.readCounter, rfl⟩
    · exact ⟨s.cluster.readCounter + 1, rfl⟩

theorem exec_readOrder (s : Sys) (key : Key) :
    ∃ n, (readOrder key).exec s =
      (((s.readIds key).map fun x => (x, s.cluster.storeRef x), (s.cluster.catalog.get key).isNone), s.counted n) := by
  obtain ⟨n, h⟩ := exec_resolveShards s key
  refine ⟨n, ?_⟩
  unfold readOrder
  rw [exec_bind, h]
  rfl

/-- What `head_raw` leaves. -/
structure Answered (s : Sys) (key : Key) (r : Except Error Object) (s' : Sys) : Prop where
  config : s'.cluster.config = s.cluster.config
  shards : s'.cluster.shards = s.cluster.shards
  alike : ∀ path st, (s.stores st).Alike path (s'.stores st)
  answer : r.toOption = (s.answer1 key).map (·.2)
  listed : ∀ x o, s.answer1 key = some (x, o) →
    (s'.cluster.catalog.get key).map (·.shards) = some (((s.cluster.catalog.get key).map (·.shards)).getD [x])

theorem wp_headRaw (key : Key) : (headRaw key).wp (fun r s' _ => Answered s key r s') s := by
  obtain ⟨n, hread⟩ := exec_readOrder s key
  unfold headRaw
  rw [wp_bind]
  unfold wp
  rw [hread]
  dsimp only
  obtain ⟨s1, h1, h2⟩ := wp_headsInOrder (s.counted n) key
    (fun shardId _ o => if (s.cluster.catalog.get key).isNone then catalogAddReplica key shardId o.body.length 0 else pure ())
    key s.cluster.storeRef (s.readIds key) none
  have hans : firstAnswer s.cluster.storeRef key (s.readIds key) (s.counted n).stores = s.answer1 key := rfl
  rw [hans] at h2
  have hcat : s1.cluster.catalog.get key = s.cluster.catalog.get key := by rw [h1.cluster]; rfl
  have hconfig : s1.cluster.config = s.cluster.config := by rw [h1.cluster]; rfl
  have hshards : s1.cluster.shards = s.cluster.shards := by rw [h1.cluster]; rfl
  cases ha : s.answer1 key with
  | none =>
    rw [ha] at h2
    obtain ⟨⟨e, hr⟩, hs⟩ := h2
    rw [hs, hr]
    exact ⟨hconfig, hshards, fun path st => h1.alike path st,
      by rw [ha]; rfl, fun x o h => by rw [ha] at h; cases h⟩
  | some a =>
    obtain ⟨x, o⟩ := a
    rw [ha] at h2
    obtain ⟨hr, hs⟩ := h2
    rw [hs, hr]
    cases he : s.cluster.catalog.get key with
    | some e =>
      refine ⟨hconfig, hshards, fun path st => h1.alike path st,
        by rw [ha]; rfl, fun x' o' h => ?_⟩
      show (s1.cluster.catalog.get key).map (·.shards) = _
      rw [hcat, he]
      rfl
    | none =>
      refine ⟨hconfig, hshards, fun path st => h1.alike path st,
        by rw [ha]; rfl, fun x' o' h => ?_⟩
      obtain ⟨rfl, rfl⟩ := Prod.mk.inj (Option.some.inj (ha.symm.trans h))
      show ((s1.cluster.catalog.addReplica key x o.body.length 0 s1.now).get key).map (·.shards) = _
      rw [Catalog.get_addReplica, if_pos rfl, hcat, he]
      rfl

omit [Crates] in
def Sys.copy (s : Sys) (x : ShardId) (key : Key) : Option Object :=
  (s.stores (s.cluster.config.storeOf x)).objects.lookup key

/-- The shards that the round of a marker deletes the object from: those of its entry, or the one that
    answered, unless what it has is newer. -/
def Sys.clearedFrom (s : Sys) (key : Key) (t : DateTime) : List ShardId :=
  match s.answer1 key with
  | some (x, o) =>
    if t < o.lastModified then []
    else ((((s.cluster.catalog.get key).map (·.shards)).getD [x]).filter (· < s.cluster.shards.length)).filter fun id =>
      s.cluster.available id
  | none => []

/-- The deletes of a round take what the shard has. -/
def Sys.clears (s : Sys) (k : Key) (t : DateTime) (x : ShardId) : Prop :=
  Path.fromStr k = k ∧ ∃ st, s.cluster.storeRef x = some st ∧
    ((s.stores st).deletedTimes (s.cluster.kindOf x) k ((s.clearedFrom k t).count x)).objects.lookup k = none

omit [Crates] in
/-- The paths that the round of a marker deletes at, on a shard of this kind. -/
def vacuumPaths (kind : ShardKind) (k : Key) : List Key :=
  deletedPaths kind (Path.fromStr k) ++ deletedPaths kind (Path.fromStr (deleteMarkerKey k))

omit [Crates] in
theorem Cluster.kindOf_congr {c c' : Cluster} (h : c'.config = c.config) (x : ShardId) : c'.kindOf x = c.kindOf x := by
  rw [Cluster.kindOf, h]
  rfl

structure Round (k : Key) (t : DateTime) (s s' : Sys) : Prop where
  config : s'.cluster.config = s.cluster.config
  shards : s'.cluster.shards = s.cluster.shards
  others : ∀ x path, path ∉ vacuumPaths (s.cluster.kindOf x) k → s'.copy x path = s.copy x path
  fewer : ∀ st path o, (s'.stores st).objects.lookup path = some o → (s.stores st).objects.lookup path = some o
  own : ∀ x o, s.copy x k = some o → (s'.copy x k = none ↔ s.clears k t x)

variable {t : DateTime}

omit [Crates] in
theorem notMem_deletedPaths {kind : ShardKind} {key path : Key} (hkey : key ≠ path) (hside : metaSidecarPath key ≠ path) :
    path ∉ deletedPaths kind key := by
  intro hm
  unfold deletedPaths at hm
  split at hm
  · rcases List.mem_cons.mp hm with rfl | hm
    · exact hkey rfl
    · exact hside (List.mem_singleton.mp hm).symm
  · exact hkey (List.mem_singleton.mp hm).symm

omit [Crates] in
/-- What a delete leaves alone on a shard. -/
theorem copy_of_deleted {key path : Key} {r : Except Error Unit} {es : List Event} (hd : DeletedRaw key s r s' es)
    (hcount : ∀ x st, s.cluster.storeRef x = some st → s'.stores st = (s.stores st).deletedTimes (s.cluster.kindOf x) key
      ((s.cluster.deleteTargets (s.cluster.catalog.get key)).count x))
    (x : ShardId) (h : path ∉ deletedPaths (s.cluster.kindOf x) key) : s'.copy x path = s.copy x path := by
  unfold Sys.copy
  rw [hd.deleted.config]
  cases hst : s.cluster.storeRef x with
  | some st =>
    rw [← (Cluster.storeRef_eq_some hst).1, hcount x st hst]
    exact Store.lookup_deletedTimes h _ _
  | none =>
    -- a shard without a store is sent nothing
    rw [hd.deleted.kept _ fun z _ hz => ?_]
    have hx : x = z := s.cluster.config.storeOf.injective (Cluster.storeRef_eq_some hz).1
    rw [hx, hz] at hst
    cases hst

/-- The marker is dropped at the end. -/
theorem Round.dropMarker {r : Except Error Unit} {es : List Event} (h : Round k t s s')
    (hd : DeletedRaw (Path.fromStr (deleteMarkerKey k)) s' r s'' es)
    (hcount : ∀ x st, s'.cluster.storeRef x = some st → s''.stores st = (s'.stores st).deletedTimes (s'.cluster.kindOf x)
      (Path.fromStr (deleteMarkerKey k))
      ((s'.cluster.deleteTargets (s'.cluster.catalog.get (Path.fromStr (deleteMarkerKey k)))).count x)) : Round k t s s'' where
  config := hd.deleted.config.trans h.config
  shards := hd.deleted.shards.trans h.shards
  others := fun x path hp => by
    refine (copy_of_deleted hd hcount x fun hm => hp ?_).trans (h.others x path hp)
    rw [Cluster.kindOf_congr h.config] at hm
    exact List.mem_append_right _ hm
  fewer := fun st path o ho => h.fewer st path o (hd.deleted.fewer st path o ho)
  own := fun x o ho => by
    rw [copy_of_deleted hd hcount x (notMem_deletedPaths (marker_ne k) (marker_sidecar_ne k))]
    exact h.own x o ho

/-- A shard that holds a copy loses it only to a delete it is sent. -/
theorem not_clears_of_spared {x : ShardId} {o : Object} (ho : s.copy x k = some o)
    (h : Path.fromStr k = k → s.clearedFrom k t = []) : ¬ s.clears k t x := by
  intro hc
  obtain ⟨hk, st, hst, hnone⟩ := hc
  rw [h hk, List.count_nil] at hnone
  rw [(Cluster.storeRef_eq_some hst).1] at hnone
  exact absurd (ho.symm.trans hnone) (by simp)

/-- A round that looks, and deletes nothing. -/
theorem Answered.round {r : Except Error Object} {s1 : Sys} (h : Answered s (Path.fromStr k) r s1)
    (hspare : Path.fromStr k = k → s.clearedFrom k t = []) : Round k t s s1 where
  config := h.config
  shards := h.shards
  others := fun x path _ => by rw [Sys.copy, Sys.copy, h.config, (h.alike path _).lookup]
  fewer := fun st path o ho => by rw [← (h.alike path st).lookup]; exact ho
  own := fun x o ho => by
    have hsame : s1.copy x k = some o := by
      unfold Sys.copy
      rw [(h.alike k _).lookup, h.config]
      exact ho
    rw [hsame]
    exact iff_of_false (by simp) (not_clears_of_spared ho hspare)

/-- A round that finds an old copy, and deletes. -/
theorem Answered.clear {r : Except Error Object} {rd : Except Error Unit} {s1 s2 : Sys} {es : List Event} {y : ShardId} {o : Object}
    (h : Answered s (Path.fromStr k) r s1) (ha : s.answer1 (Path.fromStr k) = some (y, o)) (hold : ¬ t < o.lastModified)
    (hd : DeletedRaw (Path.fromStr k) s1 rd s2 es)
    (hcount : ∀ x st, s1.cluster.storeRef x = some st → s2.stores st = (s1.stores st).deletedTimes (s1.cluster.kindOf x)
      (Path.fromStr k) ((s1.cluster.deleteTargets (s1.cluster.catalog.get (Path.fromStr k))).count x)) :
    Round k t s s2 where
  config := hd.deleted.config.trans h.config
  shards := hd.deleted.shards.trans h.shards
  others := fun x path hp => by
    have hlooked : s1.copy x path = s.copy x path := by rw [Sys.copy, Sys.copy, h.config, (h.alike path _).lookup]
    refine (copy_of_deleted hd hcount x fun hm => hp ?_).trans hlooked
    rw [Cluster.kindOf_congr h.config] at hm
    exact List.mem_append_left _ hm
  fewer := fun st path o ho => by
    rw [← (h.alike path st).lookup]
    exact hd.deleted.fewer st path o ho
  own := fun x o' ho => by
    have hrefs : SameRefs s.cluster s1.cluster := ⟨h.config, by rw [h.shards]⟩
    have hcopy : ∀ st, s.cluster.storeRef x = some st → s2.copy x k = (s2.stores st).objects.lookup k := fun st hst => by
      rw [Sys.copy, hd.deleted.config, h.config, (Cluster.storeRef_eq_some hst).1]
    by_cases hk : Path.fromStr k = k
    · rw [hk] at ha hcount
      have htargets : s1.cluster.deleteTargets (s1.cluster.catalog.get k) = s.clearedFrom k t := by
        have hl := h.listed
        rw [hk] at hl
        obtain ⟨e, he, hsh⟩ := Option.map_eq_some_iff.mp (hl y o ha)
        rw [Sys.clearedFrom, ha]
        dsimp only
        rw [if_neg hold, he, Cluster.deleteTargets, ← hsh]
        simp only [Option.map_some, Option.getD_some, h.shards, Cluster.available, Cluster.healthOf]
      have hkind : s1.cluster.kindOf x = s.cluster.kindOf x := Cluster.kindOf_congr h.config x
      have hafter : ∀ st, s.cluster.storeRef x = some st → s2.copy x k =
          ((s.stores st).deletedTimes (s.cluster.kindOf x) k ((s.clearedFrom k t).count x)).objects.lookup k := fun st hst => by
        rw [hcopy st hst, hcount x st (by rw [hrefs.storeRef, hst]), htargets, hkind]
        exact ((h.alike k st).deletedTimes _ _).lookup
      constructor
      · intro hnone
        cases hst : s.cluster.storeRef x with
        | some st => exact ⟨hk, st, hst, (hafter st hst).symm.trans hnone⟩
        | none =>
          -- a shard without a store is sent nothing
          have hkept : s2.stores (s.cluster.config.storeOf x) = s1.stores (s.cluster.config.storeOf x) := by
            refine hd.deleted.kept _ fun z _ hz => ?_
            rw [hrefs.storeRef] at hz
            have hx : x = z := s.cluster.config.storeOf.injective (Cluster.storeRef_eq_some hz).1
            rw [hx, hz] at hst
            cases hst
          rw [Sys.copy, hd.deleted.config, h.config, hkept, (h.alike k _).lookup] at hnone
          exact absurd (ho.symm.trans hnone) (by simp)
      · intro hc
        obtain ⟨-, st, hst, hnone⟩ := hc
        rw [hafter st hst, hnone]
    · have hpaths : k ∉ [Path.fromStr k, metaSidecarPath (Path.fromStr k)] := by
        simp only [List.mem_cons, List.not_mem_nil, or_false, not_or]
        exact ⟨fun h => hk h.symm, (sidecar_fromStr_ne k).symm⟩
      have hsame : s2.copy x k = some o' := by
        rw [Sys.copy, hd.deleted.others _ _ hpaths, (h.alike k _).lookup, hd.deleted.config, h.config]
        exact ho
      rw [hsame]
      exact iff_of_false (by simp) fun hc => hk hc.1

theorem wp_vacuumMarker [Chrono] (done : Vacuumed) (k : Key) (t : DateTime) :
    (vacuumMarker done (k, t)).wp (fun _ s' _ => Round k t s s') s := by
  have hdrop : ∀ {s1 : Sys} (v : Vacuumed), Round k t s s1 →
      (do
        let _ ← removeDeleteMarker k
        pure v : ClusterM Vacuumed).wp (fun _ s' _ => Round k t s s') s1 := fun v h1 => by
    rw [wp_bind, removeDeleteMarker]
    refine wp_mono (wp_and (wp_deleteRaw _) (wp_deleteRaw_count _)) fun r s2 t2 h2 => ?_
    exact h1.dropMarker h2.1 h2.2
  unfold vacuumMarker
  dsimp only
  rw [wp_bind]
  refine wp_mono (wp_headRaw _) fun r s1 t1 h1 => ?_
  have hanswer := h1.answer
  cases r with
  | error e =>
    have hnone : s.answer1 (Path.fromStr k) = none := Option.map_eq_none_iff.mp hanswer.symm
    refine hdrop _ (h1.round fun hk => ?_)
    rw [hk] at hnone
    rw [Sys.clearedFrom, hnone]
  | ok o =>
    obtain ⟨⟨y, o'⟩, ha, rfl⟩ := Option.map_eq_some_iff.mp hanswer.symm
    dsimp only
    split
    · next hnew =>
      refine hdrop _ (h1.round fun hk => ?_)
      rw [hk] at ha
      rw [Sys.clearedFrom, ha]
      exact if_pos hnew
    · next hold =>
      rw [wp_bind]
      refine wp_mono (wp_and (wp_deleteRaw _) (wp_deleteRaw_count _)) fun rd s2 t2 h2 => ?_
      exact hdrop _ (h1.clear ha hold h2.1 h2.2)

/-! ## When a marker may go -/

structure Applied (k : Key) (t : DateTime) (s s' : Sys) : Prop where
  gone : ∀ x < s.cluster.shards.length, ∀ o, s'.copy x k = some o → t < o.lastModified
  kept : ∀ x < s.cluster.shards.length, ∀ o, s.copy x k = some o → t < o.lastModified → s'.copy x k = some o

/-- The round of a marker deletes exactly the copies that are not newer. -/
def Sys.MayDrop (s : Sys) (k : Key) (t : DateTime) : Prop :=
  ∀ x < s.cluster.shards.length, ∀ o, s.copy x k = some o → (s.clears k t x ↔ o.lastModified ≤ t)

theorem Round.applied_iff (h : Round k t s s') : Applied k t s s' ↔ s.MayDrop k t := by
  have hfewer : ∀ x o, s'.copy x k = some o → s.copy x k = some o := fun x o ho => by
    rw [Sys.copy, h.config] at ho
    exact h.fewer _ _ _ ho
  constructor
  · intro ha x hx o ho
    rw [← h.own x o ho]
    constructor
    · intro hnone
      by_contra hnew
      rw [ha.kept x hx o ho (not_le.mp hnew)] at hnone
      cases hnone
    · intro hold
      by_contra hsome
      obtain ⟨o', ho'⟩ := Option.ne_none_iff_exists'.mp hsome
      obtain rfl := Option.some.inj ((hfewer x o' ho').symm.trans ho)
      exact absurd hold (not_le.mpr (ha.gone x hx o' ho'))
  · intro hm
    constructor
    · intro x hx o ho
      by_contra hold
      have h1 := (h.own x o (hfewer x o ho)).mpr ((hm x hx o (hfewer x o ho)).mpr (not_lt.mp hold))
      rw [ho] at h1
      cases h1
    · intro x hx o ho hnew
      by_contra hsome
      have hnone : s'.copy x k = none := by
        by_contra hne
        obtain ⟨o', ho'⟩ := Option.ne_none_iff_exists'.mp hne
        obtain rfl := Option.some.inj ((hfewer x o' ho').symm.trans ho)
        exact hsome ho'
      exact absurd ((hm x hx o ho).mp ((h.own x o ho).mp hnone)) (not_le.mpr hnew)

/-! ## A whole vacuum -/

variable [Chrono]

/-- The rounds of a vacuum: each marker, with the state before and after. -/
def rounds : List (Key × DateTime) → Vacuumed → Sys → List ((Key × DateTime) × Sys × Sys)
  | [], _, _ => []
  | m :: ms, done, s =>
    let r := (vacuumMarker done m).exec s
    (m, s, r.2) :: rounds ms r.1 r.2

/-- No round deletes on a shard at the key of another marker. -/
def MarkersApart (c : Cluster) (markers : List (Key × DateTime)) : Prop :=
  markers.Pairwise fun m m' => ∀ x < c.shards.length, m.1 ∉ vacuumPaths (c.kindOf x) m'.1 ∧ m'.1 ∉ vacuumPaths (c.kindOf x) m.1

omit [Crates] [Chrono] in
theorem applied_congr {s1 s1' : Sys} (hlen : s1.cluster.shards.length = s.cluster.shards.length)
    (h : ∀ x < s.cluster.shards.length, s1.copy x k = s.copy x k) (h' : ∀ x < s.cluster.shards.length, s1'.copy x k = s'.copy x k) :
    Applied k t s1 s1' ↔ Applied k t s s' := by
  constructor
  · intro ha
    exact ⟨fun x hx o ho => ha.gone x (by rw [hlen]; exact hx) o (by rw [h' x hx]; exact ho),
      fun x hx o ho hn => by rw [← h' x hx]; exact ha.kept x (by rw [hlen]; exact hx) o (by rw [h x hx]; exact ho) hn⟩
  · intro ha
    rw [← hlen] at h h'
    exact ⟨fun x hx o ho => ha.gone x (by rw [← hlen]; exact hx) o (by rw [← h' x hx]; exact ho),
      fun x hx o ho hn => by rw [h' x hx]; exact ha.kept x (by rw [← hlen]; exact hx) o (by rw [← h x hx]; exact ho) hn⟩

/-- What the rounds leave alone. -/
theorem wp_rounds (ms : List (Key × DateTime)) (done : Vacuumed) :
    (ms.foldlM vacuumMarker done).wp (fun _ s' _ => s'.cluster.config = s.cluster.config ∧
      s'.cluster.shards = s.cluster.shards ∧
      ∀ x key, (∀ m ∈ ms, key ∉ vacuumPaths (s.cluster.kindOf x) m.1) → s'.copy x key = s.copy x key) s := by
  refine wp_foldlM (fun past _ s' _ => s'.cluster.config = s.cluster.config ∧ s'.cluster.shards = s.cluster.shards ∧
    ∀ x key, (∀ m ∈ past, key ∉ vacuumPaths (s.cluster.kindOf x) m.1) → s'.copy x key = s.copy x key)
    ⟨rfl, rfl, fun _ _ _ => rfl⟩ ?_ (fun _ _ _ h => h)
  intro past m rest _ v s1 _ h1
  obtain ⟨hconfig, hshards, hcopy⟩ := h1
  refine wp_mono (wp_vacuumMarker v m.1 m.2) fun _ s2 _ h2 => ⟨h2.config.trans hconfig, h2.shards.trans hshards, fun x key hkey => ?_⟩
  rw [← hcopy x key fun m' hm' => hkey m' (List.mem_append_left _ hm')]
  refine h2.others x key ?_
  rw [Cluster.kindOf_congr hconfig]
  exact hkey m (by simp)

/-- The markers are applied at the end if and only if each round could drop its marker. -/
theorem rounds_applied_iff (ms : List (Key × DateTime)) (done : Vacuumed) (s : Sys) (hapart : MarkersApart s.cluster ms) :
    (∀ m ∈ ms, Applied m.1 m.2 s ((ms.foldlM vacuumMarker done).exec s).2) ↔
      ∀ r ∈ rounds ms done s, r.2.1.MayDrop r.1.1 r.1.2 := by
  induction ms generalizing done s with
  | nil => simp [rounds]
  | cons m ms ih =>
    obtain ⟨hm, hms⟩ := List.pairwise_cons.mp hapart
    have hround : Round m.1 m.2 s ((vacuumMarker done m).exec s).2 := wp_vacuumMarker done m.1 m.2
    obtain ⟨hconfig, hshards, hcopy⟩ := wp_rounds (s := ((vacuumMarker done m).exec s).2) ms ((vacuumMarker done m).exec s).1
    rw [List.foldlM_cons, rounds]
    simp only [exec_bind, List.forall_mem_cons]
    set s1 := ((vacuumMarker done m).exec s).2
    set v1 := ((vacuumMarker done m).exec s).1
    refine and_congr ?_ ?_
    · rw [← hround.applied_iff]
      refine applied_congr rfl (fun _ _ => rfl) fun x hx => hcopy x m.1 fun m' hm' => ?_
      rw [Cluster.kindOf_congr hround.config]
      exact (hm m' hm' x hx).1
    · have hms1 : MarkersApart s1.cluster ms := hms.imp fun h x hx => by
        rw [Cluster.kindOf_congr hround.config]
        exact h x (by rw [← hround.shards]; exact hx)
      rw [← ih v1 s1 hms1]
      refine forall₂_congr fun m' hm' => ?_
      refine applied_congr (by rw [hround.shards]) (fun x hx => ?_) fun _ _ => rfl
      rw [hround.shards] at hx
      exact (hround.others x m'.1 (hm m' hm' x hx).2).symm

/-! ## Listing the markers -/

omit [Crates] [Chrono] in
/-- The shards hold the same objects. -/
structure SameStock (s s' : Sys) : Prop where
  config : s'.cluster.config = s.cluster.config
  shards : s'.cluster.shards = s.cluster.shards
  objects : ∀ st, (s'.stores st).objects = (s.stores st).objects

omit [Crates] [Chrono] in
theorem SameStock.copy (h : SameStock s s') (x : ShardId) (key : Key) : s'.copy x key = s.copy x key := by
  rw [Sys.copy, Sys.copy, h.config, h.objects]

/-- Steps that take and give no objects. -/
abbrev Looking {α : Type} (p : ClusterM α) : Prop := Only (fun s _ s' => SameStock s s') p

omit [Crates] [Chrono] in
theorem looking_look {α : Type} (f : Sys → α) : Looking (look f) := only_step fun _ => ⟨rfl, rfl, fun _ => rfl⟩

omit [Crates] [Chrono] in
theorem looking_call {α : Type} {r : StoreRef} {kind : Call} {path : Key} {f : Store → Except StoreError α × Store}
    (hf : ∀ st, (f st).2.objects = st.objects) : Looking (r.call kind path f) := by
  refine only_call fun id => only_step fun s => ⟨rfl, rfl, fun st => ?_⟩
  by_cases h : st = id
  · subst h
    simp only [Function.update_self]
    exact hf _
  · simp only [Function.update_of_ne h]

omit [Crates] [Chrono] in
theorem looking_get (r : StoreRef) (path : Key) : Looking (r.get path) := looking_call fun st => by rw [Store.get_next]; rfl

omit [Crates] [Chrono] in
theorem looking_head (r : StoreRef) (path : Key) : Looking (r.head path) := looking_call fun st => by rw [Store.head_next]; rfl

omit [Chrono] in
theorem looking_getRaw (path : Key) : Looking (getRaw path) := by
  have horder : Looking (resolveShards path) := by
    refine only_bind (looking_look _) fun entry => only_bind (looking_look _) fun raw => only_bind (looking_look _) fun pref => ?_
    cases pref with
    | ordered => exact only_pure _
    | roundRobin =>
      refine only_bind ?_ fun _ => only_pure _
      unfold balancedShardOrder
      split
      · exact only_pure _
      · exact only_step fun _ => ⟨rfl, rfl, fun _ => rfl⟩
  refine only_bind (only_bind horder fun _ => only_bind (looking_look _) fun _ => only_pure _) fun order => ?_
  obtain ⟨stores, isFallback⟩ := order
  dsimp only
  generalize (none : Option StoreError) = last
  induction stores generalizing last with
  | nil => exact only_pure _
  | cons x l ih =>
    unfold rawReplicas
    refine only_bind (looking_get _ _) fun r => ?_
    cases r with
    | error e => exact ih _
    | ok o =>
      refine only_bind ?_ fun _ => only_pure _
      split
      · exact only_bind (looking_head _ _) fun _ => only_step fun _ => ⟨rfl, rfl, fun _ => rfl⟩
      · exact only_pure _

theorem looking_listDeleteMarkers : Looking listDeleteMarkers := by
  refine only_bind (looking_look _) fun keys => only_bind (only_joinAll fun p hp => ?_) fun _ => only_pure _
  obtain ⟨key, -, rfl⟩ := List.mem_map.mp hp
  exact only_bind (looking_getRaw _) fun _ => only_pure _

theorem sameStock_listDeleteMarkers (s : Sys) : SameStock s (listDeleteMarkers.exec s).2 :=
  looking_listDeleteMarkers.run (fun _ => ⟨rfl, rfl, fun _ => rfl⟩)
    (fun _ _ _ h h' => ⟨h'.config.trans h.config, h'.shards.trans h.shards, fun st => (h'.objects st).trans (h.objects st)⟩) s

/-! ## Vacuum -/

def Sys.vacuumed (s : Sys) : List (Key × DateTime) := (listDeleteMarkers.exec s).1

def Sys.vacuumRounds (s : Sys) : List ((Key × DateTime) × Sys × Sys) :=
  rounds s.vacuumed ⟨0, 0⟩ (listDeleteMarkers.exec s).2

/-- The marker goes only if it is applied, and no copy that is newer is deleted. -/
structure DropsApplied (k : Key) (t : DateTime) (s s' : Sys) : Prop where
  dropped : (∃ x < s.cluster.shards.length, s.copy x (Path.fromStr (deleteMarkerKey k)) ≠ none ∧
      s'.copy x (Path.fromStr (deleteMarkerKey k)) = none) →
    ∀ x < s.cluster.shards.length, ∀ o, s'.copy x k = some o → t < o.lastModified
  spared : ∀ x < s.cluster.shards.length, ∀ o, s.copy x k = some o → t < o.lastModified → s'.copy x k = some o

omit [Crates] [Chrono] in
theorem Applied.dropsApplied (h : Applied k t s s') : DropsApplied k t s s' := ⟨fun _ => h.gone, h.kept⟩

theorem vacuum_applied_iff (hh : s.cluster.blocksVacuum = false) (hapart : MarkersApart s.cluster s.vacuumed) :
    (∀ m ∈ s.vacuumed, Applied m.1 m.2 s (vacuumDeleteMarkers.exec s).2) ↔
      ∀ r ∈ s.vacuumRounds, r.2.1.MayDrop r.1.1 r.1.2 := by
  have hexec : (vacuumDeleteMarkers.exec s).2 =
      ((s.vacuumed.foldlM vacuumMarker ⟨0, 0⟩).exec (listDeleteMarkers.exec s).2).2 := by
    unfold vacuumDeleteMarkers
    rw [exec_bind, look, exec_step]
    simp only [hh, Bool.false_eq_true, if_false, exec_bind, exec_pure]
    rfl
  have hstock := sameStock_listDeleteMarkers s
  have hlisted : MarkersApart (listDeleteMarkers.exec s).2.cluster s.vacuumed := hapart.imp fun h x hx => by
    rw [Cluster.kindOf_congr hstock.config]
    exact h x (by rw [← hstock.shards]; exact hx)
  rw [Sys.vacuumRounds, ← rounds_applied_iff _ _ _ hlisted, hexec]
  refine forall₂_congr fun m _ => ?_
  exact applied_congr (by rw [hstock.shards]) (fun x _ => hstock.copy x m.1) (fun _ _ => rfl) |>.symm

/-- Vacuum drops only markers that are applied, and deletes no newer copy, if every round takes exactly the
    copies that are not newer than its marker; and only then are all the markers it goes through applied. -/
theorem vacuum_drops_applied_markers (s : Sys) (hh : s.cluster.blocksVacuum = false) :
    (MarkersApart s.cluster s.vacuumed → (∀ r ∈ s.vacuumRounds, r.2.1.MayDrop r.1.1 r.1.2) →
      ∀ m ∈ s.vacuumed, DropsApplied m.1 m.2 s (vacuumDeleteMarkers.exec s).2) ∧
    (MarkersApart s.cluster s.vacuumed → (∀ m ∈ s.vacuumed, Applied m.1 m.2 s (vacuumDeleteMarkers.exec s).2) →
      ∀ r ∈ s.vacuumRounds, r.2.1.MayDrop r.1.1 r.1.2) :=
  ⟨fun hapart hrounds m hm => ((vacuum_applied_iff hh hapart).mpr hrounds m hm).dropsApplied,
    fun hapart => (vacuum_applied_iff hh hapart).mp⟩

end Round

open Sample

/-- A shard with an object that has been deleted since, and with the marker. -/
def Sample.deletedLate : Store :=
  { Store.holding fresh "k" [1] with
    objects := (Store.holding fresh "k" [1]).objects.insert "__deleted__/k" ⟨Chrono.toRfc3339 5, [], ∅, 5⟩ }

/-- A cluster that lists both on its first shard. -/
def Sample.marked (shards : Nat) (stores : StoreId → Store) : Sys :=
  ⟨stores, { cluster shards (config 1 1) with
    catalog := ((⟨∅, false⟩ : Catalog).put "k" [0] 1 none 0 0).put "__deleted__/k" [0] 25 none 0 5 }, []⟩

open Raw.Sample in
/-- A delete that one shard has missed is made up for. -/
theorem vacuum_makes_up_for_a_delete : (marked 1 fun _ => deletedLate).vacuumed = [("k", 5)] ∧
    DropsApplied "k" 5 (marked 1 fun _ => deletedLate) (vacuumDeleteMarkers.exec (marked 1 fun _ => deletedLate)).2 := by
  have hm : (marked 1 fun _ => deletedLate).vacuumed = [("k", 5)] := by decide +kernel
  have hdrop : ∀ s1 : Sys, s1.cluster.shards.length = 1 → (s1.copy 0 "k").map (·.lastModified) = some 0 →
      s1.clears "k" 5 0 → s1.MayDrop "k" 5 := by
    intro s1 hlen htime hclears x hx o ho
    obtain rfl : x = 0 := by
      rw [hlen] at hx
      exact Nat.lt_one_iff.mp hx
    have h0 : o.lastModified = 0 := by
      rw [ho] at htime
      exact Option.some.inj htime
    exact iff_of_true hclears (by rw [h0]; decide)
  refine ⟨hm, (vacuum_drops_applied_markers _ (by decide)).1 ?_ ?_ ("k", 5) (by rw [hm]; exact List.mem_singleton_self _)⟩
  · rw [hm]
    exact List.pairwise_singleton _ _
  · intro r hr
    rw [Sys.vacuumRounds, hm] at hr
    simp only [rounds, List.mem_singleton] at hr
    rw [hr]
    exact hdrop _ (by decide +kernel) (by decide +kernel)
      ⟨by decide, 0, by decide +kernel, Option.isNone_iff_eq_none.mp (by decide +kernel)⟩

open Raw.Sample in
/-- The head of an old copy fails: the copy is taken for gone, and the marker goes. -/
theorem a_failed_head_drops_the_marker : ¬ ∀ s : Sys, s.cluster.blocksVacuum = false →
    ∀ m ∈ s.vacuumed, DropsApplied m.1 m.2 s (vacuumDeleteMarkers.exec s).2 := by
  intro h
  set s := marked 1 fun _ => Store.failing deletedLate .head [broken] with hs
  have hm : ("k", 5) ∈ s.vacuumed := by decide +kernel
  obtain ⟨hdropped, -⟩ := h s (by decide) _ hm
  have hbefore : (s.copy 0 "__deleted__/k").isSome = true := by decide +kernel
  have hafter : ((vacuumDeleteMarkers.exec s).2.copy 0 "__deleted__/k").isNone = true := by decide +kernel
  have hold : ((vacuumDeleteMarkers.exec s).2.copy 0 "k").map (·.lastModified) = some 0 := by decide +kernel
  obtain ⟨o, ho, htime⟩ := Option.map_eq_some_iff.mp hold
  have hnew := hdropped ⟨0, by decide, Option.isSome_iff_ne_none.mp hbefore, Option.isNone_iff_eq_none.mp hafter⟩
    0 (by decide) o ho
  rw [htime] at hnew
  exact absurd hnew (by decide)

end ObjStr.Sharded
