/-
  ObjStr.Sharded.Rescan — what a rescan of one shard makes of the catalog (`shardedobjstr/src/lib.rs`, `catalog.rs`).

  `rebuild_catalog_for_shard` takes the shard out of every entry, lists its store, and adds what it found. What it should leave
  is what `rebuild_catalog` finds on the shard, merged with what the entries say of the other shards (`Merged`); and the
  catalog as it was, if the listing fails.
  - `rescan_keeps_iff`: it does exactly on a `Rescannable` shard: one that no entry lists, if its listing fails; and if it
    does not, one whose objects have names that a rebuild takes, and bring nothing to an entry that is not older.
  - `a_failed_rescan_forgets`: an entry whose only shard cannot be listed.
-/

import ObjStr.Sharded.Recovery
import ObjStr.Sharded.Sample

namespace ObjStr.Sharded

open ObjStr.Lib ObjStr.Raw Proc

variable {s s' : Sys} {id : ShardId} {k : Key}

/-! ## What a rescan should leave -/

def Sys.only (s : Sys) (id : ShardId) : Sys :=
  { s with cluster := { s.cluster with
    shards := s.cluster.shards.mapIdx fun x i => { i with health := if x = id then .healthy else .offline } } }

def Sys.rebuilt (s : Sys) (id : ShardId) (k : Key) : Option PlacementEntry :=
  (rebuildCatalog.exec (s.only id)).2.cluster.catalog.get k

/-- What the entries say of the other shards. -/
def Sys.elsewhere (s : Sys) (id : ShardId) (k : Key) : Option PlacementEntry :=
  (s.cluster.catalog.removeAllForShard id).2.get k

/-- The entry that others hold gets the shard, and changes only if the object found is newer. -/
def Merged (id : ShardId) (elsewhere rebuilt after : Option PlacementEntry) : Prop :=
  match elsewhere, rebuilt with
  | e, none => after = e
  | none, some r => after = some r
  | some e, some r => ∃ f, after = some f ∧ f.shards = e.shards ++ [id] ∧
      (¬ e.updated < r.updated → f = { e with shards := e.shards ++ [id] })

structure RescanKeeps (s : Sys) (id : ShardId) : Prop where
  failed : ∀ e, ((rebuildCatalogForShard id).exec s).1 = .error e →
    ((rebuildCatalogForShard id).exec s).2.cluster.catalog = s.cluster.catalog
  done : ∀ n, ((rebuildCatalogForShard id).exec s).1 = .ok n → ∀ k,
    Merged id (s.elsewhere id k) (s.rebuilt id k) (((rebuildCatalogForShard id).exec s).2.cluster.catalog.get k)

/-! ## The scan -/

def Sys.scan (s : Sys) (id : ShardId) : Except StoreError (List (Key × Object × UInt16)) :=
  ((scanShard s.cluster.config.rawRefs id (s.cluster.storeRef id)).exec s).1

def Sys.keptOf (s : Sys) (id : ShardId) (items : List (Key × Object × UInt16)) : List (Key × Object × UInt16) :=
  if (s.cluster.config.rawRefs.bind (·.get id)).isSome then items else items.filter fun item => !isSidecar item.1

theorem scanShard_frame (s s' : Sys) (id : ShardId) (refs : Option RawRefRegistry) (store : StoreRef) :
    ((scanShard refs id store).exec s).2.cluster = s.cluster ∧ ((scanShard refs id store).exec s).2.clock = s.clock ∧
      (s'.stores = s.stores → ((scanShard refs id store).exec s').1 = ((scanShard refs id store).exec s).1) := by
  unfold scanShard
  cases refs.bind (·.get id) with
  | some raw =>
    refine ⟨rfl, rfl, fun h => ?_⟩
    show Except.ok (((s'.stores raw).objects.entries.map _)) = Except.ok _
    rw [h]
  | none =>
    cases store with
    | none => exact ⟨rfl, rfl, fun _ => rfl⟩
    | some st =>
      refine ⟨rfl, rfl, fun h => ?_⟩
      show Except.map _ ((s'.stores st).list).1 = Except.map _ ((s.stores st).list).1
      rw [h]

/-- The keys of a listing are different. -/
theorem Sys.scan_nodup {items : List (Key × Object × UInt16)} (h : s.scan id = .ok items) : (items.map (·.1)).Nodup := by
  have hkeys : ∀ m : FMap Object, (m.entries.map (·.1)).Nodup := fun m => m.nodupKeys
  unfold Sys.scan scanShard at h
  cases hraw : s.cluster.config.rawRefs.bind (·.get id) with
  | some raw =>
    rw [hraw] at h
    obtain rfl := Except.ok.inj h
    rw [List.map_map]
    exact hkeys _
  | none =>
    rw [hraw] at h
    cases hst : s.cluster.storeRef id with
    | none =>
      rw [hst] at h
      exact nomatch h
    | some st =>
      rw [hst] at h
      change Except.map _ ((s.stores st).list).1 = Except.ok items at h
      unfold Store.list at h
      cases hout : (s.stores st).outcome .list with
      | some e =>
        rw [hout] at h
        exact nomatch h
      | none =>
        rw [hout] at h
        obtain rfl := Except.ok.inj h
        rw [List.map_map, List.map_map]
        exact hkeys _

theorem keptOf_nodup {items : List (Key × Object × UInt16)} (h : (items.map (·.1)).Nodup) :
    ((s.keptOf id items).map (·.1)).Nodup := by
  unfold Sys.keptOf
  split
  · exact h
  · exact h.sublist (List.filter_sublist.map _)

/-! ## Adding what was found -/

def foundEntry (id : ShardId) (elsewhere : Option PlacementEntry) (o : Object) (ml : UInt16) (now : DateTime) : PlacementEntry :=
  (elsewhere.getD ⟨[], o.body.length, none, now, ml⟩).withReplica id ml

theorem exec_addFound (id : ShardId) (items : List (Key × Object × UInt16)) (hnodup : (items.map (·.1)).Nodup) (s : Sys) :
    (∀ k, k ∉ items.map (·.1) →
      ((items.forM fun item => catalogAddReplica item.1 id item.2.1.body.length item.2.2).exec s).2.cluster.catalog.get k =
        s.cluster.catalog.get k) ∧
    ∀ i k o ml, items[i]? = some (k, o, ml) →
      ((items.forM fun item => catalogAddReplica item.1 id item.2.1.body.length item.2.2).exec s).2.cluster.catalog.get k =
        some (foundEntry id (s.cluster.catalog.get k) o ml ((s.clock.drop i).headD 0)) := by
  induction items generalizing s with
  | nil => exact ⟨fun _ _ => rfl, fun i k o ml h => by simp at h⟩
  | cons item items ih =>
    rw [List.map_cons, List.nodup_cons] at hnodup
    obtain ⟨hnew, hnodup⟩ := hnodup
    rw [List.forM_eq_forM, List.forM_cons, exec_bind]
    generalize hs1 : ((catalogAddReplica item.1 id item.2.1.body.length item.2.2).exec s).2 = s1
    have hget : ∀ k, s1.cluster.catalog.get k = if k = item.1 then
        some (foundEntry id (s.cluster.catalog.get item.1) item.2.1 item.2.2 s.now) else s.cluster.catalog.get k := by
      intro k
      rw [← hs1]
      exact Catalog.get_addReplica ..
    have hclock : s1.clock = s.clock.tail := by
      rw [← hs1]
      rfl
    obtain ⟨hrest, hfound⟩ := ih hnodup s1
    rw [List.forM_eq_forM] at hrest hfound
    refine ⟨fun k hk => ?_, fun i k o ml hi => ?_⟩
    · rw [List.map_cons, List.mem_cons, not_or] at hk
      rw [hrest k hk.2, hget, if_neg hk.1]
    · cases i with
      | zero =>
        obtain rfl := Option.some.inj hi
        rw [hrest _ hnew, hget, if_pos rfl]
        rfl
      | succ i =>
        rw [List.getElem?_cons_succ] at hi
        have hne : k ≠ item.1 := by
          intro heq
          exact hnew (heq ▸ List.mem_map_of_mem (f := (·.1)) (List.mem_of_getElem? hi))
        rw [hfound i k o ml hi, hget, if_neg hne, hclock, List.drop_tail]

/-! ## What a rebuild finds -/

theorem lookup_merged (items : List (Key × Object × UInt16)) (hnodup : (items.map (·.1)).Nodup) (m : FMap PlacementEntry)
    (hm : ∀ k ∈ items.map (·.1), m.lookup k = none) (k : Key) :
    (items.foldl (mergeListed id) m).lookup k = match items.find? fun item => item.1 = k && !isSidecar k with
      | none => m.lookup k
      | some (_, o, ml) => some ⟨[id], o.body.length, none, o.lastModified, ml⟩ := by
  induction items generalizing m with
  | nil => rfl
  | cons item items ih =>
    obtain ⟨key, o, ml⟩ := item
    rw [List.map_cons, List.nodup_cons] at hnodup
    obtain ⟨hnew, hnodup⟩ := hnodup
    rw [List.foldl_cons]
    by_cases hside : isSidecar key = true
    · have hsame : mergeListed id m (key, o, ml) = m := by
        unfold mergeListed
        dsimp only
        rw [if_pos hside]
      rw [hsame, ih hnodup m fun k hk => hm k (List.mem_cons_of_mem _ hk), List.find?_cons_of_neg]
      intro hkey
      simp only [Bool.and_eq_true, decide_eq_true_eq, Bool.not_eq_true'] at hkey
      rw [← hkey.1, hside] at hkey
      exact Bool.noConfusion hkey.2
    · have hnone : m.lookup key = none := hm key List.mem_cons_self
      have hput : ∀ k, (mergeListed id m (key, o, ml)).lookup k =
          if k = key then some ⟨[id], o.body.length, none, o.lastModified, ml⟩ else m.lookup k := by
        intro k
        unfold mergeListed
        dsimp only
        rw [if_neg hside, FMap.lookup_set, hnone]
        simp
      have hlater : ∀ k ∈ items.map (·.1), (mergeListed id m (key, o, ml)).lookup k = none := by
        intro k hk
        rw [hput, if_neg fun h : k = key => hnew (h ▸ hk)]
        exact hm k (List.mem_cons_of_mem _ hk)
      rw [ih hnodup _ hlater]
      by_cases hk : key = k
      · subst hk
        have hrest : items.find? (fun item => item.1 = key && !isSidecar key) = none := by
          rw [List.find?_eq_none]
          intro item hitem hkey
          simp only [Bool.and_eq_true, decide_eq_true_eq] at hkey
          have hmem : item.1 ∈ items.map (·.1) := List.mem_map_of_mem hitem
          exact hnew (hkey.1 ▸ hmem)
        rw [hrest, List.find?_cons_of_pos (by simpa using hside)]
        dsimp only
        rw [hput, if_pos rfl]
      · have hskip : ((key, o, ml) :: items).find? (fun item => item.1 = k && !isSidecar k) =
            items.find? fun item => item.1 = k && !isSidecar k := List.find?_cons_of_neg (by simp [hk])
        rw [hskip]
        cases items.find? (fun item => item.1 = k && !isSidecar k) with
        | none =>
          dsimp only
          rw [hput, if_neg fun h => hk h.symm]
        | some found => rfl

/-- A rebuild that reaches one shard lists that shard. -/
theorem rebuilt_eq (hid : id < s.cluster.shards.length) (k : Key) :
    s.rebuilt id k = ((((s.only id).scan id).toOption.getD []).foldl (mergeListed id) ∅).lookup k := by
  have hlen : (s.only id).cluster.shards.length = s.cluster.shards.length := List.length_mapIdx
  have havail : ∀ x, x < s.cluster.shards.length → ((s.only id).cluster.available x = true ↔ x = id) := by
    intro x hx
    unfold Cluster.available Cluster.healthOf Sys.only
    dsimp only
    rw [List.getElem?_mapIdx, List.getElem?_eq_getElem hx]
    by_cases h : x = id
    · simp [h, ShardHealth.isUnavailable]
    · simp [h, ShardHealth.isUnavailable]
  have hone : ((List.range (s.only id).cluster.shards.length).filter fun x => (s.only id).cluster.available x) = [id] := by
    have hcong : ((List.range (s.only id).cluster.shards.length).filter fun x => (s.only id).cluster.available x) =
        (List.range s.cluster.shards.length).filter fun x => x == id := by
      rw [hlen]
      refine List.filter_congr fun x hx => ?_
      rw [Bool.eq_iff_iff, havail x (List.mem_range.mp hx), beq_iff_eq]
    rw [hcong, List.filter_beq, List.count_eq_one_of_mem List.nodup_range (List.mem_range.mpr hid)]
    rfl
  have hjoin : ∀ (p : ClusterM (ShardId × Except StoreError (List (Key × Object × UInt16)))) (s : Sys),
      (joinAll [p]).exec s = ([(p.exec s).1], (p.exec s).2) := fun _ _ => rfl
  unfold Sys.rebuilt rebuildCatalog rawRefs Sys.scan
  simp only [exec_bind, look, exec_step, hone, List.map_cons, List.map_nil, hjoin, exec_pure, List.foldl_cons, List.foldl_nil]
  rfl

/-- The health of the shards does not matter to a scan. -/
theorem scan_only : (s.only id).scan id = s.scan id := by
  have hstore : (s.only id).cluster.storeRef id = s.cluster.storeRef id := by
    unfold Cluster.storeRef Sys.only
    dsimp only
    rw [List.getElem?_mapIdx]
    cases s.cluster.shards[id]? <;> rfl
  unfold Sys.scan
  rw [hstore]
  exact (scanShard_frame _ _ _ _ _).2.2 rfl

/-- What a rebuild finds on the shard: the objects that are not sidecars. -/
theorem rebuilt_of_scan {items : List (Key × Object × UInt16)} (hid : id < s.cluster.shards.length) (h : s.scan id = .ok items)
    (k : Key) : s.rebuilt id k = match items.find? fun item => item.1 = k && !isSidecar k with
      | none => none
      | some (_, o, ml) => some ⟨[id], o.body.length, none, o.lastModified, ml⟩ := by
  rw [rebuilt_eq hid, scan_only, h]
  exact lookup_merged items (s.scan_nodup h) ∅ (fun _ _ => rfl) k

theorem rebuilt_of_found {items : List (Key × Object × UInt16)} {o : Object} {ml : UInt16} (hid : id < s.cluster.shards.length)
    (h : s.scan id = .ok items) (hfound : (k, o, ml) ∈ items) (hside : isSidecar k = false) :
    s.rebuilt id k = some ⟨[id], o.body.length, none, o.lastModified, ml⟩ := by
  have hfind : items.find? (fun item => item.1 = k && !isSidecar k) = some (k, o, ml) := by
    cases hx : items.find? (fun item => item.1 = k && !isSidecar k) with
    | none => exact absurd (List.find?_eq_none.mp hx _ hfound) (by simp [hside])
    | some x =>
      have hkey := List.find?_some hx
      simp only [Bool.and_eq_true, decide_eq_true_eq] at hkey
      rw [List.inj_on_of_nodup_map (s.scan_nodup h) (List.mem_of_find?_eq_some hx) hfound hkey.1]
  rw [rebuilt_of_scan hid h, hfind]

theorem rebuilt_of_missing {items : List (Key × Object × UInt16)} (hid : id < s.cluster.shards.length)
    (h : s.scan id = .ok items) (hmissing : ∀ item ∈ items, item.1 = k → isSidecar k = true) : s.rebuilt id k = none := by
  have hfind : items.find? (fun item => item.1 = k && !isSidecar k) = none := by
    rw [List.find?_eq_none]
    intro item hitem hkey
    simp only [Bool.and_eq_true, decide_eq_true_eq, Bool.not_eq_true'] at hkey
    rw [hmissing item hitem hkey.1] at hkey
    exact Bool.noConfusion hkey.2
  rw [rebuilt_of_scan hid h, hfind]

/-! ## The rescan -/

/-- An entry that does not list the shard stays; if none does, so does the catalog. -/
theorem Catalog.removeAllForShard_eq {c : Catalog} (h : ∀ k e, c.get k = some e → id ∉ e.shards) :
    (c.removeAllForShard id).2 = c := by
  have hnone : ∀ e ∈ c.inner.entries, e.2.shards.contains id = false := by
    intro e he
    have hget : c.get e.1 = some e.2 := AList.mem_lookup_iff.mpr he
    simpa using h e.1 e.2 hget
  have haffected : (c.inner.filterValues fun e => e.shards.contains id).entries = [] := by
    refine List.filter_eq_nil_iff.mpr fun e he => ?_
    dsimp only
    rw [hnone e he]
    exact Bool.false_ne_true
  have hkept : (c.inner.filterValues fun e => !(e.shards.contains id && (e.without id).shards.isEmpty)).entries =
      c.inner.entries := by
    refine List.filter_eq_self.mpr fun e he => ?_
    dsimp only
    rw [hnone e he]
    rfl
  have hsame : ∀ e ∈ c.inner.entries, (⟨e.1, e.2.without id⟩ : Sigma fun _ : Key => PlacementEntry) = e := by
    intro e he
    have hshards : e.2.shards.filter (· != id) = e.2.shards := by
      refine List.filter_eq_self.mpr fun x hx => bne_iff_ne.mpr fun heq => ?_
      have := hnone e he
      rw [List.contains_eq_mem, decide_eq_false_iff_not] at this
      exact this (heq ▸ hx)
    unfold PlacementEntry.without
    rw [hshards]
  have hinner : ((c.inner.filterValues fun e => !(e.shards.contains id && (e.without id).shards.isEmpty)).mapValues
      fun _ e => e.without id) = c.inner := by
    apply AList.ext
    show List.map _ (FMap.filterValues _ _).entries = _
    rw [hkept]
    exact (List.map_congr_left hsame).trans (List.map_id _)
  unfold Catalog.removeAllForShard
  dsimp only
  rw [haffected, hinner]
  simp

/-- The entries that are left do not list the shard. -/
theorem not_mem_elsewhere {e : PlacementEntry} (h : s.elsewhere id k = some e) : id ∉ e.shards := by
  unfold Sys.elsewhere at h
  rw [Catalog.get_removeAllForShard] at h
  obtain ⟨e', -, rfl⟩ := Option.map_eq_some_iff.mp h
  simp [PlacementEntry.without]

def Sys.purged (s : Sys) (id : ShardId) : Sys := s.withCatalog (s.cluster.catalog.removeAllForShard id).2

theorem exec_rescan (hid : id < s.cluster.shards.length) :
    (rebuildCatalogForShard id).exec s =
      match (scanShard s.cluster.config.rawRefs id (s.cluster.storeRef id)).exec (s.purged id) with
      | (.error e, s2) => (.error (.store e), s2)
      | (.ok items, s2) => (.ok (s.keptOf id items).length,
          (((s.keptOf id items).forM fun item => catalogAddReplica item.1 id item.2.1.body.length item.2.2).exec s2).2) := by
  have hstore : (shardStore id).exec s = (some (s.cluster.storeRef id), s) := by
    unfold shardStore look
    rw [exec_step]
    dsimp only
    rw [if_pos hid]
  have hpurge : (catalogRemoveAllForShard id).exec s = ((s.cluster.catalog.removeAllForShard id).1, s.purged id) := rfl
  have hrefs : rawRefs.exec (s.purged id) = (s.cluster.config.rawRefs, s.purged id) := rfl
  unfold rebuildCatalogForShard
  rw [exec_bind, hstore]
  dsimp only
  rw [exec_bind, hpurge, exec_bind, hrefs, exec_bind]
  generalize (scanShard s.cluster.config.rawRefs id (s.cluster.storeRef id)).exec (s.purged id) = w
  obtain ⟨r, s2⟩ := w
  cases r with
  | error e => rfl
  | ok items =>
    dsimp only
    rw [exec_bind, exec_pure]
    rfl

/-- What the scan of the rescan returns, and the catalog and clock it leaves. -/
theorem exec_scanPurged (s : Sys) (id : ShardId) : ∃ s2, (scanShard s.cluster.config.rawRefs id (s.cluster.storeRef id)).exec (s.purged id) = (s.scan id, s2) ∧
    s2.cluster.catalog = (s.cluster.catalog.removeAllForShard id).2 ∧ s2.clock = s.clock := by
  obtain ⟨hcluster, hclock, -⟩ := scanShard_frame (s.purged id) s id s.cluster.config.rawRefs (s.cluster.storeRef id)
  obtain ⟨-, -, hsame⟩ := scanShard_frame s (s.purged id) id s.cluster.config.rawRefs (s.cluster.storeRef id)
  refine ⟨((scanShard s.cluster.config.rawRefs id (s.cluster.storeRef id)).exec (s.purged id)).2, Prod.ext (hsame rfl) rfl, ?_, hclock⟩
  rw [hcluster]
  rfl

theorem exec_rescan_failed {e : StoreError} (hid : id < s.cluster.shards.length) (h : s.scan id = .error e) :
    ((rebuildCatalogForShard id).exec s).1 = .error (.store e) ∧
      ((rebuildCatalogForShard id).exec s).2.cluster.catalog = (s.cluster.catalog.removeAllForShard id).2 := by
  obtain ⟨s2, hscan, hcatalog, -⟩ := exec_scanPurged s id
  rw [exec_rescan hid, hscan, h]
  exact ⟨rfl, hcatalog⟩

/-- After the rescan: the entries of the others, and what was found. -/
theorem exec_rescan_done {items : List (Key × Object × UInt16)} (hid : id < s.cluster.shards.length) (h : s.scan id = .ok items) :
    (∃ n, ((rebuildCatalogForShard id).exec s).1 = .ok n) ∧
    (∀ k, k ∉ (s.keptOf id items).map (·.1) → ((rebuildCatalogForShard id).exec s).2.cluster.catalog.get k = s.elsewhere id k) ∧
    ∀ i k o ml, (s.keptOf id items)[i]? = some (k, o, ml) → ((rebuildCatalogForShard id).exec s).2.cluster.catalog.get k =
      some (foundEntry id (s.elsewhere id k) o ml ((s.clock.drop i).headD 0)) := by
  obtain ⟨s2, hscan, hcatalog, hclock⟩ := exec_scanPurged s id
  obtain ⟨hother, hfound⟩ := exec_addFound id (s.keptOf id items) (keptOf_nodup (s.scan_nodup h)) s2
  rw [hcatalog] at hother hfound
  rw [hclock] at hfound
  rw [exec_rescan hid, hscan, h]
  exact ⟨⟨_, rfl⟩, hother, hfound⟩

/-! ## When it keeps -/

structure Rescannable (s : Sys) (id : ShardId) : Prop where
  /-- A shard that cannot be listed is in no entry. -/
  unlisted : ∀ e, s.scan id = .error e → ∀ k entry, s.cluster.catalog.get k = some entry → id ∉ entry.shards
  /-- What is found has a name that a rebuild takes; it is added at the time it was modified, or brings no other length of
      metadata to an entry that is not older. -/
  found : ∀ items, s.scan id = .ok items → ∀ i k o ml, (s.keptOf id items)[i]? = some (k, o, ml) → isSidecar k = false ∧
    match s.elsewhere id k with
    | none => (s.clock.drop i).headD 0 = o.lastModified
    | some e => ¬ e.updated < o.lastModified → 0 < ml → ml = e.metaLen

/-- An object that was found is merged exactly if it is such. -/
theorem merged_found_iff {o : Object} {ml : UInt16} {now : DateTime} :
    Merged id (s.elsewhere id k) (some ⟨[id], o.body.length, none, o.lastModified, ml⟩)
        (some (foundEntry id (s.elsewhere id k) o ml now)) ↔
      match s.elsewhere id k with
      | none => now = o.lastModified
      | some e => ¬ e.updated < o.lastModified → 0 < ml → ml = e.metaLen := by
  cases hels : s.elsewhere id k with
  | none =>
    simp [Merged, foundEntry, PlacementEntry.withReplica]
  | some e =>
    have hnot := not_mem_elsewhere hels
    have hentry : foundEntry id (some e) o ml now =
        { e with shards := e.shards ++ [id], metaLen := if 0 < ml then ml else e.metaLen } := by
      simp [foundEntry, PlacementEntry.withReplica, hnot]
    rw [hentry]
    constructor
    · intro h hnew hpos
      obtain ⟨f, hf, -, hkeep⟩ := h
      obtain rfl := Option.some.inj hf
      have := congrArg PlacementEntry.metaLen (hkeep hnew)
      simpa [hpos] using this
    · intro h
      refine ⟨_, rfl, rfl, fun hnew => ?_⟩
      by_cases hpos : 0 < ml
      · rw [if_pos hpos, h hnew hpos]
      · rw [if_neg hpos]

theorem mem_of_kept {items : List (Key × Object × UInt16)} {item : Key × Object × UInt16} (h : item ∈ s.keptOf id items) :
    item ∈ items := by
  unfold Sys.keptOf at h
  split at h
  · exact h
  · exact (List.mem_filter.mp h).1

/-- What is not kept is a sidecar. -/
theorem sidecar_of_not_kept {items : List (Key × Object × UInt16)} (hk : k ∉ (s.keptOf id items).map (·.1)) :
    ∀ item ∈ items, item.1 = k → isSidecar k = true := by
  intro item hitem hkey
  unfold Sys.keptOf at hk
  split at hk
  · exact absurd (List.mem_map.mpr ⟨item, hitem, hkey⟩) hk
  · by_contra hside
    refine hk (List.mem_map.mpr ⟨item, List.mem_filter.mpr ⟨hitem, ?_⟩, hkey⟩)
    rw [hkey]
    simpa using hside

theorem mem_foundEntry {elsewhere : Option PlacementEntry} {o : Object} {ml : UInt16} {now : DateTime} :
    id ∈ (foundEntry id elsewhere o ml now).shards := by
  unfold foundEntry PlacementEntry.withReplica
  dsimp only
  split
  · next h => simpa using h
  · simp

/-- A rescan that fails keeps the catalog exactly if no entry lists the shard. -/
theorem keeps_iff_of_failed {e : StoreError} (hid : id < s.cluster.shards.length) (h : s.scan id = .error e) :
    RescanKeeps s id ↔ Rescannable s id := by
  obtain ⟨hresult, hcatalog⟩ := exec_rescan_failed hid h
  constructor
  · intro hkeeps
    refine ⟨fun e' _ k entry hget hmem => ?_, fun items hitems => ?_⟩
    · have hsame := hcatalog.symm.trans (hkeeps.failed _ hresult)
      have hels : s.elsewhere id k = some entry := (congrArg (fun c : Catalog => c.get k) hsame).trans hget
      exact not_mem_elsewhere hels hmem
    · rw [h] at hitems
      exact nomatch hitems
  · intro hscan
    refine ⟨fun e' _ => ?_, fun n hn => ?_⟩
    · rw [hcatalog]
      exact Catalog.removeAllForShard_eq (hscan.unlisted e h)
    · rw [hresult] at hn
      exact nomatch hn

/-- A rescan that completes merges what it found exactly if each object can be merged. -/
theorem keeps_iff_of_done {items : List (Key × Object × UInt16)} (hid : id < s.cluster.shards.length) (h : s.scan id = .ok items) :
    RescanKeeps s id ↔ Rescannable s id := by
  obtain ⟨⟨n, hresult⟩, hother, hfound⟩ := exec_rescan_done hid h
  constructor
  · intro hkeeps
    refine ⟨fun e he => ?_, fun items' hitems i k o ml hi => ?_⟩
    · rw [h] at he
      exact nomatch he
    · obtain rfl := Except.ok.inj (h.symm.trans hitems)
      have hmerged := hkeeps.done n hresult k
      rw [hfound i k o ml hi] at hmerged
      have hmem := mem_of_kept (List.mem_of_getElem? hi)
      cases hside : isSidecar k with
      | true =>
        -- a rebuild leaves it out
        rw [rebuilt_of_missing hid h fun _ _ _ => hside] at hmerged
        have hsome : s.elsewhere id k = some (foundEntry id (s.elsewhere id k) o ml ((s.clock.drop i).headD 0)) := by
          cases hels : s.elsewhere id k <;> rw [hels] at hmerged <;> exact hmerged.symm
        exact absurd mem_foundEntry (not_mem_elsewhere hsome)
      | false =>
        rw [rebuilt_of_found hid h hmem hside, merged_found_iff] at hmerged
        exact ⟨rfl, hmerged⟩
  · intro hscan
    refine ⟨fun e he => ?_, fun _ _ k => ?_⟩
    · rw [hresult] at he
      exact nomatch he
    · by_cases hk : k ∈ (s.keptOf id items).map (·.1)
      · obtain ⟨item, hitem, rfl⟩ := List.mem_map.mp hk
        obtain ⟨i, hi⟩ := List.mem_iff_getElem?.mp hitem
        obtain ⟨hside, hadd⟩ := hscan.found items h i item.1 item.2.1 item.2.2 hi
        rw [hfound i item.1 item.2.1 item.2.2 hi, rebuilt_of_found hid h (mem_of_kept hitem) hside, merged_found_iff]
        exact hadd
      · rw [hother k hk, rebuilt_of_missing hid h (sidecar_of_not_kept hk)]
        cases s.elsewhere id k <;> rfl

/-- A rescan keeps what it should exactly of a shard that does not exist, or is rescannable. -/
theorem rescan_keeps_iff (s : Sys) (id : ShardId) :
    RescanKeeps s id ↔ (id < s.cluster.shards.length → Rescannable s id) := by
  by_cases hid : id < s.cluster.shards.length
  · cases hscan : s.scan id with
    | error e => exact (keeps_iff_of_failed hid hscan).trans ⟨fun h _ => h, fun h => h hid⟩
    | ok items => exact (keeps_iff_of_done hid hscan).trans ⟨fun h _ => h, fun h => h hid⟩
  · have hrun : (rebuildCatalogForShard id).exec s = (.error .noShards, s) := by
      unfold rebuildCatalogForShard shardStore look
      rw [exec_bind, exec_step]
      dsimp only
      rw [if_neg hid]
      rfl
    refine ⟨fun _ h => absurd h hid, fun _ => ⟨fun e _ => ?_, fun n hn => ?_⟩⟩
    · rw [hrun]
    · rw [hrun] at hn
      exact nomatch hn

/-! ## One shard that cannot be listed -/

section Sample

open Sample

/-- One object on one shard, and the next listing fails. -/
def Sample.unlistable : Sys :=
  (sys 1 (config 1 1) fun _ => Store.failing (Store.holding fresh "k" [7]) .list [broken]).withCatalog
    ((⟨∅, false⟩ : Catalog).put "k" [0] 1 none 0 0)

/-- The rescan is an error, and the object has no entry. -/
theorem a_failed_rescan_forgets : ¬ ∀ (s : Sys) (id : ShardId), RescanKeeps s id := by
  intro hall
  have hkept := (hall unlistable 0).failed (.store (.backend false)) rfl
  have hget : ((rebuildCatalogForShard 0).exec unlistable).2.cluster.catalog.get "k" = none := by decide
  rw [hkept] at hget
  exact absurd hget (by decide)

end Sample

end ObjStr.Sharded
