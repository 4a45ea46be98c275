/-
  ObjStr.Sharded.WritePaths — the three ways to write an object: `put`, `put_with_meta` without
  metadata, and `put_with_meta_from_file` with a file that holds only the payload.

  The rounds of the three are the same. What they do before and after differs:
  - only `put` drops the delete marker of the key: the other two leave it next to the object
    (`a_write_with_metadata_keeps_the_marker`).
  - only `put` tries again when the second round has failed too.
  - `put_with_meta_from_file` streams to raw shards without asking whether the cluster is
    read-only (`a_streamed_write_ignores_read_only`), and its second round passes over the
    shards that are not raw.
  `write_paths_agree_iff`: the three agree exactly when none of this shows (`AgreeWhen`).
-/

import ObjStr.Sharded.Rounds

namespace ObjStr.Sharded

open ObjStr.Lib ObjStr.Raw Proc

variable {s s' s'' : Sys} {k : Key} {p : Bytes} {up : Upload}

section Writes

variable [Crates] {refs : RawRefRegistry}

/-! ## The delete marker -/

omit [Crates] in
/-- A store's part of a delete: the metadata object of the key where there may be one, then the object. -/
def Store.deleteBoth (kind : ShardKind) (key : Key) (st : Store) : Except StoreError Unit × Store :=
  (if kind = .sidecar then (st.delete (metaSidecarPath key)).2 else st).delete key

omit [Crates] in
theorem wp_deleteBoth (x : ShardId) (key : Key) (regs : Option RawRefRegistry) (r : StoreRef) :
    (do
      cleanupSidecarMaybe r key regs x
      let o ← r.delete key
      pure (x, o) : ClusterM (ShardId × Except StoreError Unit)).wp (fun o s' _ =>
        o = (x, s.answerOf r (Store.deleteBoth ((regs.map (·.kind x)).getD .sidecar) key) (.backend false)) ∧
        s' = s.ranOn r (Store.deleteBoth ((regs.map (·.kind x)).getD .sidecar) key)) s := by
  unfold cleanupSidecarMaybe cleanupSidecar Store.deleteBoth
  rw [wp_bind]
  split
  · rw [wp_bind]
    cases r with
    | none =>
      simp only [StoreRef.delete, StoreRef.call]
      rw [wp_pure, wp_pure, wp_bind, wp_pure, wp_pure]
      exact ⟨rfl, rfl⟩
    | some st =>
      simp only [StoreRef.delete, StoreRef.call, onStore, wp_step]
      rw [wp_pure, wp_bind, wp_step, wp_pure]
      simp only [Sys.answerOf, Sys.ranOn, Function.update_self, Function.update_idem]
      exact ⟨trivial, trivial⟩
  · rw [wp_pure, wp_bind]
    cases r with
    | none =>
      simp only [StoreRef.delete, StoreRef.call]
      rw [wp_pure, wp_pure]
      exact ⟨rfl, rfl⟩
    | some st =>
      simp only [StoreRef.delete, StoreRef.call, onStore, wp_step]
      rw [wp_pure]
      exact ⟨rfl, rfl⟩

omit [Crates] in
/-- Removing shards from an entry: none of them is listed after it. -/
theorem wp_unlist (key : Key) (ids : List ShardId) :
    (ids.forM fun id => catalogRemoveShard key id).wp (fun _ s' _ => s'.stores = s.stores ∧ (ids = [] → s' = s) ∧
      (s.cluster.catalog.get key = none → s'.cluster.catalog.get key = none) ∧
      ∀ e, s'.cluster.catalog.get key = some e → ∀ y ∈ ids, y ∉ e.shards) s := by
  refine wp_forM (fun done s' _ => s'.stores = s.stores ∧ (done = [] → s' = s) ∧
    (s.cluster.catalog.get key = none → s'.cluster.catalog.get key = none) ∧
    ∀ e, s'.cluster.catalog.get key = some e → ∀ y ∈ done, y ∉ e.shards)
    ⟨rfl, fun _ => rfl, fun h => h, by simp⟩ ?_ (fun _ _ h => h)
  intro done x rest _ s1 t h1
  obtain ⟨hst, -, hnone, hun⟩ := h1
  rw [catalogRemoveShard, wp_step]
  dsimp only [Sys.withCatalog]
  cases hg : s1.cluster.catalog.get key with
  | none =>
    rw [Catalog.removeShard_none _ _ hg]
    exact ⟨hst, by simp, fun _ => hg, fun e he => by rw [hg] at he; cases he⟩
  | some e =>
    rw [Catalog.get_removeShard _ _ hg]
    refine ⟨hst, by simp, fun h => ?_, fun e' he' y hy => ?_⟩
    · rw [hnone h] at hg
      cases hg
    · split at he'
      · cases he'
      · cases he'
        unfold PlacementEntry.without
        simp only [List.mem_filter, bne_iff_ne, ne_eq, not_and, not_not]
        intro hmem
        rcases List.mem_append.mp hy with hy | hy
        · exact absurd hmem (hun e hg y hy)
        · exact List.mem_singleton.mp hy

omit [Crates] in
def Sys.deleteAnswer (s : Sys) (key : Key) (x : ShardId) : Except StoreError Unit :=
  s.answerOf (s.cluster.storeRef x) (Store.deleteBoth ((s.cluster.config.rawRefs.map (·.kind x)).getD .sidecar) key) (.backend false)

omit [Crates] in
/-- An entry stays when there is none, or when no shard deletes the object and one fails to. -/
def Sys.entryStays (s : Sys) (key : Key) (targets : List ShardId) : Prop :=
  s.cluster.catalog.get key = none ∨ targets ≠ [] ∧ ∀ x ∈ targets, gone (s.deleteAnswer key x) = false

omit [Crates] in
theorem storeRef_injective {c : Cluster} {x y : ShardId} {st : StoreId} (hx : c.storeRef x = some st)
    (hy : c.storeRef y = some st) : x = y :=
  c.config.storeOf.injective ((Cluster.storeRef_eq_some hx).1.symm.trans (Cluster.storeRef_eq_some hy).1)

omit [Crates] in
theorem wp_deleteRaw_exact (key : Key) (hnd : (s.cluster.deleteTargets (s.cluster.catalog.get key)).Nodup) :
    (deleteRaw key).wp (fun _ s' _ =>
      (∃ mid, RanAll (s.cluster.deleteTargets (s.cluster.catalog.get key)) s.cluster.storeRef
        (fun x => Store.deleteBoth ((s.cluster.config.rawRefs.map (·.kind x)).getD .sidecar) key) s mid ∧
        s'.stores = mid.stores) ∧
      (s'.cluster.catalog.get key = s.cluster.catalog.get key ↔
        s.entryStays key (s.cluster.deleteTargets (s.cluster.catalog.get key)))) s := by
  set targets := s.cluster.deleteTargets (s.cluster.catalog.get key) with htargets
  unfold deleteRaw
  rw [wp_bind, catalogGet, wp_look, wp_bind, wp_look, wp_bind, rawRefs, wp_look, wp_bind, List.map_map, ← htargets]
  refine wp_mono (wp_eachStore hnd s.cluster.storeRef
    (fun x => Store.deleteBoth ((s.cluster.config.rawRefs.map (·.kind x)).getD .sidecar) key) (fun _ => .backend false)
    (fun x _ y _ st hx hy => storeRef_injective hx hy) fun x _ s1 h1 => ?_) fun os mid t h => ?_
  · simp only [Function.comp_apply]
    exact wp_deleteBoth x key s.cluster.config.rawRefs (s.cluster.storeRef x)
  obtain ⟨hos, hran⟩ := h
  have hans : os = targets.map fun x => (x, s.deleteAnswer key x) := hos
  have hget : mid.cluster.catalog.get key = s.cluster.catalog.get key := by rw [hran.cluster]
  unfold Sys.entryStays
  by_cases hall : ∀ x ∈ targets, gone (s.deleteAnswer key x) = true
  · have hnil : (os.filter fun o => !gone o.2) = [] := by
      rw [hans, List.filter_eq_nil_iff]
      intro o ho
      obtain ⟨x, hx, rfl⟩ := List.mem_map.mp ho
      simp [hall x hx]
    rw [hnil]
    dsimp only [List.getLast?_nil, Option.bind_none]
    rw [wp_bind, catalogRemove, wp_step, wp_pure]
    refine ⟨⟨mid, hran, rfl⟩, ?_⟩
    dsimp only [Sys.withCatalog]
    rw [Catalog.get_remove, if_pos rfl]
    constructor
    · exact fun h => .inl h.symm
    · rintro (h | ⟨hne, hkeep⟩)
      · exact h.symm
      · obtain ⟨x, hx⟩ := List.exists_mem_of_ne_nil targets hne
        exact absurd (hall x hx) (by rw [hkeep x hx]; decide)
  · obtain ⟨x, hx, hkept⟩ : ∃ x ∈ targets, gone (s.deleteAnswer key x) = false := by simpa using hall
    have hne : targets ≠ [] := List.ne_nil_of_mem hx
    have hsucc : ((os.filter fun o => gone o.2).map (·.1)) = targets.filter fun y => gone (s.deleteAnswer key y) := by
      rw [hans, List.filter_map, List.map_map]
      exact List.map_id' _
    obtain ⟨e, hlast⟩ : ∃ e, ((os.filter fun o => !gone o.2).getLast?.bind fun o => failure o.2) = some e := by
      have hmem : (x, s.deleteAnswer key x) ∈ os.filter fun o => !gone o.2 := by
        rw [List.mem_filter, hans]
        exact ⟨List.mem_map_of_mem hx, by simp [hkept]⟩
      rw [List.getLast?_eq_some_getLast (List.ne_nil_of_mem hmem), Option.bind_some]
      have hlast := (List.mem_filter.mp (List.getLast_mem (List.ne_nil_of_mem hmem))).2
      revert hlast
      generalize (List.getLast _ _ : ShardId × Except StoreError Unit).2 = r
      cases r with
      | ok u => exact fun h => absurd h (by simp [gone])
      | error e => exact fun _ => ⟨e, rfl⟩
    rw [hlast, hsucc]
    dsimp only
    rw [wp_bind, wp_look, wp_bind]
    refine wp_mono (wp_unlist key _) fun _ s2 t2 h2 => ?_
    obtain ⟨hst, hsame, hnone, hun⟩ := h2
    have hend : (∃ mid, RanAll targets s.cluster.storeRef
        (fun x => Store.deleteBoth ((s.cluster.config.rawRefs.map (·.kind x)).getD .sidecar) key) s mid ∧
        s2.stores = mid.stores) ∧ (s2.cluster.catalog.get key = s.cluster.catalog.get key ↔
        s.cluster.catalog.get key = none ∨ targets ≠ [] ∧ ∀ x ∈ targets, gone (s.deleteAnswer key x) = false) := by
      refine ⟨⟨mid, hran, hst⟩, ?_⟩
      cases hg : s.cluster.catalog.get key with
      | none => exact ⟨fun _ => .inl rfl, fun _ => hnone (hget.trans hg)⟩
      | some e =>
        constructor
        · intro hkeep
          refine .inr ⟨hne, fun y hy => ?_⟩
          by_contra hgone
          have hy' : y ∈ targets.filter fun y => gone (s.deleteAnswer key y) := List.mem_filter.mpr ⟨hy, by simpa using hgone⟩
          refine hun e hkeep y hy' ?_
          rw [htargets, hg] at hy
          exact (List.mem_filter.mp (List.mem_filter.mp hy).1).1
        · intro hkeep
          have hnil : (targets.filter fun y => gone (s.deleteAnswer key y)) = [] := by
            rw [List.filter_eq_nil_iff]
            intro y hy
            rw [(hkeep.resolve_left (by simp)).2 y hy]
            decide
          rw [hsame hnil, hget, hg]
    split
    · rw [wp_pure]
      exact hend
    · rw [wp_pure]
      exact hend

omit [Crates] in
/-- Two stores treat the deletes of a key alike. -/
structure Store.Alike (key : Key) (st st' : Store) : Prop where
  outcomes : st'.outcomes .delete = st.outcomes .delete
  strict : st'.strictDelete = st.strictDelete
  lookup : st'.objects.lookup key = st.objects.lookup key

variable {key : Key}

omit [Crates] in
theorem Store.Alike.refl (st : Store) : st.Alike key st := ⟨rfl, rfl, rfl⟩

omit [Crates] in
theorem Store.alike_put (st : Store) (h : key ≠ k) : st.Alike key (st.put k up).2 := by
  refine ⟨by rw [outcomes_put, if_neg (by decide)], ?_, lookup_put_ne st k up h⟩
  unfold put
  cases st.outcome .put <;> rfl

omit [Crates] in
theorem Store.Alike.delete {st st' : Store} (h : st.Alike key st') :
    (st'.delete key).1 = (st.delete key).1 ∧
      (st'.delete key).2.objects.lookup key = (st.delete key).2.objects.lookup key := by
  have ho : st'.outcome .delete = st.outcome .delete := by rw [outcome, outcome, h.outcomes]
  unfold Store.delete
  rw [ho, h.strict, h.lookup]
  cases st.outcome .delete with
  | some e => exact ⟨rfl, h.lookup⟩
  | none =>
    dsimp only
    split
    · exact ⟨rfl, h.lookup⟩
    · exact ⟨rfl, by rw [FMap.lookup_erase, FMap.lookup_erase]; simp⟩

omit [Crates] in
/-- The delete of another key before it. -/
theorem Store.Alike.deleteOther {st st' : Store} {other : Key} (h : st.Alike key st') (hne : key ≠ other) :
    (st.delete other).2.Alike key (st'.delete other).2 := by
  have hstrict : ∀ s : Store, (s.delete other).2.strictDelete = s.strictDelete := by
    intro s
    unfold Store.delete
    cases s.outcome .delete with
    | some e => rfl
    | none =>
      dsimp only
      split <;> rfl
  have hlookup : ∀ s : Store, (s.delete other).2.objects.lookup key = s.objects.lookup key := by
    intro s
    rcases s.delete_cases other with ⟨e, -, ho, -⟩ | ⟨-, ho⟩
    · rw [ho]
    · rw [ho, FMap.lookup_erase, if_neg hne]
  refine ⟨?_, by rw [hstrict, hstrict, h.strict], by rw [hlookup, hlookup, h.lookup]⟩
  rw [outcomes_delete, outcomes_delete, if_pos rfl, if_pos rfl, h.outcomes]

omit [Crates] in
theorem Store.Alike.deleteBoth {st st' : Store} (h : st.Alike key st') (kind : ShardKind) :
    (st'.deleteBoth kind key).1 = (st.deleteBoth kind key).1 ∧
      (st'.deleteBoth kind key).2.objects.lookup key = (st.deleteBoth kind key).2.objects.lookup key := by
  unfold Store.deleteBoth
  split
  · exact (h.deleteOther (sidecar_ne key).symm).delete
  · exact h.delete

omit [Crates] in
/-- The delete of a key on these shards leaves its copies and its entry. -/
structure Sys.Stays (s : Sys) (key : Key) (targets : List ShardId) : Prop where
  copies : ∀ x ∈ targets, ∀ st, s.cluster.storeRef x = some st →
    ((s.stores st).deleteBoth ((s.cluster.config.rawRefs.map (·.kind x)).getD .sidecar) key).2.objects.lookup key =
      (s.stores st).objects.lookup key
  entry : s.entryStays key targets

omit [Crates] in
theorem Sys.stays_congr (hrefs : SameRefs s.cluster s'.cluster) (hst : ∀ st, (s.stores st).Alike key (s'.stores st))
    (hget : s'.cluster.catalog.get key = s.cluster.catalog.get key) {targets : List ShardId} :
    s'.Stays key targets ↔ s.Stays key targets := by
  have hans : ∀ x, s'.deleteAnswer key x = s.deleteAnswer key x := by
    intro x
    unfold deleteAnswer answerOf
    rw [hrefs.storeRef, hrefs.config]
    cases s.cluster.storeRef x with
    | none => rfl
    | some st => exact ((hst st).deleteBoth _).1
  have hentry : s'.entryStays key targets ↔ s.entryStays key targets := by
    unfold entryStays
    rw [hget]
    simp only [hans]
  constructor
  · intro h
    refine ⟨fun x hx st hr => ?_, hentry.mp h.entry⟩
    have h1 := h.copies x hx st (by rw [hrefs.storeRef, hr])
    rwa [hrefs.config, ((hst st).deleteBoth _).2, (hst st).lookup] at h1
  · intro h
    refine ⟨fun x hx st hr => ?_, hentry.mpr h.entry⟩
    rw [hrefs.config, ((hst st).deleteBoth _).2, (hst st).lookup]
    exact h.copies x hx st (by rw [← hrefs.storeRef, hr])

/-! ## The three of them -/

omit [Crates] in
/-- The copies of an object and its entry are those of another state. -/
structure SameAt (key : Key) (s s' : Sys) : Prop where
  copies : ∀ st, (s'.stores st).objects.lookup key = (s.stores st).objects.lookup key
  entry : s'.cluster.catalog.get key = s.cluster.catalog.get key

omit [Crates] in
theorem deleteRaw_stays (hnd : (s.cluster.deleteTargets (s.cluster.catalog.get key)).Nodup) :
    SameAt key s ((deleteRaw key).exec s).2 ↔ s.Stays key (s.cluster.deleteTargets (s.cluster.catalog.get key)) := by
  obtain ⟨⟨mid, hran, hst⟩, hentry⟩ := wp_deleteRaw_exact key hnd
  constructor
  · intro h
    refine ⟨fun x hx st hr => ?_, hentry.mp h.entry⟩
    rw [← hran.ran x hx st hr, ← hst]
    exact h.copies st
  · intro h
    refine ⟨fun st => ?_, hentry.mpr h.entry⟩
    rw [hst]
    by_cases hx : ∃ x ∈ s.cluster.deleteTargets (s.cluster.catalog.get key), s.cluster.storeRef x = some st
    · obtain ⟨x, hx, hr⟩ := hx
      rw [hran.ran x hx st hr]
      exact h.copies x hx st hr
    · rw [hran.kept st fun x hm hr => hx ⟨x, hm, hr⟩]

def holds (k : Key) (p : Bytes) (st : Store) : Prop := ∃ o, st.objects.lookup k = some o ∧ o.body = p

/-- The delete marker of a key: its objects, and its entry, which is recorded under the marker's name and
    removed under its path. -/
structure SameMarker (k : Key) (s s' : Sys) : Prop where
  marker : SameAt (Path.fromStr (deleteMarkerKey k)) s s'
  recorded : s'.cluster.catalog.get (deleteMarkerKey k) = s.cluster.catalog.get (deleteMarkerKey k)

structure SameWrite (k : Key) (p : Bytes) (s s' : Sys) : Prop where
  copies : ∀ st, holds k p (s.stores st) ↔ holds k p (s'.stores st)
  entry : (s.cluster.catalog.get k).map (fun e => { e with updated := 0 }) =
    (s'.cluster.catalog.get k).map fun e => { e with updated := 0 }
  health : ∀ x, s.cluster.healthOf x = s'.cluster.healthOf x
  marker : SameMarker k s s'

/-- The three writes of a payload are accepted or rejected alike, and leave the same. -/
structure WritesAgree (refs : RawRefRegistry) (k : Key) (p : Bytes) (s : Sys) : Prop where
  withMeta : ((put k p).exec s).1 = .ok () ↔ ((putWithMeta refs k p []).exec s).1 = .ok ()
  fromFile : ((put k p).exec s).1 = .ok () ↔ ((putWithMetaFromFile refs k p 0).exec s).1 = .ok ()
  sameWithMeta : ((put k p).exec s).1 = .ok () → SameWrite k p ((put k p).exec s).2 ((putWithMeta refs k p []).exec s).2
  sameFromFile : ((put k p).exec s).1 = .ok () →
    SameWrite k p ((put k p).exec s).2 ((putWithMetaFromFile refs k p 0).exec s).2

/-- The shards that `put` would delete the marker from after its write. -/
def Sys.markerShards (s : Sys) (k : Key) : List ShardId :=
  let targets := s.cluster.selectTargets k
  (s.cluster.offline (if targets.filter (fun x => s.accepts x) = [] then targets else [])).deleteTargets
    (s.cluster.catalog.get (Path.fromStr (deleteMarkerKey k)))

/-- When the three writes agree, by what the cluster is and which shards accept a write. -/
structure AgreeWhen (refs : RawRefRegistry) (k : Key) (s : Sys) : Prop where
  /-- A read-only cluster: a file that is streamed is on too few shards. -/
  guarded : s.cluster.config.readOnly = true → s.cluster.streams refs k = true →
    (s.takers (fun x => refs.kind x = .raw) k).length < s.cluster.config.minWrites
  /-- A write that fails everywhere twice finds too few shards after that too. -/
  failed : s.cluster.config.readOnly = false → s.takers every k = [] →
    (s.lateTakers k).length < s.cluster.config.minWrites
  /-- What a streamed write passes over does not take it. -/
  streamed : s.cluster.config.readOnly = false → s.cluster.streams refs k = true →
    s.cluster.config.minWrites ≤ (s.takers every k).length → ∀ x ∈ s.takers every k, refs.kind x = .raw
  /-- There is no marker that `put` could delete. -/
  marker : s.cluster.config.readOnly = false → s.cluster.config.minWrites ≤ (s.takers every k).length →
    s.Stays (Path.fromStr (deleteMarkerKey k)) (s.markerShards k)

/-- The shards a streamed write is taken by. -/
theorem takers_raw (hraw : s.cluster.streams refs k = true) :
    s.takers (fun x => refs.kind x = .raw) k = (s.takers every k).filter fun x => refs.kind x = .raw := by
  have hall : ∀ x ∈ s.cluster.selectTargets k, decide (refs.kind x = .raw) = true := List.all_eq_true.mp hraw
  unfold Sys.takers Cluster.takers
  split
  · rw [filter_every, List.filter_filter, List.filter_filter]
    exact List.filter_congr fun x _ => Bool.and_comm _ _
  · exact (List.filter_eq_self.mpr fun x hx => hall x (List.mem_filter.mp hx).1).symm

/-- What the two rounds leave of the keys that are not written. -/
theorem alike_wrote (keep : ShardId → Bool) (hne : key ≠ k) (st : StoreId) :
    (s.stores st).Alike key ((s.wrote keep k up (s.cluster.selectTargets k)).2.stores st) := by
  have hw := twoRounds_wrote s k up keep (s.cluster.selectTargets k)
  rw [hw.stores]
  dsimp only [Sys.written]
  split
  · exact Store.alike_put _ hne
  · exact .refl _

omit [Crates] in
theorem Cluster.available_offline_nil (c : Cluster) (x : ShardId) : (c.offline []).available x = c.available x := by
  unfold available
  rw [healthOf_offline]
  cases c.healthOf x <;> rfl

omit [Crates] in
theorem Cluster.deleteTargets_congr {c c' : Cluster} (hlen : c'.shards.length = c.shards.length)
    (h : ∀ x, c'.available x = c.available x) (e : Option PlacementEntry) : c'.deleteTargets e = c.deleteTargets e := by
  unfold deleteTargets
  rw [hlen]
  exact List.filter_congr fun x _ => h x

/-- After the write `put` deletes the marker from these shards. -/
theorem deleteTargets_record (placed : List ShardId) :
    (((s.wrote every k { body := p } (s.cluster.selectTargets k)).2.record k p placed).cluster.deleteTargets
      (((s.wrote every k { body := p } (s.cluster.selectTargets k)).2.record k p placed).cluster.catalog.get
        (Path.fromStr (deleteMarkerKey k)))) = s.markerShards k := by
  have hw := twoRounds_wrote s k { body := p } every (s.cluster.selectTargets k)
  have hget : ((s.wrote every k { body := p } (s.cluster.selectTargets k)).2.record k p placed).cluster.catalog.get
      (Path.fromStr (deleteMarkerKey k)) = s.cluster.catalog.get (Path.fromStr (deleteMarkerKey k)) := by
    dsimp only [Sys.record, Sys.withCatalog]
    rw [Catalog.get_put, if_neg (marker_ne k), hw.catalog]
  rw [hget]
  unfold Sys.markerShards
  refine Cluster.deleteTargets_congr ?_ (fun x => ?_) _
  · rw [Cluster.length_offline]
    exact hw.refs.length
  · show (s.wrote every k { body := p } (s.cluster.selectTargets k)).2.cluster.available x = _
    by_cases htook : (s.cluster.selectTargets k).filter (fun x => s.accepts x) = []
    · rw [if_pos htook]
      unfold Cluster.available
      rw [hw.offline htook]
    · rw [if_neg htook, hw.available htook, Cluster.available_offline_nil]

/-- The marker of a key after `put` has written the object: it is the one before, or it is not, exactly when
    the delete leaves it. -/
theorem marker_after_put (hnd : (s.markerShards k).Nodup) (placed : List ShardId) :
    SameMarker k ((removeDeleteMarker k).exec ((s.wrote every k { body := p } (s.cluster.selectTargets k)).2.record k p placed)).2
      ((s.wrote every k { body := p } (s.cluster.selectTargets k)).2.record k p placed) ↔
      s.Stays (Path.fromStr (deleteMarkerKey k)) (s.markerShards k) := by
  have hw := twoRounds_wrote s k { body := p } every (s.cluster.selectTargets k)
  have htargets := deleteTargets_record (s := s) (k := k) (p := p) placed
  set s3 := (s.wrote every k { body := p } (s.cluster.selectTargets k)).2.record k p placed with hs3
  have hget : ∀ key, key ≠ k → s3.cluster.catalog.get key = s.cluster.catalog.get key := by
    intro key hne
    rw [hs3]
    dsimp only [Sys.record, Sys.withCatalog]
    rw [Catalog.get_put, if_neg hne, hw.catalog]
  have hrefs : SameRefs s.cluster s3.cluster := ⟨hw.refs.config, hw.refs.attached⟩
  have hstays : s3.Stays (Path.fromStr (deleteMarkerKey k)) (s.markerShards k) ↔
      s.Stays (Path.fromStr (deleteMarkerKey k)) (s.markerShards k) :=
    Sys.stays_congr hrefs (fun st => alike_wrote every (marker_ne k) st) (hget _ (marker_ne k))
  have hexact : SameAt (Path.fromStr (deleteMarkerKey k)) s3 ((removeDeleteMarker k).exec s3).2 ↔
      s3.Stays (Path.fromStr (deleteMarkerKey k)) (s.markerShards k) := by
    rw [← htargets]
    exact deleteRaw_stays (by rw [htargets]; exact hnd)
  rw [← hstays, ← hexact]
  constructor
  · intro h
    exact ⟨fun st => (h.marker.copies st).symm, h.marker.entry.symm⟩
  · intro h
    refine ⟨⟨fun st => (h.copies st).symm, h.entry.symm⟩, ?_⟩
    by_cases hk : deleteMarkerKey k = Path.fromStr (deleteMarkerKey k)
    · rw [hk]
      exact h.entry.symm
    · have hd : DeletedRaw (Path.fromStr (deleteMarkerKey k)) s3 _ ((removeDeleteMarker k).exec s3).2 _ :=
        wp_deleteRaw (s := s3) _
      exact (hd.catalog _ hk).symm

omit [Crates] in
/-- The delete of the marker touches neither the object nor its entry nor any shard. -/
theorem removeDeleteMarker_frame (s : Sys) (k : Key) :
    (∀ st, ((((removeDeleteMarker k).exec s).2).stores st).objects.lookup k = (s.stores st).objects.lookup k) ∧
      ((removeDeleteMarker k).exec s).2.cluster.catalog.get k = s.cluster.catalog.get k ∧
      ((removeDeleteMarker k).exec s).2.cluster.shards = s.cluster.shards := by
  have hd : DeletedRaw (Path.fromStr (deleteMarkerKey k)) s _ ((removeDeleteMarker k).exec s).2 _ :=
    wp_deleteRaw (s := s) _
  have hkeys : k ∉ [Path.fromStr (deleteMarkerKey k), metaSidecarPath (Path.fromStr (deleteMarkerKey k))] := by
    simp only [List.mem_cons, List.not_mem_nil, or_false, not_or]
    exact ⟨(marker_ne k).symm, (marker_sidecar_ne k).symm⟩
  exact ⟨fun st => hd.deleted.others st k hkeys, hd.catalog k (marker_ne k).symm, hd.deleted.shards⟩

omit [Crates] in
/-- The delete of the marker is all that `put` does more. -/
theorem sameWrite_of_marker {s3 : Sys} (h : SameMarker k ((removeDeleteMarker k).exec s3).2 s3) :
    SameWrite k p ((removeDeleteMarker k).exec s3).2 s3 := by
  obtain ⟨hcopies, hentry, hshards⟩ := removeDeleteMarker_frame s3 k
  refine ⟨fun st => ?_, by rw [hentry], fun x => ?_, h⟩
  · unfold holds
    rw [hcopies]
  · unfold Cluster.healthOf
    rw [hshards]

omit [Crates] in
/-- A shard that does not accept the write keeps what it has, and no other key is touched. -/
theorem lookup_written {ids : List ShardId} {st : StoreId}
    (h : key ≠ k ∨ ∀ x ∈ ids, s.cluster.storeRef x = some st → s.accepts x = false) :
    ((s.written ids k up).stores st).objects.lookup key = (s.stores st).objects.lookup key := by
  unfold Sys.written
  dsimp only
  split
  · next hm =>
    obtain ⟨x, hx, hr⟩ := List.mem_map.mp hm
    rcases h with hne | hrej
    · exact Store.lookup_put_ne _ _ _ hne
    · have hrej := hrej x hx hr
      unfold Sys.accepts Sys.answer at hrej
      rw [hr] at hrej
      dsimp only at hrej
      rw [Store.objects_put]
      cases ho : (s.stores st).outcome .put with
      | none => rw [ho] at hrej; cases hrej
      | some e => rfl
  · rfl

/-- When all that take a write are raw shards, the shards that a streamed write passes over make no difference. -/
theorem streamed_same (up : Upload) {s1 s2 : Sys}
    (hall : ∀ x ∈ s.takers every k, refs.kind x = .raw)
    (h1 : s1 = (s.wrote every k up (s.cluster.selectTargets k)).2)
    (h2 : s2 = (s.wrote (fun x => refs.kind x = .raw) k up (s.cluster.selectTargets k)).2) :
    (∀ key st, (s1.stores st).objects.lookup key = (s2.stores st).objects.lookup key) ∧ s1.cluster = s2.cluster ∧
      s1.clock = s2.clock := by
  subst h1 h2
  have hw := (twoRounds_wrote s k up every (s.cluster.selectTargets k)).placed
  change (s.wrote every k up (s.cluster.selectTargets k)).1 = s.takers every k at hw
  rw [← hw] at hall
  revert hall
  unfold Sys.wrote
  dsimp only
  by_cases htook : (s.cluster.selectTargets k).filter (fun x => s.accepts x) = []
  · rw [if_pos htook, if_pos htook]
    set m := s.firstRound k up (s.cluster.selectTargets k)
    intro hall
    refine ⟨fun key st => ?_, rfl, rfl⟩
    rw [filter_every] at hall ⊢
    by_cases hm : some st ∈ (m.1.filter fun x => decide (refs.kind x = .raw)).map m.2.cluster.storeRef
    · have hm' : some st ∈ m.1.map m.2.cluster.storeRef := by
        obtain ⟨x, hx, hr⟩ := List.mem_map.mp hm
        exact List.mem_map.mpr ⟨x, (List.mem_filter.mp hx).1, hr⟩
      unfold Sys.written
      dsimp only
      rw [if_pos hm, if_pos hm']
    · have hright : (m.2.written (m.1.filter fun x => decide (refs.kind x = .raw)) k up).stores st = m.2.stores st := by
        unfold Sys.written
        dsimp only
        rw [if_neg hm]
      rw [hright]
      refine lookup_written (.inr fun x hx hr => ?_)
      by_contra hacc
      have hkind := hall x (List.mem_filter.mpr ⟨hx, by simpa using hacc⟩)
      exact hm (List.mem_map.mpr ⟨x, List.mem_filter.mpr ⟨hx, by simpa using hkind⟩, hr⟩)
  · rw [if_neg htook, if_neg htook]
    exact fun _ => ⟨fun _ _ => rfl, rfl, rfl⟩

theorem readOnly_rejects (refs : RawRefRegistry) (k : Key) (p : Bytes) (hro : s.cluster.config.readOnly = true) :
    ((put k p).exec s).1 = .error .readOnly ∧ ((putWithMeta refs k p []).exec s).1 = .error .readOnly := by
  have hread : readOnly.exec s = (s.cluster.config.readOnly, s) := rfl
  constructor
  · unfold put
    rw [exec_bind, hread, hro]
    rfl
  · unfold putWithMeta
    rw [exec_bind, hread, hro]
    rfl

/-- The end of a write with metadata tells whether enough shards took it. -/
theorem FinishedAs.ok_iff {w : List ShardId × Sys} {r : Except Error Unit × Sys} (h : FinishedAs k p w r) :
    r.1 = .ok () ↔ w.2.cluster.config.minWrites ≤ w.1.length := by
  constructor
  · intro hok
    by_contra hn
    obtain ⟨e, he⟩ := h.few (Nat.lt_of_not_le hn)
    rw [hok] at he
    cases he
  · exact fun hle => congrArg Prod.fst (h.enough hle)

theorem PutAs.ok_iff {r : Except Error Unit × Sys} (h : PutAs s k p r) :
    r.1 = .ok () ↔ s.cluster.config.minWrites ≤ (s.takers every k).length ∨
      s.takers every k = [] ∧ s.cluster.config.minWrites ≤ (s.lateTakers k).length := by
  constructor
  · intro hok
    by_contra hn
    obtain ⟨hfew, hlate⟩ := not_or.mp hn
    have hfew := Nat.lt_of_not_le hfew
    obtain ⟨e, he⟩ : ∃ e, r.1 = .error e := by
      by_cases hnil : s.takers every k = []
      · exact h.never hnil (Nat.lt_of_not_le fun hle => hlate ⟨hnil, hle⟩)
      · exact h.few hnil hfew
    rw [hok] at he
    cases he
  · rintro (hle | ⟨hnil, hle⟩)
    · exact congrArg Prod.fst (h.enough hle)
    · exact h.late hnil hle

theorem wrote_placed (keep : ShardId → Bool) :
    (s.wrote keep k { body := p } (s.cluster.selectTargets k)).1 = s.takers keep k := (twoRounds_wrote s _ _ keep _).placed

theorem wrote_config (keep : ShardId → Bool) :
    (s.wrote keep k up (s.cluster.selectTargets k)).2.cluster.config = s.cluster.config := (twoRounds_wrote s _ _ keep _).refs.config

theorem putWithMeta_ok_iff (hr : refs.Matches s.cluster) (hro : s.cluster.config.readOnly = false) :
    ((putWithMeta refs k p []).exec s).1 = .ok () ↔ s.cluster.config.minWrites ≤ (s.takers every k).length := by
  rw [(finishedAs_putWithMeta hr hro).ok_iff, wrote_config, wrote_placed]

theorem putWithMetaFromFile_ok_iff (hr : refs.Matches s.cluster) (hraw : s.cluster.streams refs k = true) :
    ((putWithMetaFromFile refs k p 0).exec s).1 = .ok () ↔
      s.cluster.config.minWrites ≤ (s.takers (fun x => refs.kind x = .raw) k).length := by
  rw [(finishedAs_putWithMetaFromFile hr hraw).ok_iff, wrote_config, wrote_placed]

/-- The entry that is recorded lists the shards that took the write. -/
theorem entry_record (placed : List ShardId) :
    (s.record k p placed).cluster.catalog.get k = some ⟨placed, p.length, some (crc32c p), s.now, 0⟩ := by
  simp [Sys.record, Sys.withCatalog]

/-- What `put` leaves when enough shards took the object, and what the writes with metadata do. -/
theorem exec_put_enough (refs : RawRefRegistry) (p : Bytes) (hro : s.cluster.config.readOnly = false) (hle : s.cluster.config.minWrites ≤ (s.takers every k).length) :
    ∃ s3, s3 = (s.wrote every k { body := p } (s.cluster.selectTargets k)).2.record k p (s.takers every k) ∧
      (put k p).exec s = (.ok (), ((removeDeleteMarker k).exec s3).2) ∧
      (refs.Matches s.cluster → (putWithMeta refs k p []).exec s = (.ok (), s3)) := by
  refine ⟨_, rfl, (putAs_put hro).enough hle, fun hr => ?_⟩
  have h1 := (finishedAs_putWithMeta (p := p) hr hro).enough (by rw [wrote_config, wrote_placed]; exact hle)
  rwa [wrote_placed] at h1

theorem exec_fromFile_enough (hr : refs.Matches s.cluster) (hraw : s.cluster.streams refs k = true)
    (hle : s.cluster.config.minWrites ≤ (s.takers (fun x => refs.kind x = .raw) k).length) :
    ∃ s4, s4 = (s.wrote (fun x => refs.kind x = .raw) k { body := p } (s.cluster.selectTargets k)).2.record k p
        (s.takers (fun x => refs.kind x = .raw) k) ∧
      (putWithMetaFromFile refs k p 0).exec s = (.ok (), s4) := by
  refine ⟨_, rfl, ?_⟩
  have h1 := (finishedAs_putWithMetaFromFile (p := p) hr hraw).enough (by rw [wrote_config, wrote_placed]; exact hle)
  rwa [wrote_placed] at h1

theorem nodup_markerShards
    (hnd : ∀ e, s.cluster.catalog.get (Path.fromStr (deleteMarkerKey k)) = some e → e.shards.Nodup) :
    (s.markerShards k).Nodup := by
  unfold Sys.markerShards Cluster.deleteTargets
  refine List.Nodup.filter _ ?_
  cases hg : s.cluster.catalog.get (Path.fromStr (deleteMarkerKey k)) with
  | none => exact List.nodup_range
  | some e => exact (hnd e hg).filter _

/-- If the three writes agree, then none of their differences shows. -/
theorem agreeWhen_of_agree (hr : refs.Matches s.cluster) (hnd : (s.markerShards k).Nodup)
    (h : WritesAgree refs k p s) : AgreeWhen refs k s where
  guarded hro hraw := by
    by_contra hn
    have h1 := h.fromFile.mpr ((putWithMetaFromFile_ok_iff hr hraw).mpr (Nat.le_of_not_lt hn))
    rw [(readOnly_rejects refs _ _ hro).1] at h1
    cases h1
  failed hro hnil := by
    by_contra hn
    have h1 := h.withMeta.mp ((putAs_put hro).late hnil (Nat.le_of_not_lt hn))
    rw [putWithMeta_ok_iff hr hro, hnil] at h1
    exact absurd (s.cluster.config.one_le_minWrites.trans h1) (by simp)
  streamed hro hraw hle := by
    obtain ⟨s3, hs3, hput, -⟩ := exec_put_enough refs p hro hle
    have hok : ((put k p).exec s).1 = .ok () := by rw [hput]
    obtain ⟨s4, hs4, hfile⟩ := exec_fromFile_enough (p := p) hr hraw ((putWithMetaFromFile_ok_iff hr hraw).mp (h.fromFile.mp hok))
    have hentry := (h.sameFromFile hok).entry
    have h3 : s3.cluster.catalog.get k = _ := hs3 ▸ entry_record _
    have h4 : s4.cluster.catalog.get k = _ := hs4 ▸ entry_record _
    rw [hput, hfile] at hentry
    dsimp only at hentry
    rw [(removeDeleteMarker_frame s3 k).2.1, h3, h4] at hentry
    simp only [Option.map_some, Option.some.injEq, PlacementEntry.mk.injEq] at hentry
    have hsame := hentry.1
    rw [takers_raw hraw] at hsame
    intro x hx
    rw [hsame] at hx
    simpa using (List.mem_filter.mp hx).2
  marker hro hle := by
    obtain ⟨s3, rfl, hput, hmeta⟩ := exec_put_enough refs p hro hle
    have hok : ((put k p).exec s).1 = .ok () := by rw [hput]
    have hsame := (h.sameWithMeta hok).marker
    rw [hput, hmeta hr] at hsame
    dsimp only at hsame
    exact (marker_after_put hnd _).mp hsame

omit [Crates] in
theorem SameWrite.refl (s : Sys) : SameWrite k p s s :=
  ⟨fun _ => Iff.rfl, rfl, fun _ => rfl, ⟨⟨fun _ => rfl, rfl⟩, rfl⟩⟩

omit [Crates] in
theorem SameWrite.trans (h : SameWrite k p s s') (h' : SameWrite k p s' s'') : SameWrite k p s s'' where
  copies st := (h.copies st).trans (h'.copies st)
  entry := h.entry.trans h'.entry
  health x := (h.health x).trans (h'.health x)
  marker := ⟨⟨fun st => (h'.marker.marker.copies st).trans (h.marker.marker.copies st),
    h'.marker.marker.entry.trans h.marker.marker.entry⟩, h'.marker.recorded.trans h.marker.recorded⟩

/-- A streamed write leaves what the other write with metadata leaves, if all takers are raw shards. -/
theorem sameWrite_streamed {s3 s4 : Sys} (hraw : s.cluster.streams refs k = true)
    (hall : ∀ x ∈ s.takers every k, refs.kind x = .raw)
    (h3 : s3 = (s.wrote every k { body := p } (s.cluster.selectTargets k)).2.record k p (s.takers every k))
    (h4 : s4 = (s.wrote (fun x => refs.kind x = .raw) k { body := p } (s.cluster.selectTargets k)).2.record k p
      (s.takers (fun x => refs.kind x = .raw) k)) : SameWrite k p s3 s4 := by
  obtain ⟨hlookup, hcluster, hclock⟩ := streamed_same { body := p } hall rfl rfl
  have htakers : s.takers (fun x => refs.kind x = .raw) k = s.takers every k := by
    rw [takers_raw hraw]
    exact List.filter_eq_self.mpr fun x hx => by simpa using hall x hx
  rw [htakers] at h4
  have hsame : s3.cluster = s4.cluster := by
    rw [h3, h4]
    unfold Sys.record Sys.withCatalog Sys.tick Sys.now
    dsimp only
    rw [hcluster, hclock]
  have hstores : ∀ key st, (s3.stores st).objects.lookup key = (s4.stores st).objects.lookup key := by
    rw [h3, h4]
    exact hlookup
  refine ⟨fun st => ?_, by rw [hsame], fun x => by rw [hsame], ⟨⟨fun st => (hstores _ st).symm, by rw [hsame]⟩, by rw [hsame]⟩⟩
  unfold holds
  rw [hstores]

theorem agree_of_agreeWhen (hr : refs.Matches s.cluster) (hnd : (s.markerShards k).Nodup) (h : AgreeWhen refs k s) :
    WritesAgree refs k p s := by
  have hmin := s.cluster.config.one_le_minWrites
  cases hro : s.cluster.config.readOnly with
  | true =>
    obtain ⟨hput, hmeta⟩ := readOnly_rejects refs k p hro
    have hfile : ((putWithMetaFromFile refs k p 0).exec s).1 ≠ .ok () := by
      cases hraw : s.cluster.streams refs k with
      | true =>
        intro hok
        exact absurd (h.guarded hro hraw) (Nat.not_lt.mpr ((putWithMetaFromFile_ok_iff hr hraw).mp hok))
      | false =>
        rw [exec_putWithMetaFromFile hraw, hmeta]
        simp
    have hnot : ((put k p).exec s).1 ≠ .ok () := by rw [hput]; simp
    refine ⟨iff_of_false hnot (by rw [hmeta]; simp), iff_of_false hnot hfile, fun hok => absurd hok hnot, fun hok => absurd hok hnot⟩
  | false =>
    have hputiff : ((put k p).exec s).1 = .ok () ↔ s.cluster.config.minWrites ≤ (s.takers every k).length := by
      rw [(putAs_put hro).ok_iff]
      refine or_iff_left ?_
      rintro ⟨hnil, hle⟩
      exact absurd (h.failed hro hnil) (Nat.not_lt.mpr hle)
    have hmetaiff := putWithMeta_ok_iff (k := k) (p := p) hr hro
    have hfileiff : ((putWithMetaFromFile refs k p 0).exec s).1 = .ok () ↔
        s.cluster.config.minWrites ≤ (s.takers every k).length := by
      cases hraw : s.cluster.streams refs k with
      | false => rw [exec_putWithMetaFromFile hraw, hmetaiff]
      | true =>
        rw [putWithMetaFromFile_ok_iff hr hraw, takers_raw hraw]
        constructor
        · exact fun hle => hle.trans (List.length_filter_le _ _)
        · intro hle
          rwa [List.filter_eq_self.mpr fun x hx => by simpa using h.streamed hro hraw hle x hx]
    refine ⟨hputiff.trans hmetaiff.symm, hputiff.trans hfileiff.symm, fun hok => ?_, fun hok => ?_⟩
    · have hle := hputiff.mp hok
      obtain ⟨s3, rfl, hput, hmeta⟩ := exec_put_enough refs p hro hle
      rw [hput, hmeta hr]
      dsimp only
      exact sameWrite_of_marker ((marker_after_put hnd _).mpr (h.marker hro hle))
    · have hle := hputiff.mp hok
      obtain ⟨s3, hs3, hput, hmeta⟩ := exec_put_enough refs p hro hle
      have hdrop : SameWrite k p ((removeDeleteMarker k).exec s3).2 s3 := by
        rw [hs3]
        exact sameWrite_of_marker ((marker_after_put hnd _).mpr (h.marker hro hle))
      rw [hput]
      cases hraw : s.cluster.streams refs k with
      | false =>
        rw [exec_putWithMetaFromFile hraw, hmeta hr]
        dsimp only
        exact hdrop
      | true =>
        obtain ⟨s4, hs4, hfile⟩ := exec_fromFile_enough (p := p) hr hraw
          ((putWithMetaFromFile_ok_iff hr hraw).mp (hfileiff.mpr hle))
        rw [hfile]
        dsimp only
        exact hdrop.trans (sameWrite_streamed hraw (h.streamed hro hraw hle) hs3 hs4)

/-- The three writes agree exactly when none of their differences shows. -/
theorem write_paths_agree_iff (hr : refs.Matches s.cluster)
    (hnd : ∀ e, s.cluster.catalog.get (Path.fromStr (deleteMarkerKey k)) = some e → e.shards.Nodup) :
    WritesAgree refs k p s ↔ AgreeWhen refs k s :=
  ⟨agreeWhen_of_agree hr (nodup_markerShards hnd), agree_of_agreeWhen hr (nodup_markerShards hnd)⟩

end Writes

open Sample Raw.Sample in
/-- A key that has no marker, on raw shards that take every write. -/
theorem writes_of_a_new_key_agree : WritesAgree (raws 2) "k" [1, 2] (sys 2 (config 2 1) fun _ => fresh) := by
  have htakers : (sys 2 (config 2 1) fun _ => fresh).takers every "k" = [0, 1] := by decide +kernel
  refine (write_paths_agree_iff raws_match fun e h => ?_).mpr
    ⟨fun h => ?_, fun _ h => ?_, fun _ _ _ x h => ?_, fun _ _ => ⟨fun x _ st _ => ?_, .inl rfl⟩⟩
  · cases h
  · cases h
  · rw [htakers] at h
    cases h
  · rw [htakers] at h
    rcases List.mem_cons.mp h with rfl | h
    · rfl
    · rw [List.mem_singleton.mp h]
      rfl
  · show ((fresh.deleteBoth _ _).2).objects.lookup _ = none
    rfl

open Sample Raw.Sample in
/-- A file that is streamed to a read-only cluster is written. -/
theorem a_streamed_write_ignores_read_only : ¬ ∀ (refs : RawRefRegistry) (k : Key) (p : Bytes) (s : Sys),
    refs.Matches s.cluster → WritesAgree refs k p s := by
  intro h
  have h1 := (h (raws 2) "k" [1, 2] ⟨fun _ => fresh, { cluster 2 (config 2 1) with
    config := { config 2 1 with readOnly := true } }, []⟩ ?_).fromFile
  · exact absurd (h1.mpr (by decide +kernel)) (by decide +kernel)
  · exact ⟨raws_match.raw, raws_match.only⟩

open Sample Raw.Sample in
/-- `put` drops the marker of a key, a write with metadata keeps it. -/
theorem a_write_with_metadata_keeps_the_marker : ¬ ∀ (refs : RawRefRegistry) (k : Key) (p : Bytes) (s : Sys),
    refs.Matches s.cluster → s.cluster.config.readOnly = false → WritesAgree refs k p s := by
  intro h
  have h1 := ((h (raws 2) "k" [1, 2] (sys 2 (config 2 1) fun _ => Store.holding fresh "__deleted__/k" [0]) raws_match rfl).sameWithMeta
    (by decide +kernel)).marker.marker.copies 0
  have h2 := congrArg Option.isSome h1
  exact absurd h2 (by decide +kernel)

end ObjStr.Sharded
