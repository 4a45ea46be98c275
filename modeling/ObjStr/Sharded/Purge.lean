/-
  ObjStr.Sharded.Purge — purging the uploads that have expired.

  The registry knows an upload by the location of the object it would make. A purge deletes what is
  at that location on the primary shard, and this is not the upload's: its parts are elsewhere.
  - `purge_leaves_committed_iff`: no object with an entry changes, if and only if no expired
    upload is for one that its primary shard holds, or the deletes fail.
  - `a_purge_deletes_a_committed_object`: put an object, start an upload of a new version, and
    let it expire.
-/

import ObjStr.Sharded.Multipart
import ObjStr.Sharded.VacuumRuns

namespace ObjStr.Sharded

open ObjStr.Lib ObjStr.Raw Proc

variable {f f' : Front} {s : Sys} {k : Key}

/-! ## Steps of the cluster -/

theorem exec_onCluster {α : Type} (p : ClusterM α) (f : Front) :
    (onCluster p).exec f = ((p.exec f.sys).1, f.withSys (p.exec f.sys).2) :=
  @exec_within _ _ _ _ Front.sys Front.withSys (fun _ _ => rfl) (fun _ _ _ => rfl) (fun _ => rfl) p f

/-! ## Deleting one key after the other -/

def Store.deleteEach (keys : List Key) (st : Store) : Store := keys.foldl (fun q key => (q.delete key).2) st

theorem Store.deleteEach_cons (key : Key) (keys : List Key) (st : Store) :
    st.deleteEach (key :: keys) = (st.delete key).2.deleteEach keys := rfl

theorem Store.deleteEach_append (keys : List Key) (key : Key) (st : Store) :
    st.deleteEach (keys ++ [key]) = ((st.deleteEach keys).delete key).2 := by
  unfold deleteEach
  rw [List.foldl_append]
  rfl

theorem Store.lookup_deleteEach_none {keys : List Key} {st : Store} (h : st.objects.lookup k = none) :
    (st.deleteEach keys).objects.lookup k = none := by
  induction keys generalizing st with
  | nil => exact h
  | cons key keys ih =>
    rw [deleteEach_cons]
    exact ih ((st.kept_or_gone key).elim (fun h1 => h1.trans h) fun h1 => h1)

def Store.failsDelete (st : Store) (i : Nat) : Prop := ((st.outcomes .delete)[i]?.join).isSome

theorem Store.failsDelete_next (st : Store) (key : Key) (i : Nat) : (st.delete key).2.failsDelete i ↔ st.failsDelete (i + 1) := by
  unfold failsDelete
  rw [outcomes_delete, if_pos rfl, List.getElem?_tail]

theorem Store.lookup_delete_self (st : Store) : (st.delete k).2.objects.lookup k = st.objects.lookup k ↔
    st.objects.lookup k = none ∨ st.failsDelete 0 := by
  have hzero : (st.outcomes .delete)[0]?.join = st.outcome .delete := by rw [outcome, List.head?_eq_getElem?]
  rw [failsDelete, hzero, st.lookup_delete]
  cases st.outcome .delete with
  | some e => simp
  | none => simp [eq_comm]

/-- A key stays as it is if it is not there, or each of its deletes fails. -/
theorem Store.deleteEach_keeps_iff (keys : List Key) (st : Store) :
    (st.deleteEach keys).objects.lookup k = st.objects.lookup k ↔
      st.objects.lookup k = none ∨ ∀ i, keys[i]? = some k → st.failsDelete i := by
  induction keys generalizing st with
  | nil => simp [deleteEach]
  | cons key keys ih =>
    rw [deleteEach_cons]
    by_cases hnone : st.objects.lookup k = none
    · rw [hnone]
      refine iff_of_true (lookup_deleteEach_none ?_) (.inl rfl)
      exact (st.kept_or_gone key).elim (fun h => h.trans hnone) fun h => h
    have hsplit : (∀ i, (key :: keys)[i]? = some k → st.failsDelete i) ↔
        (key = k → st.failsDelete 0) ∧ ∀ i, keys[i]? = some k → st.failsDelete (i + 1) := by
      constructor
      · intro h
        exact ⟨fun hk => h 0 (by simp [hk]), fun i hi => h (i + 1) (by simpa using hi)⟩
      · intro h i hi
        cases i with
        | zero => exact h.1 (by simpa using hi)
        | succ i => exact h.2 i (by simpa using hi)
    rw [hsplit]
    have hfirst : (st.delete key).2.objects.lookup k = st.objects.lookup k ∨ (st.delete key).2.objects.lookup k = none :=
      st.kept_or_gone key
    rcases hfirst with hkeep | hgone
    · -- the first delete leaves the key
      have hfirst : key = k → st.failsDelete 0 := by
        rintro rfl
        exact (st.lookup_delete_self.mp hkeep).resolve_left hnone
      rw [← hkeep, ih, hkeep]
      simp only [hnone, false_or, failsDelete_next]
      exact ⟨fun h => ⟨hfirst, h⟩, fun h => h.2⟩
    · -- the first delete takes it
      have hkey : key = k := by
        by_contra hne
        rw [st.lookup_delete_ne (fun h => hne h.symm)] at hgone
        exact hnone hgone
      subst hkey
      have hlost : (st.delete key).2.objects.lookup key ≠ st.objects.lookup key := by
        rw [hgone]
        exact fun h => hnone h.symm
      rw [lookup_deleteEach_none hgone]
      refine iff_of_false (fun h => hnone h.symm) fun h => ?_
      rcases h with h | h
      · exact hnone h
      · exact hlost (st.lookup_delete_self.mpr (.inr (h.1 rfl)))

/-! ## A purge -/

def Front.staleOn (f : Front) (x : ShardId) : List Key :=
  (f.stale.filter fun u => u.2.primaryShardId = x).map (·.2.location)

structure Purged (f f' : Front) : Prop where
  cluster : f'.sys.cluster = f.sys.cluster
  deleted : ∀ x st, f.sys.cluster.storeRef x = some st → f'.sys.stores st = (f.sys.stores st).deleteEach (f.staleOn x)
  kept : ∀ st, (∀ x, f.sys.cluster.storeRef x ≠ some st) → f'.sys.stores st = f.sys.stores st

structure PurgedSo (s s' : Sys) (past : List (Nat × TrackedUpload)) : Prop where
  cluster : s'.cluster = s.cluster
  deleted : ∀ x st, s.cluster.storeRef x = some st →
    s'.stores st = (s.stores st).deleteEach ((past.filter fun u => u.2.primaryShardId = x).map (·.2.location))
  kept : ∀ st, (∀ x, s.cluster.storeRef x ≠ some st) → s'.stores st = s.stores st

/-- One more delete, on the shard's store if it has one. -/
theorem PurgedSo.snoc {s s1 : Sys} {past : List (Nat × TrackedUpload)} (h : PurgedSo s s1 past) (u : Nat × TrackedUpload) :
    PurgedSo s (((s.cluster.storeRef u.2.primaryShardId).delete u.2.location).exec s1).2 (past ++ [u]) := by
  have hlist : ∀ x, ((past ++ [u]).filter fun v => v.2.primaryShardId = x).map (·.2.location) =
      ((past.filter fun v => v.2.primaryShardId = x).map (·.2.location)) ++ if u.2.primaryShardId = x then [u.2.location] else [] := by
    intro x
    rw [List.filter_append, List.map_append, List.filter_singleton]
    split <;> simp_all
  cases hr : s.cluster.storeRef u.2.primaryShardId with
  | none =>
    refine ⟨h.cluster, fun x st hx => ?_, h.kept⟩
    have hne : u.2.primaryShardId ≠ x := fun he => by
      rw [he, hx] at hr
      cases hr
    rw [hlist, if_neg hne, List.append_nil]
    exact h.deleted x st hx
  | some id =>
    refine ⟨h.cluster, fun x st hx => ?_, fun st hst => ?_⟩
    · rw [hlist]
      by_cases he : u.2.primaryShardId = x
      · subst he
        obtain rfl := Option.some.inj (hr.symm.trans hx)
        rw [if_pos rfl, Store.deleteEach_append, ← h.deleted _ _ hx]
        exact Function.update_self ..
      · have hne : st ≠ id := fun hst => he (storeRef_injective hr (hst ▸ hx))
        rw [if_neg he, List.append_nil, ← h.deleted x st hx]
        exact Function.update_of_ne hne ..
    · have hne : st ≠ id := fun he => hst u.2.primaryShardId (he ▸ hr)
      rw [← h.kept st hst]
      exact Function.update_of_ne hne ..

theorem purged_purge (f : Front) : Purged f (purgeStaleMultiparts.exec f).2 := by
  have hwp : purgeStaleMultiparts.wp (fun _ f' _ => PurgedSo f.sys f'.sys f.stale) f := by
    unfold purgeStaleMultiparts
    rw [wp_bind, wp_step]
    refine wp_foldlM (fun past _ f1 _ => PurgedSo f.sys f1.sys past) ⟨rfl, fun _ _ _ => rfl, fun _ _ => rfl⟩ ?_
      (fun _ _ _ h => h)
    intro past u rest _ n f1 _ h1
    rw [wp_bind]
    unfold wp
    rw [exec_onCluster]
    dsimp only [shardStore, look, exec_step, Front.withSys]
    by_cases hx : u.2.primaryShardId < f1.sys.cluster.shards.length
    · rw [if_pos hx, h1.cluster]
      dsimp only
      rw [exec_bind, exec_onCluster]
      exact h1.snoc u
    · rw [if_neg hx]
      -- no shard, no store: nothing is deleted
      have hnone : f.sys.cluster.storeRef u.2.primaryShardId = none := by
        rw [← h1.cluster]
        cases hr : f1.sys.cluster.storeRef u.2.primaryShardId with
        | none => rfl
        | some st => exact absurd (Cluster.storeRef_eq_some hr).2 hx
      have hsnoc := h1.snoc u
      rw [hnone] at hsnoc
      exact hsnoc
  exact ⟨hwp.cluster, hwp.deleted, hwp.kept⟩

/-! ## Committed objects -/

/-- Each shard holds what it held of the objects that have an entry. -/
def CommittedUnchanged (s s' : Sys) : Prop :=
  ∀ key, (s.cluster.catalog.get key).isSome → ∀ x < s.cluster.shards.length, s'.copy x key = s.copy x key

/-- No expired upload is for an object that has an entry and is on the upload's primary shard, or the
    delete fails: it is the `i`-th on that shard. -/
def Front.NoCommittedStale (f : Front) : Prop :=
  ∀ x st i key, f.sys.cluster.storeRef x = some st → (f.staleOn x)[i]? = some key →
    (f.sys.cluster.catalog.get key).isSome → (f.sys.copy x key).isSome → (f.sys.stores st).failsDelete i

theorem committedUnchanged_purge_iff (f : Front) :
    CommittedUnchanged f.sys (purgeStaleMultiparts.exec f).2.sys ↔ f.NoCommittedStale := by
  have hp := purged_purge f
  have hcopy : ∀ x st key, f.sys.cluster.storeRef x = some st → f.sys.copy x key = (f.sys.stores st).objects.lookup key :=
    fun x st key hr => by rw [Sys.copy, (Cluster.storeRef_eq_some hr).1]
  have hafter : ∀ x st key, f.sys.cluster.storeRef x = some st → (purgeStaleMultiparts.exec f).2.sys.copy x key =
      ((f.sys.stores st).deleteEach (f.staleOn x)).objects.lookup key := fun x st key hr => by
    rw [Sys.copy, hp.cluster, ← (Cluster.storeRef_eq_some hr).1, hp.deleted x st hr]
  constructor
  · intro h x st i key hr hi hentry hheld
    have hkeep := h key hentry x (Cluster.storeRef_eq_some hr).2
    rw [hafter x st key hr, hcopy x st key hr, Store.deleteEach_keeps_iff] at hkeep
    refine hkeep.resolve_left (fun hnone => ?_) i hi
    rw [hcopy x st key hr, hnone] at hheld
    cases hheld
  · intro h key hentry x _
    cases hr : f.sys.cluster.storeRef x with
    | some st =>
      rw [hafter x st key hr, hcopy x st key hr, Store.deleteEach_keeps_iff]
      by_cases hheld : (f.sys.copy x key).isSome
      · exact .inr fun i hi => h x st i key hr hi hentry hheld
      · rw [hcopy x st key hr] at hheld
        exact .inl (by simpa using hheld)
    | none =>
      rw [Sys.copy, Sys.copy, hp.cluster, hp.kept]
      intro y hy
      have hyx : x = y := f.sys.cluster.config.storeOf.injective (Cluster.storeRef_eq_some hy).1
      rw [hyx, hy] at hr
      cases hr

/-! ## Histories -/

/-- A cluster and its clients, with the uploads they have started. -/
structure Clients where
  front : Front
  uploads : List ShardedMultipartUpload

/-- What clients do; an upload is abandoned when nothing more is done with it. -/
inductive ClientOp where
  | put (location : Key) (payload : Bytes)
  | start (location : Key)
  | putPart (upload : Nat) (payload : Bytes)
  | complete (upload : Nat)
  | abort (upload : Nat)
  | purge

section Histories

variable [Crates]

def ClientOp.run (op : ClientOp) (c : Clients) : Clients :=
  match op with
  | .put location payload => { c with front := ((onCluster (Sharded.put location payload)).exec c.front).2 }
  | .start location =>
    let r := (putMultipartOpts location ∅).exec c.front
    ⟨r.2, c.uploads ++ r.1.toOption.toList⟩
  | .putPart i payload => { c with uploads := c.uploads.modify i (·.putPart payload) }
  | .complete i =>
    match c.uploads[i]? with
    | some u => { c with front := (u.complete.exec c.front).2 }
    | none => c
  | .abort i =>
    match c.uploads[i]? with
    | some u => { c with front := (u.abort.exec c.front).2 }
    | none => c
  | .purge => { c with front := (purgeStaleMultiparts.exec c.front).2 }

def Clients.after (c : Clients) (ops : List ClientOp) : Clients := ops.foldl (fun c op => op.run c) c

/-- Every purge of a history leaves the objects that have an entry as they are, if and only if none of the
    uploads that have expired by then is for one. -/
theorem purge_leaves_committed_iff (c : Clients) (ops : List ClientOp) :
    (∀ past rest, ops = past ++ .purge :: rest →
      CommittedUnchanged (c.after past).front.sys (c.after (past ++ [.purge])).front.sys) ↔
    ∀ past rest, ops = past ++ .purge :: rest → (c.after past).front.NoCommittedStale := by
  have hpurge : ∀ past, (c.after (past ++ [.purge])).front.sys =
      (purgeStaleMultiparts.exec (c.after past).front).2.sys := fun past => by
    unfold Clients.after
    rw [List.foldl_append]
    rfl
  refine forall_congr' fun past => forall_congr' fun rest => imp_congr_right fun _ => ?_
  rw [hpurge]
  exact committedUnchanged_purge_iff (c.after past).front

end Histories

/-! ## An upload of a new version -/

open Sample in
/-- A cluster of one empty shard, whose clock reads 0 when the first upload starts and 2 after that. -/
def Sample.expiring : Clients where
  front := {
    sys := sys 1 (config 1 1) fun _ => fresh
    multipartUploads := []
    nextUploadId := 1
    multipartExpiry := 1
    instants := [0, 2]
    starts _ := []
    completes _ := [] }
  uploads := []

open Sample Raw.Sample in
/-- An object is put, an upload of a new version is started and abandoned, and a purge deletes the object. -/
theorem a_purge_deletes_a_committed_object : ¬ ∀ (c : Clients) (ops : List ClientOp),
    ∀ past rest, ops = past ++ .purge :: rest →
      CommittedUnchanged (c.after past).front.sys (c.after (past ++ [.purge])).front.sys := by
  intro h
  have hkeep := h expiring [.put "k" [1], .start "k", .putPart 0 [2], .purge] [.put "k" [1], .start "k", .putPart 0 [2]] [] rfl
    "k" (by decide +kernel) 0 (by decide +kernel)
  have hbefore : ((expiring.after [.put "k" [1], .start "k", .putPart 0 [2]]).front.sys.copy 0 "k").isSome = true := by
    decide +kernel
  have hafter : ((expiring.after [.put "k" [1], .start "k", .putPart 0 [2], .purge]).front.sys.copy 0 "k").isSome = false := by
    decide +kernel
  rw [show [ClientOp.put "k" [1], .start "k", .putPart 0 [2]] ++ [.purge] = [.put "k" [1], .start "k", .putPart 0 [2], .purge] from rfl] at hkeep
  rw [hkeep, hbefore] at hafter
  cases hafter

end ObjStr.Sharded
