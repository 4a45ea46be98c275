/-
  ObjStr.Sharded.MetaWrites — what a write with metadata does, run alone: each shard stores the
  object its own way (`Store.putMeta`), and on a sidecar shard the body may land without its
  metadata.
-/

import ObjStr.Sharded.Quorum

namespace ObjStr.Sharded

open ObjStr.Lib ObjStr.Raw Proc

variable {s s' s'' : Sys} {location : Key} {payload metadata : Bytes}

/-! ## One call for each shard -/

/-- Run a store's part of a call: the shard's answer, and the state after it. -/
def Sys.answerOf (s : Sys) (r : StoreRef) (g : Store → Except StoreError Unit × Store) (e : StoreError) :
    Except StoreError Unit :=
  match r with
  | none => .error e
  | some st => (g (s.stores st)).1

def Sys.ranOn (s : Sys) (r : StoreRef) (g : Store → Except StoreError Unit × Store) : Sys :=
  match r with
  | none => s
  | some st => { s with stores := Function.update s.stores st (g (s.stores st)).2 }

structure RanAll (ids : List ShardId) (r : ShardId → StoreRef) (g : ShardId → Store → Except StoreError Unit × Store)
    (s s' : Sys) : Prop where
  cluster : s'.cluster = s.cluster
  clock : s'.clock = s.clock
  kept : ∀ st, (∀ x ∈ ids, r x ≠ some st) → s'.stores st = s.stores st
  ran : ∀ x ∈ ids, ∀ st, r x = some st → s'.stores st = (g x (s.stores st)).2

/-- One more of them: the others have not touched its store. -/
theorem RanAll.snoc {done : List ShardId} {r : ShardId → StoreRef} {g : ShardId → Store → Except StoreError Unit × Store}
    {x : ShardId} (h : RanAll done r g s s') (hx : ∀ y ∈ done, ∀ st, r x = some st → r y ≠ some st) :
    RanAll (done ++ [x]) r g s (s'.ranOn (r x) (g x)) ∧
      ∀ e, s'.answerOf (r x) (g x) e = s.answerOf (r x) (g x) e := by
  cases hr : r x with
  | none =>
    refine ⟨⟨h.cluster, h.clock, fun st hst => h.kept st fun y hy => hst y (by simp [hy]), fun y hy st hst => ?_⟩, fun e => rfl⟩
    rcases List.mem_append.mp hy with hy | hy
    · exact h.ran y hy st hst
    · rw [List.mem_singleton.mp hy, hr] at hst
      cases hst
  | some st0 =>
    have hsame : s'.stores st0 = s.stores st0 := h.kept st0 fun y hy => hx y hy st0 hr
    refine ⟨⟨h.cluster, h.clock, fun st hst => ?_, fun y hy st hst => ?_⟩, fun e => ?_⟩
    · have hne : st ≠ st0 := fun he => hst x (by simp) (he ▸ hr)
      simp only [Sys.ranOn, Function.update_of_ne hne]
      exact h.kept st fun y hy => hst y (by simp [hy])
    · rcases List.mem_append.mp hy with hy | hy
      · have hne : st ≠ st0 := fun he => hx y hy st0 hr (he ▸ hst)
        simp only [Sys.ranOn, Function.update_of_ne hne]
        exact h.ran y hy st hst
      · rw [List.mem_singleton.mp hy] at hst ⊢
        obtain rfl := Option.some.inj (hr.symm.trans hst)
        simp only [Sys.ranOn, Function.update_self, hsame]
    · simp only [Sys.answerOf, hsame]

theorem notMem_done {ids done rest : List ShardId} {x : ShardId} (hnd : ids.Nodup) (h : ids = done ++ x :: rest) :
    x ∉ done := by
  rw [h] at hnd
  exact fun hm => (List.nodup_append.mp hnd).2.2 x hm x List.mem_cons_self rfl

/-- Side by side, on different stores. -/
theorem wp_eachStore {ids : List ShardId} (hnd : ids.Nodup) {p : ShardId → ClusterM (ShardId × Except StoreError Unit)}
    (r : ShardId → StoreRef) (g : ShardId → Store → Except StoreError Unit × Store) (e : ShardId → StoreError)
    (hr : ∀ x ∈ ids, ∀ y ∈ ids, ∀ st, r x = some st → r y = some st → x = y)
    (hp : ∀ x ∈ ids, ∀ s1, s1.cluster = s.cluster →
      (p x).wp (fun o s' _ => o = (x, s1.answerOf (r x) (g x) (e x)) ∧ s' = s1.ranOn (r x) (g x)) s1) :
    (joinAll (ids.map p)).wp (fun os s' _ => os = ids.map (fun x => (x, s.answerOf (r x) (g x) (e x))) ∧
      RanAll ids r g s s') s := by
  refine wp_joinAll (fun done os s' _ => os = done.map (fun x => (x, s.answerOf (r x) (g x) (e x))) ∧
    RanAll done r g s s') ⟨rfl, rfl, rfl, fun _ _ => rfl, by simp⟩ ?_ (fun _ _ _ h => h)
  intro done x rest hl os s1 t h1
  obtain ⟨rfl, h1⟩ := h1
  have hx : x ∈ ids := by simp [hl]
  have hnew := notMem_done hnd hl
  have hapart : ∀ y ∈ done, ∀ st, r x = some st → r y ≠ some st := by
    intro y hy st hxs hys
    exact hnew (hr x hx y (by simp [hl, hy]) st hxs hys ▸ hy)
  refine wp_mono (hp x hx s1 h1.cluster) fun o s2 t2 h2 => ?_
  obtain ⟨rfl, rfl⟩ := h2
  obtain ⟨h3, h4⟩ := h1.snoc hapart
  exact ⟨by simp [h4], h3⟩

/-! ## A shard's write -/

def Store.putMeta (kind : ShardKind) (location : Key) (payload metadata : Bytes) (st : Store) :
    Except StoreError Unit × Store :=
  match kind with
  | .raw => st.put location { body := payload, metadata }
  | .s3Like => st.put location { body := payload, attributes := Tlv.metaToAttributes (Tlv.decodeMetadata metadata) }
  | .sidecar =>
    match st.put location { body := payload } with
    | (.error e, st') => (.error e, st')
    | (.ok _, st') =>
      if metadata.isEmpty then (.ok (), st') else st'.put (metaSidecarPath location) { body := metadata }

def Cluster.metaRef (c : Cluster) (refs : RawRefRegistry) (x : ShardId) : StoreRef :=
  if refs.kind x = .raw then refs.get x else c.storeRef x

def metaError (refs : RawRefRegistry) (x : ShardId) : StoreError :=
  if refs.kind x = .raw then .notFound s!"shard {x}: no raw ref" else .backend false

theorem wp_tryPutShard {refs : RawRefRegistry} {x : ShardId} (hx : x < s.cluster.shards.length) :
    (tryPutShard refs x location payload metadata).wp (fun r s' _ =>
      r = s.answerOf (s.cluster.metaRef refs x) (Store.putMeta (refs.kind x) location payload metadata) (metaError refs x) ∧
      s' = s.ranOn (s.cluster.metaRef refs x) (Store.putMeta (refs.kind x) location payload metadata)) s := by
  unfold tryPutShard Cluster.metaRef metaError
  cases hk : refs.kind x with
  | raw =>
    cases hg : refs.get x with
    | none =>
      simp only [if_true, wp_pure]
      exact ⟨rfl, rfl⟩
    | some st =>
      simp only [if_true, StoreRef.put, StoreRef.call, onStore, wp_step]
      exact ⟨rfl, rfl⟩
  | s3Like =>
    simp only [reduceCtorEq, if_false]
    rw [wp_bind, shardStore, wp_look, if_pos hx]
    dsimp only
    cases hg : s.cluster.storeRef x with
    | none =>
      simp only [StoreRef.put, StoreRef.call, wp_pure]
      exact ⟨rfl, rfl⟩
    | some st =>
      simp only [StoreRef.put, StoreRef.call, onStore, wp_step]
      exact ⟨rfl, rfl⟩
  | sidecar =>
    simp only [reduceCtorEq, if_false]
    rw [wp_bind, shardStore, wp_look, if_pos hx]
    dsimp only
    cases hg : s.cluster.storeRef x with
    | none =>
      simp only [StoreRef.put, StoreRef.call]
      rw [wp_bind, wp_pure, wp_pure]
      exact ⟨rfl, rfl⟩
    | some st =>
      rw [wp_bind]
      simp only [StoreRef.put, StoreRef.call, onStore, wp_step, Sys.answerOf, Sys.ranOn, Store.putMeta]
      generalize (s.stores st).put location { body := payload } = o
      obtain ⟨o1, st1⟩ := o
      cases o1 with
      | error e =>
        simp only [wp_pure]
        exact ⟨trivial, trivial⟩
      | ok u =>
        by_cases hm : metadata.isEmpty
        · simp only [hm, if_true, wp_pure]
          exact ⟨trivial, trivial⟩
        · simp only [hm, Bool.false_eq_true, if_false, wp_step]
          refine ⟨by simp, ?_⟩
          simp only [Function.update_self, Function.update_idem]

/-! ## What a store holds after it -/

/-- A write that fails changes no object; one that does not stores the upload. -/
theorem Store.put_cases (st : Store) (key : Key) (up : Upload) :
    (∃ e, st.outcome .put = some e ∧ (st.put key up).1 = .error e ∧ (st.put key up).2.objects = st.objects) ∨
    (st.outcome .put = none ∧ (st.put key up).1 = .ok () ∧
      (st.put key up).2.objects = st.objects.insert key ⟨up.body, up.metadata, up.attributes, st.clock.headD 0⟩) := by
  unfold Store.put
  cases st.outcome .put with
  | some e => exact .inl ⟨e, rfl, rfl, rfl⟩
  | none => exact .inr ⟨rfl, rfl, rfl⟩

/-- The body of a sidecar shard lands, and its metadata does not. -/
def Store.halfWritten (kind : ShardKind) (metadata : Bytes) (st : Store) : Bool :=
  kind = .sidecar && !metadata.isEmpty && (st.outcome .put).isNone && ((st.outcomes .put).tail.head?.join).isSome

theorem Store.outcome_of_put (st : Store) (key : Key) (up : Upload) :
    (st.put key up).2.outcome .put = (st.outcomes .put).tail.head?.join := by
  rw [Store.outcome, Store.outcomes_put, if_pos rfl]

/-- A shard that took the write holds the payload. -/
theorem Store.putMeta_ok {st : Store} {kind : ShardKind} (h : (st.putMeta kind location payload metadata).1 = .ok ()) :
    ∃ o, (st.putMeta kind location payload metadata).2.objects.lookup location = some o ∧ o.body = payload := by
  cases kind with
  | raw =>
    rcases st.put_cases location { body := payload, metadata } with ⟨e, -, h2, -⟩ | ⟨-, -, h3⟩
    · simp only [Store.putMeta, h2, reduceCtorEq] at h
    · exact ⟨_, by rw [Store.putMeta, h3]; exact AList.lookup_insert _, rfl⟩
  | s3Like =>
    rcases st.put_cases location { body := payload, attributes := Tlv.metaToAttributes (Tlv.decodeMetadata metadata) } with
      ⟨e, -, h2, -⟩ | ⟨-, -, h3⟩
    · simp only [Store.putMeta, h2, reduceCtorEq] at h
    · exact ⟨_, by rw [Store.putMeta, h3]; exact AList.lookup_insert _, rfl⟩
  | sidecar =>
    unfold Store.putMeta at h ⊢
    rcases st.put_cases location { body := payload } with ⟨e, -, h2, -⟩ | ⟨-, h2, h3⟩
    · rw [show st.put location { body := payload } = (.error e, (st.put location { body := payload }).2) from
        Prod.ext h2 rfl] at h
      simp at h
    · rw [show st.put location { body := payload } = (.ok (), (st.put location { body := payload }).2) from
        Prod.ext h2 rfl]
      dsimp only
      split
      · exact ⟨_, by rw [h3]; exact AList.lookup_insert _, rfl⟩
      · rw [Store.lookup_put_ne _ _ _ (sidecar_ne location).symm, h3]
        exact ⟨_, AList.lookup_insert _, rfl⟩

/-- A shard that rejected the write holds what it held, or the body alone. -/
theorem Store.putMeta_error {st : Store} {kind : ShardKind} {e : StoreError}
    (h : (st.putMeta kind location payload metadata).1 = .error e) :
    if st.halfWritten kind metadata then
      ∃ o, (st.putMeta kind location payload metadata).2.objects.lookup location = some o
    else (st.putMeta kind location payload metadata).2.objects.lookup location = st.objects.lookup location := by
  cases kind with
  | raw =>
    rcases st.put_cases location { body := payload, metadata } with ⟨e, -, -, h3⟩ | ⟨-, h2, -⟩
    · simp only [Store.halfWritten, reduceCtorEq, decide_false, Bool.false_and, Bool.false_eq_true, if_false,
        Store.putMeta, h3]
    · simp only [Store.putMeta, h2, reduceCtorEq] at h
  | s3Like =>
    rcases st.put_cases location { body := payload, attributes := Tlv.metaToAttributes (Tlv.decodeMetadata metadata) } with
      ⟨e, -, -, h3⟩ | ⟨-, h2, -⟩
    · simp only [Store.halfWritten, reduceCtorEq, decide_false, Bool.false_and, Bool.false_eq_true, if_false,
        Store.putMeta, h3]
    · simp only [Store.putMeta, h2, reduceCtorEq] at h
  | sidecar =>
    unfold Store.putMeta at h ⊢
    rcases st.put_cases location { body := payload } with ⟨e', h1, h2, h3⟩ | ⟨h1, h2, h3⟩
    · rw [show st.put location { body := payload } = (.error e', (st.put location { body := payload }).2) from
        Prod.ext h2 rfl]
      simp [Store.halfWritten, h1, h3]
    · rw [show st.put location { body := payload } = (.ok (), (st.put location { body := payload }).2) from
        Prod.ext h2 rfl] at h ⊢
      have h4 := st.outcome_of_put location { body := payload }
      generalize (st.put location { body := payload }).2 = st1 at h h3 h4
      by_cases hm : metadata.isEmpty
      · simp [hm] at h
      · simp only [hm, Bool.false_eq_true, if_false] at h ⊢
        rcases st1.put_cases (metaSidecarPath location) { body := metadata } with ⟨e2, h5, -, h7⟩ | ⟨-, h6, -⟩
        · rw [h4] at h5
          have hhalf : st.halfWritten .sidecar metadata = true := by
            unfold Store.halfWritten
            rw [h1, h5]
            simp [hm]
          rw [if_pos hhalf, h7, h3]
          exact ⟨_, AList.lookup_insert _⟩
        · rw [h6] at h
          cases h

theorem Store.outcomes_putMeta (st : Store) (kind : ShardKind) {c : Call} (hc : c ≠ .put) :
    (st.putMeta kind location payload metadata).2.outcomes c = st.outcomes c := by
  cases kind with
  | raw => rw [Store.putMeta, Store.outcomes_put, if_neg hc]
  | s3Like => rw [Store.putMeta, Store.outcomes_put, if_neg hc]
  | sidecar =>
    unfold Store.putMeta
    have h1 := st.outcomes_put location { body := payload } c
    rw [if_neg hc] at h1
    generalize st.put location { body := payload } = o at h1
    obtain ⟨o1, st1⟩ := o
    cases o1 with
    | error e => exact h1
    | ok u =>
      dsimp only
      split
      · exact h1
      · rw [Store.outcomes_put, if_neg hc]
        exact h1

/-! ## The shards that are left -/

def Cluster.offline (c : Cluster) (ids : List ShardId) : Cluster :=
  { c with shards := c.shards.mapIdx fun i info => if ids.contains i then { info with health := .offline } else info }

theorem Cluster.healthOf_offline (c : Cluster) (ids : List ShardId) (x : ShardId) :
    (c.offline ids).healthOf x = (c.healthOf x).map fun h => if ids.contains x then .offline else h := by
  unfold offline healthOf
  rw [List.getElem?_mapIdx]
  cases c.shards[x]? with
  | none => rfl
  | some i =>
    simp only [Option.map_some]
    split <;> rfl

theorem ShardInfo.health_setHealth (i : ShardInfo) (h : ShardHealth) (now : DateTime) : (i.setHealth h now).health = h := by
  unfold setHealth
  split
  · split <;> rfl
  · split <;> rfl

theorem Cluster.healthOf_setShardHealth (c : Cluster) (y : ShardId) (h : ShardHealth) (now : DateTime) (x : ShardId) :
    (c.setShardHealth y h now).healthOf x = (c.healthOf x).map fun h' => if x = y then h else h' := by
  unfold setShardHealth healthOf
  rw [List.getElem?_modify]
  cases c.shards[x]? with
  | none => rfl
  | some i =>
    by_cases hx : x = y
    · simp [hx, ShardInfo.health_setHealth]
    · have hx' : ¬ y = x := fun h => hx h.symm
      simp [hx, hx']

/-- Marking shards offline takes them out, and changes no other. -/
theorem wp_markOffline (ids : List ShardId) :
    (ids.forM fun x => setShardHealth x .offline).wp (fun _ s' t => (Marked s s' ∧ Quiet (events t)) ∧
      ∀ x, s'.cluster.healthOf x = (s.cluster.offline ids).healthOf x) s := by
  refine wp_and (wp_markAll fun x s => wp_setShardHealth x _) ?_
  refine wp_forM (fun done s' _ => ∀ x, s'.cluster.healthOf x = (s.cluster.offline done).healthOf x) ?_ ?_
    (fun _ _ h => h)
  · intro x
    rw [Cluster.healthOf_offline]
    cases s.cluster.healthOf x <;> rfl
  · intro done y rest _ s1 t h1
    rw [setShardHealth, wp_step]
    intro x
    show (s1.cluster.setShardHealth y .offline s1.now).healthOf x = _
    rw [Cluster.healthOf_setShardHealth, h1, Cluster.healthOf_offline, Cluster.healthOf_offline]
    cases s.cluster.healthOf x with
    | none => rfl
    | some h =>
      by_cases hx : x = y
      · simp [hx]
      · simp [hx]

section Selection

variable [Crates]

/-- Which shards are chosen depends on their number and on which of them are writable. -/
theorem Cluster.selectTargets_congr {c c' : Cluster} (hlen : c'.shards.length = c.shards.length)
    (hcfg : c'.config = c.config) (hh : ∀ x, c'.healthOf x = c.healthOf x) (path : Key) :
    c'.selectTargets path = c.selectTargets path := by
  have hw : ∀ x, c'.writable x = c.writable x := fun x => by rw [writable, writable, hh]
  have hhome : c'.home path = c.home path := by rw [home, home, hlen]
  unfold selectTargets
  simp only [hlen, hcfg, hw, hhome]

omit [Crates] in
theorem Cluster.length_offline (c : Cluster) (ids : List ShardId) : (c.offline ids).shards.length = c.shards.length := by
  simp [offline]

/-- The shards a write is retried on when all it was sent to failed. -/
def Cluster.retryIds (c : Cluster) (path : Key) (tried : List ShardId) : List ShardId :=
  ((c.offline tried).selectTargets path).filter fun x => !tried.contains x

omit [Crates] in
theorem Cluster.writable_offline {c : Cluster} {ids : List ShardId} {x : ShardId} (h : (c.offline ids).writable x = true) :
    c.writable x = true := by
  unfold writable at h ⊢
  rw [healthOf_offline] at h
  cases hh : c.healthOf x with
  | none => simp [hh] at h
  | some v =>
    rw [hh] at h
    simp only [Option.map_some, Option.any_some] at h ⊢
    cases hx : ids.contains x with
    | true =>
      rw [hx, if_pos rfl] at h
      exact absurd h (by decide)
    | false =>
      rw [hx] at h
      exact h

theorem Cluster.mem_retryIds {c : Cluster} {path : Key} {tried : List ShardId} {x : ShardId}
    (h : x ∈ c.retryIds path tried) : c.writable x = true ∧ x ∉ tried := by
  obtain ⟨h1, h2⟩ := List.mem_filter.mp h
  exact ⟨writable_offline (writable_of_mem_selectTargets h1), by simpa using h2⟩

theorem Cluster.nodup_retryIds (c : Cluster) (path : Key) (tried : List ShardId) : (c.retryIds path tried).Nodup :=
  ((c.offline tried).nodup_selectTargets path).filter _

/-- After a round that nobody took, the shards to retry on; after any other, none. -/
theorem wp_markWriteFailures_ids (placed failed tried : List ShardId) (location : Key) :
    (markWriteFailures placed failed tried location).wp
      (fun ids s' t => Marked s s' ∧ Quiet (events t) ∧
        (placed ≠ [] ∨ failed = [] → ids = []) ∧ (placed = [] → failed = tried → tried ≠ [] → ids = s.cluster.retryIds location tried)) s := by
  by_cases hp : placed = []
  · subst hp
    by_cases hf : failed = []
    · subst hf
      refine wp_mono (wp_markWriteFailures [] [] tried location) fun ids s' t h => ⟨h.1, h.2.1, fun _ => h.2.2.2, ?_⟩
      intro _ h1 h2
      exact absurd h1.symm h2
    · unfold markWriteFailures
      have hne : failed.isEmpty = false := by simpa using hf
      simp only [List.isEmpty_nil, hne, Bool.not_false, Bool.and_self, if_true]
      rw [wp_bind]
      refine wp_mono (wp_markOffline failed) fun _ s1 t1 h1 => ?_
      obtain ⟨⟨hm, hq⟩, hh⟩ := h1
      rw [wp_bind, selectTargets, wp_look, wp_pure]
      refine ⟨hm, ?_, by simp [hf], ?_⟩
      · rw [events_append]
        exact hq.append (quiet_look s1)
      · intro _ hft _
        subst hft
        unfold Cluster.retryIds
        have hlen : s1.cluster.shards.length = (s.cluster.offline failed).shards.length := by
          rw [Cluster.length_offline]
          exact hm.refs.length
        rw [Cluster.selectTargets_congr hlen hm.config hh]
  · refine wp_mono (wp_markWriteFailures placed failed tried location) fun ids s' t h => ⟨h.1, h.2.1, fun _ => ?_, fun h1 => absurd h1 hp⟩
    have hne : placed.isEmpty = false := by simpa using hp
    rw [h.2.2.2, hne]
    rfl

end Selection

/-! ## Rounds -/

def RawRefRegistry.Fits (refs : RawRefRegistry) (c : Cluster) : Prop :=
  ∀ x st, c.writable x = true → refs.get x = some st → c.storeRef x = some st

theorem Cluster.metaRef_eq_some {c : Cluster} {refs : RawRefRegistry} (hf : refs.Fits c) {x : ShardId} {st : StoreId}
    (hx : c.writable x = true) (h : c.metaRef refs x = some st) : c.storeRef x = some st := by
  unfold metaRef at h
  split at h
  · exact hf x st hx h
  · exact h

def Sys.takesMeta (s : Sys) (refs : RawRefRegistry) (location : Key) (payload metadata : Bytes) (x : ShardId) : Bool :=
  (failure (s.answerOf (s.cluster.metaRef refs x) (Store.putMeta (refs.kind x) location payload metadata)
    (metaError refs x))).isNone

/-- What the rounds of a write with metadata leave, when they were sent to `tried` and `placed` took it. -/
structure MetaPlaced (refs : RawRefRegistry) (location : Key) (payload metadata : Bytes) (tried placed : List ShardId)
    (s s' : Sys) : Prop where
  same : SameRefs s.cluster s'.cluster
  catalog : s'.cluster.catalog = s.cluster.catalog
  nodup : placed.Nodup
  took : ∀ x ∈ placed, x ∈ tried ∧ ∃ st, s.cluster.storeRef x = some st ∧
    ∃ o, (s'.stores st).objects.lookup location = some o ∧ o.body = payload
  ran : ∀ x ∈ placed, ∀ st, s.cluster.metaRef refs x = some st →
    (s.stores st).putMeta (refs.kind x) location payload metadata = (.ok (), s'.stores st)
  failed : ∀ x ∈ tried, x ∉ placed → ∀ st, s.cluster.metaRef refs x = some st →
    if (s.stores st).halfWritten (refs.kind x) metadata then ∃ o, (s'.stores st).objects.lookup location = some o
    else (s'.stores st).objects.lookup location = (s.stores st).objects.lookup location
  kept : ∀ st, (∀ x ∈ tried, s.cluster.metaRef refs x ≠ some st) → s'.stores st = s.stores st
  calls : ∀ st c, c ≠ .put → (s'.stores st).outcomes c = (s.stores st).outcomes c

structure MetaRan (refs : RawRefRegistry) (location : Key) (payload metadata : Bytes) (tried : List ShardId) (s s' : Sys) :
    Prop where
  kept : ∀ st, (∀ x ∈ tried, s.cluster.metaRef refs x ≠ some st) → s'.stores st = s.stores st
  ran : ∀ x ∈ tried, ∀ st, s.cluster.metaRef refs x = some st →
    s'.stores st = ((s.stores st).putMeta (refs.kind x) location payload metadata).2

variable {refs : RawRefRegistry} {tried placed : List ShardId}

theorem MetaRan.marked (h : MetaRan refs location payload metadata tried s s') (hm : Marked s' s'') :
    MetaRan refs location payload metadata tried s s'' where
  kept := by rw [hm.stores]; exact h.kept
  ran := by rw [hm.stores]; exact h.ran

theorem MetaPlaced.marked (h : MetaPlaced refs location payload metadata tried placed s s') (hm : Marked s' s'') :
    MetaPlaced refs location payload metadata tried placed s s'' where
  same := h.same.trans hm.refs
  catalog := hm.catalog.trans h.catalog
  nodup := h.nodup
  took := by rw [hm.stores]; exact h.took
  ran := by rw [hm.stores]; exact h.ran
  failed := by rw [hm.stores]; exact h.failed
  kept := by rw [hm.stores]; exact h.kept
  calls := by rw [hm.stores]; exact h.calls

/-- One round. -/
theorem wp_fanOutWithMeta {ids : List ShardId} (hnd : ids.Nodup) (hlt : ∀ x ∈ ids, x < s.cluster.shards.length)
    (href : ∀ x ∈ ids, ∀ st, s.cluster.metaRef refs x = some st → s.cluster.storeRef x = some st) :
    (fanOutWithMeta refs location payload metadata ids).wp (fun o s' _ =>
      Outcomes.accepted o = ids.filter (fun x => s.takesMeta refs location payload metadata x) ∧
      Outcomes.rejected o = ids.filter (fun x => !s.takesMeta refs location payload metadata x) ∧
      s'.cluster = s.cluster ∧ MetaPlaced refs location payload metadata ids (Outcomes.accepted o) s s' ∧
      MetaRan refs location payload metadata ids s s') s := by
  unfold fanOutWithMeta
  refine wp_mono (wp_eachStore hnd (s.cluster.metaRef refs)
    (fun x => Store.putMeta (refs.kind x) location payload metadata) (metaError refs) ?_ fun x hx s1 h1 => ?_) fun o s' t h => ?_
  · intro x hx y hy st hxs hys
    have h3 := (Cluster.storeRef_eq_some (href x hx st hxs)).1
    have h4 := (Cluster.storeRef_eq_some (href y hy st hys)).1
    exact s.cluster.config.storeOf.injective (h3.symm.trans h4)
  · rw [wp_bind, ← h1]
    refine wp_mono (wp_tryPutShard (by rw [h1]; exact hlt x hx)) fun r s2 t2 h2 => ?_
    obtain ⟨rfl, rfl⟩ := h2
    rw [wp_pure]
    exact ⟨rfl, rfl⟩
  · obtain ⟨rfl, hran⟩ := h
    have hacc : Outcomes.accepted (ids.map fun x => (x, s.answerOf (s.cluster.metaRef refs x)
        (Store.putMeta (refs.kind x) location payload metadata) (metaError refs x))) =
        ids.filter fun x => s.takesMeta refs location payload metadata x := accepted_map _ ids
    have hrej : Outcomes.rejected (ids.map fun x => (x, s.answerOf (s.cluster.metaRef refs x)
        (Store.putMeta (refs.kind x) location payload metadata) (metaError refs x))) =
        ids.filter fun x => !s.takesMeta refs location payload metadata x := rejected_map _ ids
    refine ⟨hacc, hrej, hran.cluster, ?_, hran.kept, hran.ran⟩
    rw [hacc]
    have hok : ∀ x st, s.takesMeta refs location payload metadata x = true → s.cluster.metaRef refs x = some st →
        ((s.stores st).putMeta (refs.kind x) location payload metadata).1 = .ok () := by
      intro x st ht hr
      unfold Sys.takesMeta Sys.answerOf at ht
      rw [hr] at ht
      dsimp only at ht
      generalize ((s.stores st).putMeta (refs.kind x) location payload metadata).1 = a at ht
      cases a with
      | ok u => rfl
      | error e => cases ht
    refine ⟨⟨by rw [hran.cluster], by rw [hran.cluster]⟩, by rw [hran.cluster], hnd.filter _, ?_, ?_, ?_, hran.kept, ?_⟩
    · intro x hx
      obtain ⟨hx, ht⟩ := List.mem_filter.mp hx
      refine ⟨hx, ?_⟩
      cases hr : s.cluster.metaRef refs x with
      | none => simp [Sys.takesMeta, Sys.answerOf, hr, failure] at ht
      | some st =>
        refine ⟨st, href x hx st hr, ?_⟩
        rw [hran.ran x hx st hr]
        exact Store.putMeta_ok (hok x st ht hr)
    · intro x hx st hr
      obtain ⟨hx, ht⟩ := List.mem_filter.mp hx
      exact Prod.ext (hok x st ht hr) (hran.ran x hx st hr).symm
    · intro x hx hn st hr
      have ht : ¬ s.takesMeta refs location payload metadata x = true := fun ht => hn (List.mem_filter.mpr ⟨hx, ht⟩)
      unfold Sys.takesMeta Sys.answerOf at ht
      rw [hran.ran x hx st hr]
      rw [hr] at ht
      dsimp only at ht
      cases ha : ((s.stores st).putMeta (refs.kind x) location payload metadata).1 with
      | ok u => simp [ha, failure] at ht
      | error e => exact Store.putMeta_error ha
    · intro st c hc
      by_cases hst : ∃ x ∈ ids, s.cluster.metaRef refs x = some st
      · obtain ⟨x, hx, hr⟩ := hst
        rw [hran.ran x hx st hr, Store.outcomes_putMeta _ _ hc]
      · rw [hran.kept st fun x hx hr => hst ⟨x, hx, hr⟩]

theorem SameRefs.metaRef {c c' : Cluster} (h : SameRefs c c') (refs : RawRefRegistry) (x : ShardId) :
    c'.metaRef refs x = c.metaRef refs x := by
  unfold Cluster.metaRef
  rw [h.storeRef]

/-- A round that nobody took, and then one on other shards. -/
theorem MetaPlaced.after {more : List ShardId} (h : MetaPlaced refs location payload metadata tried [] s s')
    (h' : MetaPlaced refs location payload metadata more placed s' s'')
    (hap : ∀ x ∈ tried, ∀ y ∈ more, ∀ st, s.cluster.metaRef refs x = some st → s.cluster.metaRef refs y ≠ some st) :
    MetaPlaced refs location payload metadata (tried ++ more) placed s s'' where
  same := h.same.trans h'.same
  catalog := h'.catalog.trans h.catalog
  nodup := h'.nodup
  took := fun x hx => by
    obtain ⟨h1, st, h2, h3⟩ := h'.took x hx
    rw [h.same.storeRef] at h2
    exact ⟨by simp [h1], st, h2, h3⟩
  ran := fun x hx st hst => by
    have hsame : s'.stores st = s.stores st := h.kept st fun y hy hys => hap y hy x (h'.took x hx).1 st hys hst
    have h1 := h'.ran x hx st (by rw [h.same.metaRef]; exact hst)
    rwa [hsame] at h1
  failed := fun x hx hn st hst => by
    rcases List.mem_append.mp hx with hx | hx
    · have hsame : s''.stores st = s'.stores st := h'.kept st fun y hy => by
        rw [h.same.metaRef]
        exact hap x hx y hy st hst
      rw [hsame]
      exact h.failed x hx (by simp) st hst
    · have hsame : s'.stores st = s.stores st := h.kept st fun y hy hys => hap y hy x hx st hys hst
      have h1 := h'.failed x hx hn st (by rw [h.same.metaRef]; exact hst)
      rwa [hsame] at h1
  kept := fun st hst => by
    rw [h'.kept st fun x hx => by rw [h.same.metaRef]; exact hst x (by simp [hx])]
    exact h.kept st fun x hx => hst x (by simp [hx])
  calls := fun st c hc => (h'.calls st c hc).trans (h.calls st c hc)

/-- Two rounds, on different stores. -/
theorem MetaRan.after {more : List ShardId} (h : MetaRan refs location payload metadata tried s s')
    (h' : MetaRan refs location payload metadata more s' s'') (hsame : SameRefs s.cluster s'.cluster)
    (hap : ∀ x ∈ tried, ∀ y ∈ more, ∀ st, s.cluster.metaRef refs x = some st → s.cluster.metaRef refs y ≠ some st) :
    MetaRan refs location payload metadata (tried ++ more) s s'' where
  kept := fun st hst => by
    rw [h'.kept st fun x hx => by rw [hsame.metaRef]; exact hst x (by simp [hx])]
    exact h.kept st fun x hx => hst x (by simp [hx])
  ran := fun x hx st hst => by
    rcases List.mem_append.mp hx with hx | hx
    · rw [h'.kept st fun y hy => by rw [hsame.metaRef]; exact hap x hx y hy st hst]
      exact h.ran x hx st hst
    · have hkept : s'.stores st = s.stores st := h.kept st fun y hy hys => hap y hy x hx st hys hst
      rw [h'.ran x hx st (by rw [hsame.metaRef]; exact hst), hkept]

/-! ## `put_with_meta` -/

section PutWithMeta

variable [Crates]

def Sys.metaRounds (s : Sys) (refs : RawRefRegistry) (location : Key) (payload metadata : Bytes) :
    List ShardId × List ShardId :=
  let takes := fun x => s.takesMeta refs location payload metadata x
  let targets := s.cluster.selectTargets location
  if targets.filter takes = [] then
    let retry := if targets = [] then [] else s.cluster.retryIds location targets
    (targets ++ retry, retry.filter takes)
  else (targets, targets.filter takes)

def MetaPutTo (refs : RawRefRegistry) (location : Key) (payload metadata : Bytes) (s : Sys) (r : Except Error Unit)
    (s' : Sys) : Prop :=
  let rounds := s.metaRounds refs location payload metadata
  match r with
  | .ok _ => ∃ mid, MetaPlaced refs location payload metadata rounds.1 rounds.2 s mid ∧
      s.cluster.config.minWrites ≤ rounds.2.length ∧
      s' = mid.tick.withCatalog (mid.cluster.catalog.put location rounds.2 payload.length (some (crc32c payload))
        (UInt16.ofNat metadata.length) mid.now)
  | .error (.insufficientWrites ..) =>
    ∃ mid, MetaPlaced refs location payload metadata rounds.1 rounds.2 s mid ∧ rounds.2 ≠ [] ∧
      Deleted mid s' rounds.2 [location, metaSidecarPath location] ∧ s'.cluster = mid.cluster ∧
      ((s.cluster.catalog.get location).isSome → s' = mid) ∧
      (s.cluster.catalog.get location = none → ∀ x ∈ rounds.2, ∀ st, s.cluster.storeRef x = some st →
        (s.stores st).Calm .delete 2 → (s'.stores st).objects.lookup location = none)
  | .error _ => s'.cluster.catalog = s.cluster.catalog

theorem wp_finishWithMeta {mid : Sys} {tried' placed' : List ShardId} {o : Outcomes}
    (h : MetaPlaced refs location payload metadata tried' placed' s mid)
    (hr : s.metaRounds refs location payload metadata = (tried', placed')) :
    (finishWithMeta location placed' o payload.length (crc32c payload) (UInt16.ofNat metadata.length)).wp
      (fun r s' _ => MetaPutTo refs location payload metadata s r s') mid := by
  unfold finishWithMeta
  split
  · rw [wp_pure]
    unfold lastFailure
    cases ((o.filter fun x => (failure x.2).isSome).getLast?.bind fun x => failure x.2) with
    | none => exact h.catalog
    | some e => exact h.catalog
  · next hne =>
    rw [List.isEmpty_iff] at hne
    rw [wp_bind, minWrites, wp_look, h.same.config]
    split
    · rw [wp_bind]
      refine wp_mono wp_cleanupOrphanedWrites fun _ s' t hc => ?_
      obtain ⟨h1, h2, -, h4, h5⟩ := hc
      rw [h.catalog] at h4 h5
      rw [wp_pure]
      unfold MetaPutTo
      rw [hr]
      refine ⟨mid, h, hne, h1, h2, h4, fun hn x hx st hst hcalm => ?_⟩
      refine h5 hn h.nodup x hx st (by rw [h.same.storeRef]; exact hst) ?_
      unfold Store.Calm
      rw [h.calls st .delete (by decide)]
      exact hcalm
    · next hge =>
      rw [wp_bind, catalogPut, wp_step, wp_pure]
      unfold MetaPutTo
      rw [hr]
      exact ⟨mid, h, Nat.le_of_not_lt hge, rfl⟩

/-- Two rounds of a write with metadata, and what comes after them. -/
theorem wp_metaRounds (hf : refs.Fits s.cluster) {α : Type} (g : List ShardId → Outcomes → ClusterM α) {Q : α → Sys → Prop}
    (hg : ∀ o mid,
      MetaPlaced refs location payload metadata (s.metaRounds refs location payload metadata).1
        (s.metaRounds refs location payload metadata).2 s mid →
      MetaRan refs location payload metadata (s.metaRounds refs location payload metadata).1 s mid →
      (g (s.metaRounds refs location payload metadata).2 o).wp (fun r s' _ => Q r s') mid) :
    (do
      let outcomes ← fanOutWithMeta refs location payload metadata (s.cluster.selectTargets location)
      let retryIds ← markWriteFailures outcomes.accepted outcomes.rejected (s.cluster.selectTargets location) location
      let retried ← if outcomes.accepted.isEmpty then fanOutWithMeta refs location payload metadata retryIds else pure []
      g (outcomes.accepted ++ retried.accepted) (outcomes ++ retried) : ClusterM α).wp (fun r s' _ => Q r s') s := by
  rw [wp_bind]
  have hw : ∀ x ∈ s.cluster.selectTargets location, s.cluster.writable x = true := fun x hx =>
    Cluster.writable_of_mem_selectTargets hx
  refine wp_mono (wp_fanOutWithMeta (s.cluster.nodup_selectTargets location)
    (fun x hx => Cluster.mem_writable_lt (hw x hx)) (fun x hx st => Cluster.metaRef_eq_some hf (hw x hx)))
    fun o s1 t1 h1 => ?_
  obtain ⟨hacc, hrej, hcl, hp, hran⟩ := h1
  rw [wp_bind]
  refine wp_mono (wp_markWriteFailures_ids _ _ _ _) fun ids s2 t2 h2 => ?_
  obtain ⟨hm, -, hnil, hnone⟩ := h2
  have hp2 := hp.marked hm
  have hran2 := hran.marked hm
  by_cases ha : Outcomes.accepted o = []
  · -- nobody took the first round: the second one goes to shards that were not tried
    have hids : ids = if s.cluster.selectTargets location = [] then []
        else s.cluster.retryIds location (s.cluster.selectTargets location) := by
      by_cases ht : s.cluster.selectTargets location = []
      · rw [if_pos ht]
        exact hnil (.inr (by rw [hrej, ht]; rfl))
      · rw [if_neg ht]
        rw [hcl] at hnone
        refine hnone ha ?_ ht
        rw [hrej]
        refine List.filter_eq_self.mpr fun x hx => ?_
        have h3 : x ∉ Outcomes.accepted o := by simp [ha]
        rw [hacc] at h3
        simpa [hx] using h3
    have hmem : ∀ x ∈ ids, s.cluster.writable x = true ∧ x ∉ s.cluster.selectTargets location := by
      intro x hx
      rw [hids] at hx
      split at hx
      · cases hx
      · exact Cluster.mem_retryIds hx
    have hids_nd : ids.Nodup := by
      rw [hids]
      split
      · exact List.nodup_nil
      · exact Cluster.nodup_retryIds _ _ _
    have hap : ∀ x ∈ s.cluster.selectTargets location, ∀ y ∈ ids, ∀ st,
        s.cluster.metaRef refs x = some st → s.cluster.metaRef refs y ≠ some st := by
      intro x hx y hy st hxs hys
      have h3 := (Cluster.storeRef_eq_some (Cluster.metaRef_eq_some hf (hw x hx) hxs)).1
      have h4 := (Cluster.storeRef_eq_some (Cluster.metaRef_eq_some hf (hmem y hy).1 hys)).1
      have h5 := s.cluster.config.storeOf.injective (h3.symm.trans h4)
      exact (hmem y hy).2 (h5 ▸ hx)
    have htakes : ∀ x ∈ ids, s2.takesMeta refs location payload metadata x = s.takesMeta refs location payload metadata x := by
      intro x hx
      unfold Sys.takesMeta Sys.answerOf
      rw [hp2.same.metaRef]
      cases hr : s.cluster.metaRef refs x with
      | none => rfl
      | some st =>
        have h3 : s2.stores st = s.stores st := hp2.kept st fun y hy hys => hap y hy x hx st hys hr
        dsimp only
        rw [h3]
    simp only [ha, List.isEmpty_nil, if_true]
    rw [wp_bind]
    refine wp_mono (wp_fanOutWithMeta hids_nd (fun x hx => ?_) (fun x hx st hst => ?_)) fun o2 s3 t3 h3 => ?_
    · rw [hp2.same.length]
      exact Cluster.mem_writable_lt (hmem x hx).1
    · rw [hp2.same.metaRef] at hst
      rw [hp2.same.storeRef]
      exact Cluster.metaRef_eq_some hf (hmem x hx).1 hst
    · obtain ⟨hacc3, -, -, hp3, hran3⟩ := h3
      rw [ha] at hp2
      have hall := hp2.after hp3 hap
      have hallRan := hran2.after hran3 hp2.same hap
      have hr : s.metaRounds refs location payload metadata =
          (s.cluster.selectTargets location ++ ids, Outcomes.accepted o2) := by
        unfold Sys.metaRounds
        dsimp only
        rw [← hacc, if_pos ha, ← hids, hacc3, List.filter_congr htakes]
      rw [hr] at hg
      exact hg _ _ hall hallRan
  · have hempty : (Outcomes.accepted o).isEmpty = false := by simpa using ha
    simp only [hempty, Bool.false_eq_true, if_false]
    rw [wp_bind, wp_pure]
    have hr : s.metaRounds refs location payload metadata = (s.cluster.selectTargets location, Outcomes.accepted o) := by
      unfold Sys.metaRounds
      dsimp only
      rw [← hacc, if_neg ha]
    have h4 : Outcomes.accepted o ++ Outcomes.accepted [] = Outcomes.accepted o := List.append_nil _
    rw [h4]
    rw [hr] at hg
    exact hg _ _ hp2 hran2

theorem wp_putWithMeta (hf : refs.Fits s.cluster) :
    (putWithMeta refs location payload metadata).wp (fun r s' _ =>
      MetaPutTo refs location payload metadata s r s') s := by
  unfold putWithMeta
  rw [wp_bind, readOnly, wp_look]
  split
  · rw [wp_pure]
    exact rfl
  rw [wp_bind, selectTargets, wp_look]
  exact wp_metaRounds hf
    (fun placed o => finishWithMeta location placed o payload.length (crc32c payload) (UInt16.ofNat metadata.length))
    (Q := fun r s' => MetaPutTo refs location payload metadata s r s') fun o mid h _ => wp_finishWithMeta h rfl

end PutWithMeta

end ObjStr.Sharded
