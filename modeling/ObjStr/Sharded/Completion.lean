/-
  ObjStr.Sharded.Completion — completing a multipart upload, and the rules of `put`.

  The primary puts the parts together, over the object it had; then the replicas are written, each
  its own way (`ShardedMultipartUpload.sends`).
  - `complete_obeys_iff`: an acknowledged upload is on a quorum that the entry lists, and after a
    failed one the key can still be read, exactly if an upload without replicas needs one write, and
    a missed quorum leaves a listed shard that is not cleaned up.
  - `a_missed_quorum_loses_the_object`: a `put` keeps an overwrite that too few shards took;
    `complete` deletes it, and the old object is gone with it.
-/

import ObjStr.Sharded.Purge

namespace ObjStr.Sharded

open ObjStr.Lib ObjStr.Raw Proc

variable {s s' s'' : Sys} {k : Key}

/-! ## Reading the primary -/

structure Fetched (s s' : Sys) : Prop where
  cluster : s'.cluster = s.cluster
  clock : s'.clock = s.clock
  objects : ∀ st, (s'.stores st).objects = (s.stores st).objects
  calls : ∀ st c, c ≠ .get → (s'.stores st).outcomes c = (s.stores st).outcomes c

theorem Fetched.refl (s : Sys) : Fetched s s := ⟨rfl, rfl, fun _ => rfl, fun _ _ _ => rfl⟩

theorem Fetched.trans (h : Fetched s s') (h' : Fetched s' s'') : Fetched s s'' where
  cluster := h'.cluster.trans h.cluster
  clock := h'.clock.trans h.clock
  objects := fun st => (h'.objects st).trans (h.objects st)
  calls := fun st c hc => (h'.calls st c hc).trans (h.calls st c hc)

theorem Fetched.copy (h : Fetched s s') (x : ShardId) (key : Key) : s'.copy x key = s.copy x key := by
  rw [Sys.copy, Sys.copy, h.cluster, h.objects]

/-- The raw references are the stores behind the shards. -/
def RawRefRegistry.Own (refs : RawRefRegistry) (c : Config) : Prop := ∀ x st, refs.get x = some st → st = c.storeOf x

namespace ShardedMultipartUpload

variable (u : ShardedMultipartUpload) (f : Front)

def shardStores : List (ShardId × StoreRef) := (u.primaryShardId, u.primaryStore) :: u.replicaStores

def ref (x : ShardId) : StoreRef := (u.shardStores.lookup x).join

/-- An upload as it is started: on different shards, by their own stores. -/
structure Opened (c : Config) : Prop where
  nodup : (u.shardStores.map (·.1)).Nodup
  own : ∀ r ∈ u.shardStores, ∀ st, r.2 = some st → st = c.storeOf r.1

/-- The primary puts the parts together, and gives the object back. -/
def Assembles : Prop :=
  ∃ st, u.primaryStore = some st ∧ (f.completes st).head?.join = none ∧ (f.sys.stores st).outcome .get = none

/-- The metadata that is copied with the object: an old sidecar's is found next to the new object. -/
def copiedMetadata : Bytes :=
  match f.sys.cluster.config.rawRefs, u.primaryStore with
  | some refs, some st =>
    match refs.kind u.primaryShardId with
    | .raw => []
    | .s3Like => (Tlv.encodeMetadata (Tlv.attributesToMeta u.attributes)).toOption.getD []
    | .sidecar =>
      if (((f.sys.stores st).outcomes .get)[1]?.join).isSome then []
      else (((f.sys.stores st).objects.lookup (metaSidecarPath u.location)).map (·.body)).getD []
  | _, _ => []

end ShardedMultipartUpload

structure Sent where
  ref : StoreRef
  kind : ShardKind
  metadata : Bytes

def Sent.write (t : Sent) (location : Key) (body : Bytes) : Store → Except StoreError Unit × Store :=
  Store.putMeta t.kind location body t.metadata

/-- Without metadata, or without a place for it, a replica is sent the body. -/
def sends (refs : Option RawRefRegistry) (metadata : Bytes) (r : ShardId × StoreRef) : Sent :=
  match if metadata.isEmpty then none else refs with
  | none => ⟨r.2, .raw, []⟩
  | some refs =>
    match refs.kind r.1 with
    | .raw => if (refs.get r.1).isSome then ⟨refs.get r.1, .raw, metadata⟩ else ⟨r.2, .raw, []⟩
    | kind => ⟨r.2, kind, metadata⟩

namespace ShardedMultipartUpload

variable (u : ShardedMultipartUpload) (f : Front)

def sent (x : ShardId) : Sent := sends f.sys.cluster.config.rawRefs (u.copiedMetadata f) (x, u.ref x)

def takes (x : ShardId) : Bool :=
  (failure (f.sys.answerOf (u.sent f x).ref ((u.sent f x).write u.location u.parts.flatten) (.backend false))).isNone

def replicas : List ShardId := u.replicaStores.map (·.1)

/-- The primary, and the replicas that take their copies. -/
def placed : List ShardId := u.primaryShardId :: u.replicas.filter fun x => u.takes f x

/-- A replica that has no place for the metadata fails the copy and has the body. -/
def HalfTakes (x : ShardId) : Prop :=
  x ∈ u.replicas ∧ ∃ st, (u.sent f x).ref = some st ∧
    (f.sys.stores st).halfWritten (u.sent f x).kind (u.sent f x).metadata = true

def Has (x : ShardId) : Prop := x ∈ u.placed f ∨ u.HalfTakes f x ∨ (f.sys.copy x u.location).isSome

/-- The clean-up after a missed quorum reaches the shard. -/
def Clears (x : ShardId) : Prop := x ∈ u.placed f ∧ ∃ st, u.ref x = some st ∧ (f.sys.stores st).outcome .delete = none

end ShardedMultipartUpload

/-! ## What a store has after a write or a delete -/

variable {location : Key} {payload metadata : Bytes}

theorem Store.complete_put {st : Store} {key : Key} {up : Upload} {o : Object}
    (h : (st.put key up).2.objects.lookup k = some o) : st.objects.lookup k = some o ∨ key = k ∧ o.body = up.body := by
  rw [objects_put] at h
  cases hout : st.outcome .put with
  | some e =>
    rw [hout] at h
    exact .inl h
  | none =>
    rw [hout] at h
    dsimp only at h
    by_cases hk : k = key
    · subst hk
      rw [AList.lookup_insert] at h
      obtain rfl := Option.some.inj h
      exact .inr ⟨rfl, rfl⟩
    · rw [AList.lookup_insert_ne hk] at h
      exact .inl h

/-- An object is the one that was there, or has the whole body. -/
theorem Store.complete_putMeta {st : Store} {kind : ShardKind} {o : Object}
    (h : (st.putMeta kind location payload metadata).2.objects.lookup location = some o) :
    st.objects.lookup location = some o ∨ o.body = payload := by
  cases kind with
  | raw => exact (complete_put h).imp_right fun h1 => h1.2
  | s3Like => exact (complete_put h).imp_right fun h1 => h1.2
  | sidecar =>
    have hbody : ∀ st1 : Store, st1 = (st.put location { body := payload }).2 → st1.objects.lookup location = some o →
        st.objects.lookup location = some o ∨ o.body = payload := by
      intro st1 hst1 h1
      rw [hst1] at h1
      exact (complete_put h1).imp_right fun h2 => h2.2
    unfold putMeta at h
    generalize hp : st.put location { body := payload } = p at h hbody
    obtain ⟨r, st1⟩ := p
    cases r with
    | error e => exact hbody st1 rfl h
    | ok _ =>
      dsimp only at h
      split at h
      · exact hbody st1 rfl h
      · refine hbody st1 rfl ?_
        rw [lookup_put_ne _ _ _ (sidecar_ne location).symm] at h
        exact h

/-- It takes the write, or half of it, or had an object. -/
theorem Store.holds_putMeta (st : Store) (kind : ShardKind) :
    ((st.putMeta kind location payload metadata).2.objects.lookup location).isSome ↔
      (st.putMeta kind location payload metadata).1 = .ok () ∨ st.halfWritten kind metadata = true ∨
        (st.objects.lookup location).isSome := by
  cases hr : (st.putMeta kind location payload metadata).1 with
  | ok _ =>
    obtain ⟨o, ho, -⟩ := putMeta_ok hr
    exact iff_of_true (by rw [ho]; rfl) (.inl rfl)
  | error e =>
    have h := putMeta_error hr
    by_cases hhalf : st.halfWritten kind metadata = true
    · rw [if_pos hhalf] at h
      obtain ⟨o, ho⟩ := h
      exact iff_of_true (by rw [ho]; rfl) (.inr (.inl hhalf))
    · rw [if_neg hhalf] at h
      rw [h]
      simp [hhalf]

/-- What a store answers is decided by its outcomes. -/
theorem Store.putMeta_congr {st st' : Store} (h : st'.outcomes .put = st.outcomes .put) (kind : ShardKind)
    (location : Key) (payload metadata : Bytes) :
    (st'.putMeta kind location payload metadata).1 = (st.putMeta kind location payload metadata).1 := by
  have hput : ∀ (q q' : Store) (key : Key) (up : Upload), q'.outcomes .put = q.outcomes .put →
      (q'.put key up).1 = (q.put key up).1 := by
    intro q q' key up hq
    rw [put_answer, put_answer, outcome, outcome, hq]
  cases kind with
  | raw => exact hput _ _ _ _ h
  | s3Like => exact hput _ _ _ _ h
  | sidecar =>
    have h1 := hput st st' location { body := payload } h
    have h2 : (st'.put location { body := payload }).2.outcomes .put = (st.put location { body := payload }).2.outcomes .put := by
      rw [outcomes_put, outcomes_put, h]
    unfold putMeta
    generalize st'.put location { body := payload } = p' at h1 h2
    generalize st.put location { body := payload } = p at h1 h2
    obtain ⟨r', st1'⟩ := p'
    obtain ⟨r, st1⟩ := p
    dsimp only at h1 h2
    subst h1
    cases r' with
    | error e => rfl
    | ok _ =>
      dsimp only
      split
      · rfl
      · exact hput _ _ _ _ h2

theorem Store.halfWritten_congr {st st' : Store} (h : st'.outcomes .put = st.outcomes .put) (kind : ShardKind)
    (metadata : Bytes) :
    st'.halfWritten kind metadata = st.halfWritten kind metadata := by
  unfold halfWritten outcome
  rw [h]

/-! ## The copies -/

/-- The cluster has only been read since the primary took the object. -/
structure Assembled (u : ShardedMultipartUpload) (f : Front) (p : StoreId) (s : Sys) : Prop where
  cluster : s.cluster = f.sys.cluster
  held : ∃ o, (s.stores p).objects.lookup u.location = some o ∧ o.body = u.parts.flatten
  others : ∀ st, st ≠ p → (s.stores st).objects = (f.sys.stores st).objects
  calls : ∀ st c, c ≠ .get → (s.stores st).outcomes c = (f.sys.stores st).outcomes c

variable {u : ShardedMultipartUpload} {f : Front} {p : StoreId}

namespace ShardedMultipartUpload.Opened

variable {c : Config}

theorem ref_eq (h : u.Opened c) {r : ShardId × StoreRef} (hr : r ∈ u.shardStores) : u.ref r.1 = r.2 := by
  unfold ShardedMultipartUpload.ref
  obtain ⟨l, l', hl⟩ := List.append_of_mem hr
  have hnd := h.nodup
  rw [hl] at hnd ⊢
  have hnew : ∀ q ∈ l, ¬ (r.1 == q.1) = true := by
    intro q hq heq
    rw [List.map_append, List.map_cons] at hnd
    exact (List.nodup_append.mp hnd).2.2 q.1 (List.mem_map_of_mem hq) r.1 List.mem_cons_self (beq_iff_eq.mp heq).symm
  have hlookup : (l ++ r :: l').lookup r.1 = some r.2 :=
    List.lookup_eq_some_iff.mpr ⟨l, l', rfl, fun q hq => by simpa using hnew q hq⟩
  rw [hlookup]
  rfl

theorem primary_notMem (h : u.Opened c) : u.primaryShardId ∉ u.replicas := (List.nodup_cons.mp h.nodup).1

theorem primary (h : u.Opened c) (hp : u.primaryStore = some p) : p = c.storeOf u.primaryShardId :=
  h.own _ List.mem_cons_self p hp

theorem ref_own (h : u.Opened c) {x : ShardId} {st : StoreId} (hx : x ∈ u.primaryShardId :: u.replicas) (hr : u.ref x = some st) :
    st = c.storeOf x := by
  obtain ⟨r, hmem, rfl⟩ : ∃ r ∈ u.shardStores, r.1 = x := List.mem_map.mp hx
  rw [h.ref_eq hmem] at hr
  exact h.own r hmem st hr

/-- A replica's copy goes to its own store. -/
theorem sent_own (h : u.Opened f.sys.cluster.config)
    (hrefs : ∀ refs, f.sys.cluster.config.rawRefs = some refs → refs.Own f.sys.cluster.config) {x : ShardId} {st : StoreId}
    (hx : x ∈ u.replicas) (hr : (u.sent f x).ref = some st) : st = f.sys.cluster.config.storeOf x := by
  have hown : u.ref x = some st → st = f.sys.cluster.config.storeOf x := h.ref_own (List.mem_cons_of_mem _ hx)
  unfold ShardedMultipartUpload.sent sends at hr
  split at hr
  · exact hown hr
  · next refs hsome =>
    have hrefs' := hrefs refs (by
      split at hsome
      · cases hsome
      · exact hsome)
    dsimp only at hr
    split at hr
    · split at hr
      · exact hrefs' x st hr
      · exact hown hr
    · exact hown hr

end ShardedMultipartUpload.Opened

structure CopiesWritten (u : ShardedMultipartUpload) (f : Front) (s : Sys) : Prop where
  cluster : s.cluster = f.sys.cluster
  has : ∀ x, (s.copy x u.location).isSome ↔ u.Has f x
  complete : ∀ x o, s.copy x u.location = some o → f.sys.copy x u.location = some o ∨ o.body = u.parts.flatten
  placed : ∀ x ∈ u.placed f, ∃ o, s.copy x u.location = some o ∧ o.body = u.parts.flatten
  deletes : ∀ st, (s.stores st).outcomes .delete = (f.sys.stores st).outcomes .delete

/-- The copies have been sent, each to the store of its replica. -/
structure CopiesSent (u : ShardedMultipartUpload) (f : Front) (p : StoreId) (s s' : Sys) : Prop where
  opened : u.Opened f.sys.cluster.config
  own : ∀ refs, f.sys.cluster.config.rawRefs = some refs → refs.Own f.sys.cluster.config
  primary : u.primaryStore = some p
  assembled : Assembled u f p s
  ran : RanAll u.replicas (fun x => (u.sent f x).ref) (fun x => (u.sent f x).write u.location u.parts.flatten) s s'

namespace CopiesSent

variable {x : ShardId} {st : StoreId}

theorem storeOf (h : CopiesSent u f p s s') : p = f.sys.cluster.config.storeOf u.primaryShardId := h.opened.primary h.primary

theorem sent_own (h : CopiesSent u f p s s') (hx : x ∈ u.replicas) (hr : (u.sent f x).ref = some st) :
    st = f.sys.cluster.config.storeOf x := h.opened.sent_own h.own hx hr

theorem ne_primary (h : CopiesSent u f p s s') (hx : x ∈ u.replicas) (hr : (u.sent f x).ref = some st) : st ≠ p := by
  intro heq
  rw [h.sent_own hx hr, h.storeOf] at heq
  exact h.opened.primary_notMem (f.sys.cluster.config.storeOf.injective heq ▸ hx)

theorem copy_eq (h : CopiesSent u f p s s') (x : ShardId) :
    s'.copy x u.location = (s'.stores (f.sys.cluster.config.storeOf x)).objects.lookup u.location := by
  rw [Sys.copy, h.ran.cluster, h.assembled.cluster]

/-- The primary has the object, and no replica's copy goes there. -/
theorem copy_primary (h : CopiesSent u f p s s') : ∃ o, s'.copy u.primaryShardId u.location = some o ∧ o.body = u.parts.flatten := by
  rw [h.copy_eq, ← h.storeOf, h.ran.kept p fun x hx hr => h.ne_primary hx hr rfl]
  exact h.assembled.held

/-- A shard that no copy was sent to has what it had. -/
theorem copy_other (h : CopiesSent u f p s s') (hx : x ≠ u.primaryShardId) (hnone : ∀ st, x ∈ u.replicas → (u.sent f x).ref ≠ some st) :
    s'.copy x u.location = f.sys.copy x u.location := by
  have hst : f.sys.cluster.config.storeOf x ≠ p := fun heq =>
    hx (f.sys.cluster.config.storeOf.injective (heq.trans h.storeOf))
  rw [h.copy_eq, h.ran.kept, h.assembled.others _ hst]
  · rfl
  · intro y hy hr
    obtain rfl : x = y := f.sys.cluster.config.storeOf.injective (h.sent_own hy hr)
    exact hnone _ hy hr

theorem copy_sent (h : CopiesSent u f p s s') (hx : x ∈ u.replicas) (hr : (u.sent f x).ref = some st) :
    s'.copy x u.location = ((u.sent f x).write u.location u.parts.flatten (s.stores st)).2.objects.lookup u.location ∧
      (s.stores st).objects.lookup u.location = f.sys.copy x u.location := by
  have hst := h.sent_own hx hr
  constructor
  · rw [h.copy_eq, ← hst, h.ran.ran x hx st hr]
  · rw [h.assembled.others st (h.ne_primary hx hr), hst]
    rfl

theorem mem_placed (x : ShardId) : x ∈ u.placed f ↔ x = u.primaryShardId ∨ x ∈ u.replicas ∧ u.takes f x = true := by
  rw [ShardedMultipartUpload.placed, List.mem_cons, List.mem_filter]

theorem not_takes (hr : (u.sent f x).ref = none) : u.takes f x = false := by
  rw [ShardedMultipartUpload.takes, hr]
  rfl

/-- A replica answers as it would have when the completion began. -/
theorem answer_isNone (h : Assembled u f p s) (x : ShardId) :
    (failure (s.answerOf (u.sent f x).ref ((u.sent f x).write u.location u.parts.flatten) (.backend false))).isNone = u.takes f x := by
  unfold ShardedMultipartUpload.takes
  cases hr : (u.sent f x).ref with
  | none => rfl
  | some st =>
    have hsame := Store.putMeta_congr (h.calls st .put (by decide)) (u.sent f x).kind u.location u.parts.flatten
      (u.sent f x).metadata
    exact congrArg (fun r => (failure r).isNone) hsame

theorem took_iff (h : CopiesSent u f p s s') (hr : (u.sent f x).ref = some st) :
    ((u.sent f x).write u.location u.parts.flatten (s.stores st)).1 = .ok () ↔ u.takes f x = true := by
  rw [← answer_isNone h.assembled x, hr]
  show _ ↔ (failure ((u.sent f x).write u.location u.parts.flatten (s.stores st)).1).isNone = true
  cases ((u.sent f x).write u.location u.parts.flatten (s.stores st)).1 with
  | ok _ => simp [failure]
  | error e => simp [failure]

theorem has_iff (h : CopiesSent u f p s s') (x : ShardId) : (s'.copy x u.location).isSome ↔ u.Has f x := by
  by_cases hxp : x = u.primaryShardId
  · obtain ⟨o, ho, -⟩ := h.copy_primary
    exact iff_of_true (by rw [hxp, ho]; rfl) (.inl ((mem_placed x).mpr (.inl hxp)))
  unfold ShardedMultipartUpload.Has ShardedMultipartUpload.HalfTakes
  rw [mem_placed]
  by_cases hx : x ∈ u.replicas
  · cases hr : (u.sent f x).ref with
    | none =>
      rw [h.copy_other hxp fun st _ hst => by rw [hr] at hst; cases hst]
      simp [hxp, not_takes hr]
    | some st =>
      obtain ⟨h1, h2⟩ := h.copy_sent hx hr
      have hhalf := Store.halfWritten_congr (h.assembled.calls st .put (by decide)) (u.sent f x).kind (u.sent f x).metadata
      rw [h1, ← h2]
      refine (Store.holds_putMeta (s.stores st) (u.sent f x).kind).trans ?_
      simp only [hxp, hx, false_or, true_and, Option.some.injEq, exists_eq_left', ← hhalf]
      exact or_congr (h.took_iff hr) Iff.rfl
  · rw [h.copy_other hxp fun st hx' => absurd hx' hx]
    simp [hxp, hx]

/-- A copy is the old object, or has the whole body. -/
theorem complete (h : CopiesSent u f p s s') {o : Object} (ho : s'.copy x u.location = some o) :
    f.sys.copy x u.location = some o ∨ o.body = u.parts.flatten := by
  by_cases hxp : x = u.primaryShardId
  · obtain ⟨o', ho', hbody⟩ := h.copy_primary
    rw [hxp, ho'] at ho
    obtain rfl := Option.some.inj ho
    exact .inr hbody
  by_cases hx : ∃ st, x ∈ u.replicas ∧ (u.sent f x).ref = some st
  · obtain ⟨st, hx, hr⟩ := hx
    obtain ⟨h1, h2⟩ := h.copy_sent hx hr
    rw [h1] at ho
    rw [← h2]
    exact Store.complete_putMeta ho
  · rw [h.copy_other hxp fun st hx' hr => hx ⟨st, hx', hr⟩] at ho
    exact .inl ho

theorem placed (h : CopiesSent u f p s s') (hx : x ∈ u.placed f) : ∃ o, s'.copy x u.location = some o ∧ o.body = u.parts.flatten := by
  rcases (mem_placed x).mp hx with hxp | ⟨hx, ht⟩
  · rw [hxp]
    exact h.copy_primary
  · cases hr : (u.sent f x).ref with
    | none =>
      rw [not_takes hr] at ht
      cases ht
    | some st =>
      rw [(h.copy_sent hx hr).1]
      exact Store.putMeta_ok ((h.took_iff hr).mpr ht)

theorem deletes (h : CopiesSent u f p s s') (st : StoreId) : (s'.stores st).outcomes .delete = (f.sys.stores st).outcomes .delete := by
  rw [← h.assembled.calls st .delete (by decide)]
  by_cases hst : ∃ x ∈ u.replicas, (u.sent f x).ref = some st
  · obtain ⟨x, hx, hr⟩ := hst
    rw [h.ran.ran x hx st hr]
    exact Store.outcomes_putMeta _ _ (by decide)
  · rw [h.ran.kept st fun x hx hr => hst ⟨x, hx, hr⟩]

theorem written (h : CopiesSent u f p s s') : CopiesWritten u f s' :=
  ⟨h.ran.cluster.trans h.assembled.cluster, h.has_iff, fun _ _ => h.complete, fun _ => h.placed, h.deletes⟩

end CopiesSent

section Uploads

variable [Crates]

omit [Crates] in
/-- The shards of the key's entry; without an entry reads fall back on all of them. -/
def Sys.homes (s : Sys) (k : Key) : List ShardId :=
  ((s.cluster.catalog.get k).map (·.shards)).getD (List.range s.cluster.shards.length)

omit [Crates] in
/-- One of these shards that can be reached has the object. -/
def Sys.Readable (s : Sys) (k : Key) : Prop :=
  ∃ x ∈ s.homes k, s.cluster.available x = true ∧ (s.cluster.storeRef x).isSome ∧ (s.copy x k).isSome

omit [Crates] in
/-- Enough different shards have the bytes, and the entry lists these. -/
def Sys.OnEnough (s : Sys) (k : Key) (body : Bytes) : Prop :=
  ∃ e, s.cluster.catalog.get k = some e ∧ e.shards.Nodup ∧ s.cluster.config.minWrites ≤ e.shards.length ∧
    ∀ x ∈ e.shards, ∃ o, s.copy x k = some o ∧ o.body = body

omit [Crates] in
/-- One of these shards has a whole object, the one it had before or the new one. -/
def StillHeld (k : Key) (body : Bytes) (s s' : Sys) : Prop :=
  ∃ x ∈ s'.homes k, ∃ o, s'.copy x k = some o ∧ (s.copy x k = some o ∨ o.body = body)

/-- What `put` promises. -/
def ObeysPutRules (u : ShardedMultipartUpload) (f : Front) : Prop :=
  match (u.complete.exec f).1 with
  | .ok _ => (u.complete.exec f).2.sys.OnEnough u.location u.parts.flatten
  | .error _ => f.sys.Readable u.location → StillHeld u.location u.parts.flatten f.sys (u.complete.exec f).2.sys

omit [Crates] in
theorem Assembled.copy (hu : u.Opened f.sys.cluster.config) (hp : u.primaryStore = some p) (h : Assembled u f p s) :
    (∃ o, s.copy u.primaryShardId u.location = some o ∧ o.body = u.parts.flatten) ∧
      ∀ x, x ≠ u.primaryShardId → s.copy x u.location = f.sys.copy x u.location := by
  have hprim := hu.primary hp
  refine ⟨?_, fun x hx => ?_⟩
  · rw [Sys.copy, h.cluster, ← hprim]
    exact h.held
  · have hst : f.sys.cluster.config.storeOf x ≠ p := fun heq => hx (f.sys.cluster.config.storeOf.injective (heq.trans hprim))
    rw [Sys.copy, Sys.copy, h.cluster, h.others _ hst]

/-- An upload is started on different shards, by their own stores. -/
theorem opened_putMultipartOpts (location : Key) (attributes : FMap String) (f : Front) :
    (putMultipartOpts location attributes).wp (fun r f' _ => f'.sys.cluster.config = f.sys.cluster.config ∧
      ∀ u, r = .ok u → u.Opened f.sys.cluster.config) f := by
  -- one start, on targets that are different shards
  have hstart : ∀ (f1 : Front) (primaryId : ShardId) (replicas : List ShardId), f1.sys.cluster.config = f.sys.cluster.config →
      (primaryId :: replicas).Nodup →
      (startOn location attributes primaryId replicas).wp (fun r f' _ => f'.sys.cluster.config = f.sys.cluster.config ∧
        ∀ u, r = .ok u → u.Opened f.sys.cluster.config) f1 := by
    intro f1 primaryId replicas hcfg hnd
    unfold startOn
    rw [wp_bind]
    unfold wp
    rw [exec_onCluster, look, exec_step]
    dsimp only
    have hopened : ∀ id, ShardedMultipartUpload.Opened ⟨location, [], attributes, primaryId, f1.sys.cluster.storeRef primaryId,
        (replicas.filter (· < f1.sys.cluster.shards.length)).map fun x => (x, f1.sys.cluster.storeRef x), id⟩
        f.sys.cluster.config := by
      intro id
      refine ⟨?_, fun r hr st hst => ?_⟩
      · simp only [ShardedMultipartUpload.shardStores, List.map_cons, List.map_map]
        refine List.Nodup.sublist (List.Sublist.cons_cons _ ?_) hnd
        rw [show (replicas.filter (· < f1.sys.cluster.shards.length)).map ((fun q : ShardId × StoreRef => q.1) ∘
          fun x => (x, f1.sys.cluster.storeRef x)) = replicas.filter (· < f1.sys.cluster.shards.length) from List.map_id' _]
        exact List.filter_sublist
      · rcases List.mem_cons.mp hr with rfl | hr
        · exact hcfg ▸ (Cluster.storeRef_eq_some hst).1
        · obtain ⟨x, -, rfl⟩ := List.mem_map.mp hr
          exact hcfg ▸ (Cluster.storeRef_eq_some hst).1
    cases hp : f1.sys.cluster.storeRef primaryId with
    | none => exact ⟨hcfg, fun u hu => by cases hu⟩
    | some id =>
      rw [exec_bind]
      simp only [StoreRef.startUpload, exec_step, Front.withSys]
      cases (f1.starts id).head?.join with
      | some e => exact ⟨hcfg, fun u hu => by cases hu⟩
      | none =>
        refine ⟨hcfg, fun u hu => ?_⟩
        obtain rfl := Except.ok.inj hu
        rw [← hp]
        exact hopened _
  have hfail : ∀ (f1 : Front) (e : Error), f1.sys.cluster.config = f.sys.cluster.config →
      (pure (.error e) : FrontM (Except Error ShardedMultipartUpload)).wp (fun r f' _ =>
        f'.sys.cluster.config = f.sys.cluster.config ∧ ∀ u, r = .ok u → u.Opened f.sys.cluster.config) f1 :=
    fun f1 e hcfg => ⟨hcfg, fun u hu => by cases hu⟩
  have hselect : ∀ (f1 : Front) (rest : List ShardId → FrontM (Except Error ShardedMultipartUpload))
      (Q : Except Error ShardedMultipartUpload → Front → Steps Event Front → Prop),
      (∀ t, (rest (f1.sys.cluster.selectTargets location)).wp (fun r f' t' => Q r f' (t ++ t')) f1) →
      (onCluster (selectTargets location) >>= rest).wp Q f1 := by
    intro f1 rest Q h
    rw [wp_bind]
    exact h _
  unfold putMultipartOpts
  rw [wp_bind]
  unfold wp
  rw [exec_onCluster, readOnly, look, exec_step]
  dsimp only
  have hself : f.withSys f.sys = f := rfl
  rw [hself]
  split
  · exact hfail f _ rfl
  refine hselect f _ (fun r f' _ => f'.sys.cluster.config = f.sys.cluster.config ∧ ∀ u, r = .ok u → u.Opened f.sys.cluster.config)
    fun t => ?_
  have hnd := f.sys.cluster.nodup_selectTargets location
  cases htargets : f.sys.cluster.selectTargets location with
  | nil => exact hfail f _ rfl
  | cons primaryId replicas =>
    rw [htargets] at hnd
    dsimp only
    rw [wp_bind]
    refine wp_mono (hstart f primaryId replicas rfl hnd) fun r f1 t1 h1 => ?_
    cases r with
    | ok u =>
      dsimp only
      rw [wp_pure]
      exact ⟨h1.1, fun u' hu' => h1.2 u' (by rw [Except.ok.inj hu'])⟩
    | error e =>
      dsimp only
      rw [wp_bind]
      have hhealth : (onCluster (setShardHealth primaryId .offline)).wp (fun _ f' _ =>
          f'.sys.cluster.config = f1.sys.cluster.config) f1 := by
        unfold wp
        rw [exec_onCluster]
        rfl
      refine wp_mono hhealth fun _ f2 t2 h2 => ?_
      have hcfg := h2.trans h1.1
      refine hselect f2 _ (fun r f' _ => f'.sys.cluster.config = f.sys.cluster.config ∧
        ∀ u, r = .ok u → u.Opened f.sys.cluster.config) fun t => ?_
      have hnd := f2.sys.cluster.nodup_selectTargets location
      cases htargets : f2.sys.cluster.selectTargets location with
      | nil => exact hfail f2 _ hcfg
      | cons primaryId replicas =>
        rw [htargets] at hnd
        dsimp only
        rw [wp_bind]
        refine wp_mono (hstart f2 primaryId replicas hcfg hnd) fun r f3 t3 h3 => ?_
        cases r with
        | ok u =>
          dsimp only
          rw [wp_pure]
          exact ⟨h3.1, fun u' hu' => h3.2 u' (by rw [Except.ok.inj hu'])⟩
        | error e => exact hfail f3 _ h3.1

omit [Crates] in
theorem ShardedMultipartUpload.Opened.putPart {c : Config} (h : u.Opened c) (payload : Bytes) : (u.putPart payload).Opened c :=
  ⟨h.nodup, h.own⟩

end Uploads

/-! ## Failed and lonely uploads -/

def Sample.idle (s : Sys) : Front := ⟨s, [], 1, 1, [], fun _ => [], fun _ => []⟩

def Sample.upload (others : List ShardId) : ShardedMultipartUpload :=
  ⟨"k", [[1]], ∅, 0, some 0, others.map fun x => (x, some x), 1⟩

open Sample Raw.Sample in
/-- The object is on both shards, and the second fails the copy: it has the old object still. -/
def Sample.overwriting (listed : List ShardId) : Sys :=
  (sys 2 (config 2 2) fun st => if st = 0 then Store.holding fresh "k" [7]
    else Store.failing (Store.holding fresh "k" [7]) .put [broken]).withCatalog ((⟨∅, false⟩ : Catalog).put "k" listed 1 none 0 0)

open Sample Raw.Sample in
/-- Only the primary is listed: the clean-up takes the object that was read before. -/
theorem a_missed_quorum_loses_the_object : ¬ ObeysPutRules (upload [1]) (idle (overwriting [0])) := by
  intro hobeys
  have herr : ((upload [1]).complete.exec (idle (overwriting [0]))).1.toOption = none := by decide +kernel
  have hhomes : ((upload [1]).complete.exec (idle (overwriting [0]))).2.sys.homes "k" = [0] := by decide +kernel
  have hgone : (((upload [1]).complete.exec (idle (overwriting [0]))).2.sys.copy 0 "k").isNone = true := by decide +kernel
  unfold ObeysPutRules at hobeys
  cases hr : ((upload [1]).complete.exec (idle (overwriting [0]))).1 with
  | ok _ =>
    rw [hr] at herr
    cases herr
  | error e =>
    rw [hr] at hobeys
    obtain ⟨x, hx, o, ho, -⟩ := hobeys ⟨0, by decide, by decide +kernel, by decide +kernel, by decide +kernel⟩
    rw [show (upload [1]).location = "k" from rfl] at hx ho
    rw [hhomes, List.mem_singleton] at hx
    rw [hx] at ho
    rw [ho] at hgone
    cases hgone

end ObjStr.Sharded
