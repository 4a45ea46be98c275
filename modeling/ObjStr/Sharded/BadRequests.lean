/-
  ObjStr.Sharded.BadRequests — writes that every shard rejects because of the request: an empty
  payload, a key that is too long, metadata that is too large.

  A raw store rejects such a write before it touches anything (`raw_rejects`), and so does a shard that answers as
  it (`Request.refused_of_raw`). The cluster does
  not tell it from a device that is gone: the targets are marked offline, the write is
  retried on the other shards, and these are marked offline too
  (`an_empty_payload_takes_all_shards_offline`). `refused_write_keeps_shards_iff`: the shards
  stay as they are exactly when none is asked.
-/

import ObjStr.Sharded.Rounds
import ObjStr.Raw.Store

namespace ObjStr.Sharded

open ObjStr.Lib ObjStr.Raw Proc

/-! ## What a raw store rejects -/

section Requests

variable [Crates] {s s' : Sys} {k : Key} {p m : Bytes} {refs : RawRefRegistry}

def refusal (maxKeyLength : Nat) (key : Key) (body metadata : Bytes) : Option RawStoreError :=
  if u16Max < metadata.length then some (.metadataTooLarge metadata.length u16Max)
  else if body ++ metadata = [] then some .emptyPayload
  else if maxKeyLength < keyLen key then some (.keyTooLong (keyLen key) maxKeyLength)
  else none

/-- A raw store rejects the request and stays as it is. -/
theorem raw_rejects {st : Raw.Store} {now : DateTime} {e : RawStoreError} (hro : st.readOnly = false)
    (h : refusal st.maxKeyLength k p m = some e) : (Raw.putWithMeta now k p m).exec st = (.error e, st) := by
  unfold refusal at h
  unfold Raw.putWithMeta
  rw [Prog.exec_bind, Prog.exec_failIf]
  split at h
  · next hmeta =>
    rw [if_pos hmeta]
    cases h
    rfl
  · next hmeta =>
    rw [if_neg hmeta]
    dsimp only
    unfold doPutWithMeta
    rw [Prog.exec_bind, Prog.exec_get]
    dsimp only
    rw [Prog.exec_bind, Prog.exec_failIf, if_neg (by rw [hro]; decide)]
    dsimp only
    rw [Prog.exec_bind, Prog.exec_failIf]
    split at h
    · next hempty =>
      rw [if_pos hempty]
      cases h
      rfl
    · next hempty =>
      rw [if_neg hempty]
      dsimp only
      rw [Prog.exec_bind, Prog.exec_failIf]
      split at h
      · next hlen =>
        rw [if_pos hlen]
        cases h
        rfl
      · cases h

def Store.Refuses (st : Store) : Prop := ∀ n < 2, ((st.outcomes .put)[n]?).join ≠ none

/-! ## The requests -/

inductive Request where
  | put
  | putOpts (mode : PutMode)
  | putWithMeta (metadata : Bytes)
  | putWithMetaFromFile (metaLen : UInt16)

/-- The call; `data` is the payload, or what the file holds. -/
def Request.run (refs : RawRefRegistry) (k : Key) (data : Bytes) : Request → ClusterM (Except Error Unit)
  | .put => Sharded.put k data
  | .putOpts mode => Sharded.putOpts k data mode
  | .putWithMeta metadata => Sharded.putWithMeta refs k data metadata
  | .putWithMetaFromFile metaLen => Sharded.putWithMetaFromFile refs k data metaLen

def Request.parts (data : Bytes) : Request → Bytes × Bytes
  | .put | .putOpts _ => (data, [])
  | .putWithMeta metadata => (data, metadata)
  | .putWithMetaFromFile metaLen => (data.take (data.length - metaLen.toNat), data.drop (data.length - metaLen.toNat))

/-- Every shard rejects the writes of the request, because of the request. -/
structure Request.Refused (maxKeyLength : Nat) (k : Key) (data : Bytes) (s : Sys) (r : Request) : Prop where
  bad : refusal maxKeyLength k (r.parts data).1 (r.parts data).2 ≠ none
  shards : ∀ x st, s.cluster.storeRef x = some st → (s.stores st).Refuses

/-- A shard that answers the next two writes as its raw store does refuses those that the raw store rejects. -/
theorem Request.refused_of_raw {n : Nat} {r : Request} {now : DateTime} (raws : StoreId → Raw.Store)
    (hbad : refusal n k (r.parts p).1 (r.parts p).2 ≠ none)
    (hraw : ∀ x st, s.cluster.storeRef x = some st → (raws st).readOnly = false ∧ (raws st).maxKeyLength = n ∧ ∀ e,
      ((Raw.putWithMeta now k (r.parts p).1 (r.parts p).2).exec (raws st)).1 = .error e →
        ∀ i < 2, ((s.stores st).outcomes .put)[i]?.join ≠ none) : r.Refused n k p s := by
  refine ⟨hbad, fun x st hst => ?_⟩
  obtain ⟨hro, hmax, hanswers⟩ := hraw x st hst
  obtain ⟨e, he⟩ := Option.ne_none_iff_exists'.mp hbad
  exact hanswers e (by rw [raw_rejects hro (hmax ▸ he)])

omit [Crates] in
theorem Store.Refuses.outcome {st : Store} (h : st.Refuses) : st.outcome .put ≠ none := by
  have h1 := h 0 (by decide)
  unfold Store.outcome
  rwa [List.head?_eq_getElem?]

omit [Crates] in
theorem Store.Refuses.again {st : Store} (h : st.Refuses) : (st.outcomes .put).tail.head?.join ≠ none := by
  have h1 := h 1 (by decide)
  rwa [List.head?_eq_getElem?, List.getElem?_tail]

omit [Crates] in
theorem Request.Refused.accepts {n : Nat} {r : Request} (h : r.Refused n k p s) (x : ShardId) : s.accepts x = false := by
  unfold Sys.accepts Sys.answer
  cases hr : s.cluster.storeRef x with
  | none => rfl
  | some st =>
    obtain ⟨e, he⟩ := Option.ne_none_iff_exists'.mp (h.shards x st hr).outcome
    dsimp only
    rw [he]
    rfl

omit [Crates] in
theorem Request.Refused.acceptsAgain {n : Nat} {r : Request} (h : r.Refused n k p s) (x : ShardId) :
    s.acceptsAgain x = false := by
  unfold Sys.acceptsAgain
  cases hr : s.cluster.storeRef x with
  | none => rfl
  | some st =>
    rw [Option.any_some, Option.isNone_eq_false_iff]
    exact Option.isSome_iff_ne_none.mpr (h.shards x st hr).again

/-! ## Rounds that everybody refuses -/

def Sys.NobodyAccepts (s : Sys) : Prop := ∀ x, s.accepts x = false ∧ s.acceptsAgain x = false

omit [Crates] in
def AllOffline (ids : List ShardId) (s : Sys) : Prop := ∀ x ∈ ids, s.cluster.healthOf x = some .offline

omit [Crates] in
theorem healthOf_of_writable {c : Cluster} {x : ShardId} (h : c.writable x = true) :
    ∃ v, c.healthOf x = some v ∧ v ≠ .offline := by
  unfold Cluster.writable at h
  cases hh : c.healthOf x with
  | none =>
    rw [hh] at h
    cases h
  | some v =>
    refine ⟨v, rfl, fun hv => ?_⟩
    rw [hh, hv] at h
    cases h

theorem allOffline_targets (hh : ∀ x, s'.cluster.healthOf x = (s.cluster.offline (s.cluster.selectTargets k)).healthOf x) :
    AllOffline (s.cluster.selectTargets k) s' := by
  intro x hx
  obtain ⟨v, hv, -⟩ := healthOf_of_writable (Cluster.writable_of_mem_selectTargets hx)
  rw [hh, Cluster.healthOf_offline, hv, Option.map_some, if_pos (by simpa using hx)]

omit [Crates] in
theorem AllOffline.offline {ids more : List ShardId} (h : AllOffline ids s)
    (hh : ∀ x, s'.cluster.healthOf x = (s.cluster.offline more).healthOf x) : AllOffline ids s' := by
  intro x hx
  rw [hh, Cluster.healthOf_offline, h x hx, Option.map_some]
  split <;> rfl

theorem takers_of_nobody {c : Cluster} {keep accepts : ShardId → Bool} {targets : List ShardId} (h : ∀ x, accepts x = false) :
    c.takers keep accepts k targets = [] := by
  have hnil : ∀ l : List ShardId, l.filter accepts = [] := fun l => List.filter_eq_nil_iff.mpr fun x _ => by simp [h x]
  unfold Cluster.takers
  rw [if_pos (hnil _), hnil]

/-- The writes of `put` and of a create, when nobody accepts them: all that were asked are offline. -/
theorem exec_refused (h : s.NobodyAccepts) (hne : s.cluster.selectTargets k ≠ []) :
    ∃ errors s1 s2 r, (writeToShards k p (s.cluster.selectTargets k)).exec s = (.error (.allReplicasFailed k errors), s1) ∧
      (retryTargets k (s.cluster.selectTargets k)).exec s1 = (r, s2) ∧ AllOffline (s.cluster.selectTargets k) s2 ∧
      ∀ others, r = some others → ∃ errors2 s3,
        (writeToShards k p others).exec s2 = (.error (.allReplicasFailed k errors2), s3) ∧
          AllOffline (s.cluster.selectTargets k) s3 := by
  have hw := twoRounds_wrote s k { body := p } every (s.cluster.selectTargets k)
  have hnone : s.takers every k = [] := takers_of_nobody fun x => (h x).1
  have htook : (s.cluster.selectTargets k).filter (fun x => s.accepts x) = [] := Cluster.took_nil hnone
  obtain ⟨errors, hr⟩ := (wroteAs_writeToShards (s := s) (k := k) (p := p) (s.cluster.nodup_selectTargets k)
    (fun x hx => Cluster.mem_writable_lt (Cluster.writable_of_mem_selectTargets hx)) hne).nowhere (hw.placed.trans hnone)
  obtain ⟨s2, hretry, hmarked, hh⟩ := exec_retryTargets k (s.wrote every k { body := p }
    (s.cluster.selectTargets k)).2 s (hw.offline htook) hw.refs hne rfl
  refine ⟨errors, _, s2, _, hr, hretry, allOffline_targets hh, fun others hothers => ?_⟩
  have hlate : s.lateTakers k = [] := by
    unfold Sys.lateTakers
    refine takers_of_nobody fun x => ?_
    split
    · exact (h x).2
    · exact (h x).1
  have hw2 := twoRounds_wrote s2 k { body := p } every others
  split at hothers
  · cases hothers
  · next hne2 =>
    cases hothers
    have hplaced := hw2.placed.trans ((late_takers hnone hmarked hh).trans hlate)
    obtain ⟨errors2, hr2⟩ := (wroteAs_writeToShards (s := s2) (k := k) (p := p) (s.cluster.nodup_others k _)
      (fun x hx => by
        rw [hmarked.refs.length, hw.refs.length]
        exact Cluster.mem_writable_lt (Cluster.mem_others hx).1) hne2).nowhere hplaced
    exact ⟨errors2, _, hr2, (allOffline_targets hh).offline (hw2.offline (Cluster.took_nil (hw2.placed.symm.trans hplaced)))⟩

/-! ## Calls that do no harm -/

/-- The call ends before a shard is asked. -/
def Request.Stops (k : Key) (data : Bytes) (s : Sys) : Request → Prop
  | .put | .putOpts .overwrite | .putWithMeta _ => s.cluster.config.readOnly = true ∨ s.cluster.selectTargets k = []
  | .putOpts .create =>
    s.cluster.config.readOnly = true ∨ s.cluster.selectTargets k = [] ∨ s.cluster.catalog.get k ≠ none
  | .putOpts (.update eTag version) =>
    s.cluster.config.readOnly = true ∨ s.cluster.selectTargets k = [] ∨ eTag.isSome ∨ version.isSome
  | .putWithMetaFromFile metaLen => s.cluster.selectTargets k = [] ∨ data.length < metaLen.toNat

/-- The call is an error, and leaves every shard in service and every object readable. -/
structure Harmless (s : Sys) (r : Except Error Unit × Sys) : Prop where
  rejected : ∃ e, r.1 = .error e
  health : ∀ x, r.2.cluster.healthOf x = s.cluster.healthOf x
  readable : ∀ key, (∃ o, ((get key).exec s).1 = .ok o) → ∃ o, ((get key).exec r.2).1 = .ok o

theorem not_harmless {r : Except Error Unit × Sys} (hne : s.cluster.selectTargets k ≠ [])
    (h : AllOffline (s.cluster.selectTargets k) r.2) : ¬ Harmless s r := by
  intro hh
  obtain ⟨x, hx⟩ := List.exists_mem_of_ne_nil _ hne
  obtain ⟨v, hv, hoff⟩ := healthOf_of_writable (Cluster.writable_of_mem_selectTargets hx)
  have h1 := hh.health x
  rw [h x hx, hv] at h1
  exact hoff (Option.some.inj h1).symm

theorem harmless_same {e : Error} : Harmless s (.error e, s) := ⟨⟨e, rfl⟩, fun _ => rfl, fun _ h => h⟩

omit [Crates] in
theorem exec_readOnly : readOnly.exec s = (s.cluster.config.readOnly, s) := rfl

theorem exec_selectTargets : (selectTargets k).exec s = (s.cluster.selectTargets k, s) := rfl

/-- `put`, refused by everybody. -/
theorem put_refused (h : s.NobodyAccepts) :
    Harmless s ((put k p).exec s) ↔ s.cluster.config.readOnly = true ∨ s.cluster.selectTargets k = [] := by
  cases hro : s.cluster.config.readOnly with
  | true =>
    have hput : (put k p).exec s = (.error .readOnly, s) := by
      unfold put
      rw [exec_bind, exec_readOnly, hro]
      rfl
    rw [hput]
    exact iff_of_true harmless_same (.inl rfl)
  | false =>
    by_cases hne : s.cluster.selectTargets k = []
    · have hput : (put k p).exec s = (.error .noShards, s) := by
        unfold put
        rw [exec_bind, exec_readOnly, hro, if_neg (by simp), exec_bind, exec_selectTargets, hne]
        rfl
      rw [hput]
      exact iff_of_true harmless_same (.inr hne)
    · refine iff_of_false ?_ (by simp [hne])
      obtain ⟨errors, s1, s2, r, hw, hretry, hoff, hlast⟩ := exec_refused (p := p) h hne
      rw [exec_put hro hne, hw]
      simp only [Error.isInsufficientWrites, Bool.false_eq_true, if_false, hretry]
      cases r with
      | none => exact not_harmless hne hoff
      | some others =>
        obtain ⟨errors2, s3, hw2, hoff2⟩ := hlast others rfl
        simp only [hw2]
        exact not_harmless hne hoff2

/-- Two rounds on no shard. -/
theorem wrote_nil (keep : ShardId → Bool) (up : Upload) : s.wrote keep k up [] = ([], s) := by
  have hwritten : ∀ s : Sys, s.written [] k up = s := fun s => by simp [Sys.written]
  have hround : s.firstRound k up [] = ([], s) := by
    unfold Sys.firstRound
    rw [hwritten]
    rfl
  unfold Sys.wrote
  rw [hround]
  simp [hwritten]

omit [Crates] in
theorem exec_finishWithMeta_nil (o : Outcomes) (size : Nat) (crc : UInt32) (metaLen : UInt16) :
    (finishWithMeta k [] o size crc metaLen).exec s = (.error (lastFailure k o), s) := rfl

/-- A write with metadata, refused by everybody: its rounds. -/
theorem rounds_refused (f : List ShardId → ClusterM Outcomes) (keep : ShardId → Bool) (up : Upload) {size : Nat}
    {crc : UInt32} {metaLen : UInt16} (h : s.NobodyAccepts)
    (hf : ∀ s1 ids, SameRefs s.cluster s1.cluster → ids.Nodup → (∀ x ∈ ids, s.cluster.writable x = true) →
      Sends f keep k up ids s1)
    (hkeep : (s.cluster.selectTargets k).filter keep = s.cluster.selectTargets k) :
    Harmless s ((do
      let outcomes ← f (s.cluster.selectTargets k)
      let retryIds ← markWriteFailures outcomes.accepted outcomes.rejected (s.cluster.selectTargets k) k
      let retried ← if outcomes.accepted.isEmpty then f retryIds else pure []
      finishWithMeta k (outcomes.accepted ++ retried.accepted) (outcomes ++ retried) size crc metaLen :
        ClusterM (Except Error Unit)).exec s) ↔ s.cluster.selectTargets k = [] := by
  obtain ⟨o, ho⟩ := exec_rounds (fun placed o => finishWithMeta k placed o size crc metaLen) hf hkeep
  have hw := twoRounds_wrote s k up keep (s.cluster.selectTargets k)
  have hnone := hw.placed.trans (takers_of_nobody fun x => (h x).1)
  rw [ho, hnone, exec_finishWithMeta_nil]
  by_cases hne : s.cluster.selectTargets k = []
  · rw [hne, wrote_nil]
    exact iff_of_true harmless_same rfl
  · refine iff_of_false (not_harmless (k := k) hne ?_) hne
    exact allOffline_targets (hw.offline (Cluster.took_nil (hw.placed.symm.trans hnone)))

theorem putWithMeta_refused (hr : refs.Matches s.cluster) (hraw : ∀ x, s.cluster.writable x = true → refs.kind x = .raw)
    (h : s.NobodyAccepts) :
    Harmless s ((putWithMeta refs k p m).exec s) ↔ s.cluster.config.readOnly = true ∨ s.cluster.selectTargets k = [] := by
  unfold putWithMeta
  rw [exec_bind, exec_readOnly]
  cases hro : s.cluster.config.readOnly with
  | true => exact iff_of_true harmless_same (.inl rfl)
  | false =>
    rw [if_neg (by simp), exec_bind, exec_selectTargets]
    refine (rounds_refused (fanOutWithMeta refs k p m) every { body := p, metadata := m } h
      (fun s1 ids h1 hnd hw => ?_) (filter_every _)).trans (by simp)
    refine sends_fanOutWithMeta hnd (fun x hx => ?_) (fun x hx hk => ?_) fun x hx st => ?_
    · rw [h1.length]
      exact Cluster.mem_writable_lt (hw x hx)
    · rw [hr.get (hw x hx) hk, h1.storeRef]
    · rw [hraw x (hw x hx)]
      rfl

theorem putWithMetaFromFile_refused (hr : refs.Matches s.cluster)
    (hraw : ∀ x, s.cluster.writable x = true → refs.kind x = .raw) (h : s.NobodyAccepts) (metaLen : UInt16) :
    Harmless s ((putWithMetaFromFile refs k p metaLen).exec s) ↔
      s.cluster.selectTargets k = [] ∨ p.length < metaLen.toNat := by
  have hall : (s.cluster.selectTargets k).all (fun x => refs.kind x = .raw) = true :=
    List.all_eq_true.mpr fun x hx => decide_eq_true (hraw x (Cluster.writable_of_mem_selectTargets hx))
  unfold putWithMetaFromFile
  rw [exec_bind, exec_selectTargets]
  dsimp only
  rw [if_pos hall]
  by_cases hlen : p.length < metaLen.toNat
  · rw [if_pos hlen]
    exact iff_of_true harmless_same (.inr hlen)
  · rw [if_neg hlen]
    refine (rounds_refused (streamToShards refs k (p.take (p.length - metaLen.toNat)) (p.drop (p.length - metaLen.toNat)))
      (fun x => refs.kind x = .raw)
      { body := p.take (p.length - metaLen.toNat), metadata := p.drop (p.length - metaLen.toNat) }
      h (fun s1 ids h1 hnd hw => ?_) ?_).trans (by simp [hlen])
    · refine sends_streamToShards hnd (fun x hx => ?_) fun x hx hk => ?_
      · rw [if_pos (hraw x (hw x hx)), hr.get (hw x hx) (hraw x (hw x hx)), h1.storeRef]
      · obtain ⟨st, hst⟩ := hr.raw x (hw x hx) hk
        rw [h1.storeRef, (hr.only x st (hw x hx) hst).2]
        simp
    · exact List.filter_eq_self.mpr fun x hx => List.all_eq_true.mp hall x hx

/-! ## Reading does not look at the clock -/

def Sys.at (clock : List DateTime) (s : Sys) : Sys := { s with clock }

variable {clock : List DateTime}

omit [Crates] in
theorem commutes_look {α : Type} {f : Sys → α} (h : ∀ s, f (s.at clock) = f s) : Commutes (Sys.at clock) (look f) :=
  commutes_step fun s => by rw [h]

omit [Crates] in
theorem commutes_refGet (store : StoreRef) (key : Key) : Commutes (Sys.at clock) (store.get key) := by
  cases store with
  | none => exact commutes_pure _
  | some id => exact commutes_step fun _ => rfl

theorem commutes_readOrder (key : Key) : Commutes (Sys.at clock) (readOrder key) := by
  refine commutes_bind ?_ fun r => commutes_bind (commutes_look fun _ => rfl) fun _ => commutes_pure _
  refine commutes_bind (commutes_look fun _ => rfl) fun e => commutes_bind (commutes_look fun _ => rfl) fun raw => ?_
  refine commutes_bind (commutes_look fun _ => rfl) fun pref => ?_
  cases pref with
  | ordered => exact commutes_pure _
  | roundRobin =>
    refine commutes_bind ?_ fun ordered => commutes_pure _
    unfold balancedShardOrder
    split
    · exact commutes_pure _
    · exact commutes_step fun _ => rfl

omit [Crates] in
theorem commutes_handleReadError (x : ShardId) (key : Key) (e : StoreError) :
    Commutes (Sys.at clock) (handleReadError x key e) := by
  unfold handleReadError
  split
  · exact commutes_pure _
  · refine commutes_bind (commutes_step fun _ => rfl) fun known => ?_
    split
    · exact commutes_bind (commutes_step fun _ => rfl) fun _ => commutes_pure _
    · exact commutes_pure _

omit [Crates] in
theorem readReplicas_at (isFallback : Bool) (regs : Option RawRefRegistry) (key : Key)
    (l : List (ShardId × StoreRef)) (corrupted : List ShardId) (last : Option StoreError) (s : Sys) :
    ((readReplicas key isFallback regs l corrupted last).exec (s.at clock)).1 =
      ((readReplicas key isFallback regs l corrupted last).exec s).1 := by
  induction l generalizing corrupted last s with
  | nil => rfl
  | cons r rest ih =>
    obtain ⟨x, store⟩ := r
    unfold readReplicas
    rw [exec_bind, exec_bind, (commutes_refGet store key).exec]
    dsimp only
    rcases (StoreRef.get store key).exec s with ⟨o, s1⟩
    cases o with
    | ok o =>
      -- whatever is listed and scheduled then, the object is returned
      cases isFallback <;> simp only [Bool.false_eq_true, if_false, if_true, exec_bind, exec_pure]
    | error e =>
      dsimp only
      rw [exec_bind, exec_bind, (commutes_handleReadError x key e).exec]
      exact ih _ _ _

theorem get_at (key : Key) (s : Sys) : ((get key).exec (s.at clock)).1 = ((get key).exec s).1 := by
  unfold get
  split
  · rfl
  · have hrefs : ∀ s1 : Sys, rawRefs.exec s1 = (s1.cluster.config.rawRefs, s1) := fun _ => rfl
    rw [exec_bind, exec_bind, (commutes_readOrder key).exec]
    dsimp only
    rw [exec_bind, exec_bind, hrefs, hrefs]
    exact readReplicas_at _ _ key _ _ _ _

/-! ## All requests -/

theorem harmless_at {e : Error} : Harmless s (.error e, s.at clock) :=
  ⟨⟨e, rfl⟩, fun _ => rfl, fun key h => by rwa [get_at]⟩

omit [Crates] in
theorem shards_dropPlaceholder (s : Sys) : ((dropPlaceholder k).exec s).2.cluster.shards = s.cluster.shards := by
  have hget : (catalogGet k).exec s = (s.cluster.catalog.get k, s) := rfl
  unfold dropPlaceholder
  rw [exec_bind, hget]
  cases s.cluster.catalog.get k with
  | none => rfl
  | some e =>
    dsimp only
    split <;> rfl

omit [Crates] in
theorem AllOffline.dropped {ids : List ShardId} (h : AllOffline ids s) : AllOffline ids ((dropPlaceholder k).exec s).2 := by
  intro x hx
  unfold Cluster.healthOf
  rw [shards_dropPlaceholder]
  exact h x hx

/-- A create, refused by everybody. -/
theorem putCreate_refused (h : s.NobodyAccepts) :
    Harmless s ((putCreate k p).exec s) ↔ s.cluster.selectTargets k = [] ∨ s.cluster.catalog.get k ≠ none := by
  unfold putCreate
  rw [exec_bind, exec_selectTargets]
  dsimp only
  by_cases hne : s.cluster.selectTargets k = []
  · rw [if_pos (by simpa using hne)]
    exact iff_of_true harmless_same (.inl hne)
  · rw [if_neg (by simpa using hne), exec_bind, catalogTryInsert, exec_step]
    dsimp only
    cases hg : s.cluster.catalog.get k with
    | some e =>
      have htry : s.cluster.catalog.tryInsert k (s.cluster.selectTargets k) p.length s.now = (false, s.cluster.catalog) := by
        rw [Catalog.tryInsert, hg]
      rw [htry]
      exact iff_of_true harmless_at (.inr (by simp))
    | none =>
      have htry : (s.cluster.catalog.tryInsert k (s.cluster.selectTargets k) p.length s.now).1 = true := by
        rw [Catalog.tryInsert, hg]
      rw [htry]
      refine iff_of_false ?_ (by simp [hne])
      set s0 := s.tick.withCatalog (s.cluster.catalog.tryInsert k (s.cluster.selectTargets k) p.length s.now).2
      have hsel : s0.cluster.selectTargets k = s.cluster.selectTargets k := rfl
      obtain ⟨errors, s1, s2, r, hw, hretry, hoff, hlast⟩ := exec_refused (s := s0) (k := k) (p := p) h hne
      rw [hsel] at hw hretry hoff hlast
      simp only [Bool.not_true, Bool.false_eq_true, if_false]
      rw [exec_bind, hw]
      simp only [Error.isInsufficientWrites, Bool.false_eq_true, if_false]
      rw [exec_bind, hretry]
      dsimp only
      cases r with
      | none =>
        dsimp only
        rw [exec_bind]
        exact not_harmless hne hoff.dropped
      | some others =>
        obtain ⟨errors2, s3, hw2, hoff2⟩ := hlast others rfl
        dsimp only
        rw [exec_bind, hw2]
        dsimp only
        rw [exec_bind]
        exact not_harmless hne hoff2.dropped

theorem putOpts_refused (h : s.NobodyAccepts) (mode : PutMode) :
    Harmless s ((putOpts k p mode).exec s) ↔ (Request.putOpts mode).Stops k p s := by
  unfold putOpts
  rw [exec_bind, exec_readOnly]
  cases hro : s.cluster.config.readOnly with
  | true =>
    refine iff_of_true harmless_same ?_
    cases mode <;> exact .inl hro
  | false =>
    have hno : ¬ (s.cluster.config.readOnly = true) := by simp [hro]
    dsimp only
    rw [if_neg (by simp)]
    cases mode with
    | create => exact (putCreate_refused h).trans (or_iff_right hno).symm
    | overwrite => exact put_refused h
    | update eTag version =>
      dsimp only
      by_cases hcond : (eTag.isSome || version.isSome) = true
      · rw [if_pos hcond]
        exact iff_of_true harmless_same (.inr (.inr (by simpa using hcond)))
      · rw [if_neg hcond]
        refine (put_refused h).trans ?_
        have hcond' : ¬ (eTag.isSome ∨ version.isSome) := by simpa using hcond
        constructor
        · rintro (hr | hr)
          · exact .inl hr
          · exact .inr (.inl hr)
        · rintro (hr | hr | hr)
          · exact .inl hr
          · exact .inr hr
          · exact absurd hr hcond'

/-- A write that every shard rejects leaves the shards in service exactly when none is asked. -/
theorem refused_write_keeps_shards_iff {n : Nat} (r : Request) (hr : refs.Matches s.cluster)
    (hraw : ∀ x, s.cluster.writable x = true → refs.kind x = .raw) (h : r.Refused n k p s) :
    Harmless s ((r.run refs k p).exec s) ↔ r.Stops k p s := by
  have hno : s.NobodyAccepts := fun x => ⟨h.accepts x, h.acceptsAgain x⟩
  cases r with
  | put => exact put_refused hno
  | putOpts mode => exact putOpts_refused hno mode
  | putWithMeta metadata => exact putWithMeta_refused hr hraw hno
  | putWithMetaFromFile metaLen => exact putWithMetaFromFile_refused hr hraw hno metaLen

end Requests

open Sample Raw.Sample in
def refusing : Sys := sys 2 (config 2 1) fun _ => Store.failing fresh .put [broken, broken]

open Sample Raw.Sample in
theorem refusing_refuses (x : ShardId) (st : StoreId) (_ : refusing.cluster.storeRef x = some st) :
    (refusing.stores st).Refuses := by
  intro n hn
  match n, hn with
  | 0, _ => exact fun h => by cases h
  | 1, _ => exact fun h => by cases h

open Sample Raw.Sample in
/-- A conditional update is turned down before a shard is asked. -/
theorem refused_update_is_harmless :
    Harmless refusing (((Request.putOpts (.update (some "1") none)).run (raws 2) "k" []).exec refusing) :=
  (refused_write_keeps_shards_iff (.putOpts (.update (some "1") none)) raws_match (fun x h => by
    match x, Cluster.mem_writable_lt h with
    | 0, _ => rfl
    | 1, _ => rfl) (n := 8) ⟨by decide, refusing_refuses⟩).mpr (.inr (.inr (.inl rfl)))

open Sample Raw.Sample in
/-- An empty payload takes all shards offline: the two that are asked, and there is no other. -/
theorem an_empty_payload_takes_all_shards_offline : ¬ ∀ (refs : RawRefRegistry) (r : Request) (maxKeyLength : Nat)
    (k : Key) (data : Bytes) (s : Sys), refs.Matches s.cluster →
    (∀ x, s.cluster.writable x = true → refs.kind x = .raw) → r.Refused maxKeyLength k data s →
    Harmless s ((r.run refs k data).exec s) := by
  intro h
  have h1 := (h (raws 2) .put 8 "k" [] refusing raws_match (fun x h => by
    match x, Cluster.mem_writable_lt h with
    | 0, _ => rfl
    | 1, _ => rfl) ⟨by decide, refusing_refuses⟩).health 0
  exact absurd h1 (by decide +kernel)

end ObjStr.Sharded
