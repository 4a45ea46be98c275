/-
  ObjStr.Sharded.Failover — a full GET through a cluster of raw shards, some of whose replicas are
  corrupt (`shardedobjstr/src/lib.rs`, `read_with_fallback!`).

  Here the store behind a shard is the raw store itself, with its device. `get` asks the replicas in read order
  for a stream and returns the first one it is given; its caller reads the stream. By then no
  other replica is asked: what the call of a replica does not see, the failover does not see.
  - `getBody_ok_iff`: the body comes out if and only if the first replica in read order whose call
    does not fail delivers it.
  - `a_bad_block_is_not_failed_over`: a plain object whose first replica has one bad block and whose
    second one is good: `get` returns the stream of the first, and reading it fails.
-/

import ObjStr.Raw.Open
import ObjStr.Raw.Streams
import ObjStr.Sharded.VacuumRuns

namespace ObjStr.Sharded

open ObjStr.Lib ObjStr.Raw Proc

/-! ## Raw shards -/

structure RawSys where
  sys : Sys
  raws : StoreId → Raw.Store

abbrev RawM := Proc Event RawSys

def RawSys.withSys (s : RawSys) (c : Sys) : RawSys := { s with sys := c }

def onSys {α : Type} (p : ClusterM α) : RawM α := p.within RawSys.sys RawSys.withSys

/-- `to_os_error`. -/
def rawError : RawStoreError → StoreError
  | .notFound path => .notFound path
  | .dataCorruption .. => .backend true
  | _ => .backend false

/-- A call of the raw store behind a shard; the placeholder fails it. -/
def onRaw {α : Type} (r : StoreRef) (kind : Call) (key : Key) (p : StoreM α) : RawM (Except StoreError α) :=
  match r with
  | none => pure (.error (.backend false))
  | some id =>
    Proc.step
      (fun s => ((p.exec (s.raws id)).1.mapError rawError,
        { s with raws := Function.update s.raws id (p.exec (s.raws id)).2 }))
      fun r => .call id kind key (failure r)

/-! ## Reading -/

/-- The size and metadata length to list for an object found on a raw shard that no entry names. -/
def foundOnRaw (store : StoreRef) (shardId : ShardId) (location : Key) (refs : Option RawRefRegistry) : RawM (Nat × UInt16) := do
  let rawHit ← match refs.bind (·.get shardId) with
    | none => pure none
    | some raw => do
      let r ← onRaw (some raw) .head location (Raw.headWithMeta location)
      pure r.toOption
  match rawHit with
  | some o => pure o
  | none => do
    let r ← onRaw store .head location (Raw.headWithMeta location)
    pure ((r.toOption.map (·.1)).getD 0, 0)

section Reads

variable [Crates]

def readStreams (location : Key) (isFallback : Bool) (refs : Option RawRefRegistry) :
    List (ShardId × StoreRef) → List ShardId → Option StoreError → RawM (Except Error (StoreRef × GetStream))
  | [], _, lastErr => pure (.error ((lastErr.map .store).getD (.notFound location)))
  | (shardId, store) :: rest, corrupted, _ => do
    match ← onRaw store .get location (getStream location) with
    | .ok g => do
      if isFallback then do
        let (size, ml) ← foundOnRaw store shardId location refs
        onSys (catalogAddReplica location shardId size ml)
      else pure ()
      onSys (corrupted.forM fun bad => scheduleReadRepair location shardId bad)
      pure (.ok (store, g))
    | .error e => do
      let isCrc ← onSys (handleReadError shardId location e)
      readStreams location isFallback refs rest (if isCrc then corrupted ++ [shardId] else corrupted) (some e)

/-- `get`, on raw shards: a stream and the store it reads from. -/
def getFrom (location : Key) : RawM (Except Error (StoreRef × GetStream)) := do
  if isDeleteMarker location then pure (.error (.notFound location))
  else do
    let (stores, isFallback) ← onSys (readOrder location)
    let refs ← onSys rawRefs
    readStreams location isFallback (if isFallback then refs else none) stores [] none

def readOut (location : Key) : Except Error (StoreRef × GetStream) → RawM (Except Error Bytes)
  | .error e => pure (.error e)
  | .ok (store, g) => do
    let r ← onRaw store .get location (onDevice g.consume)
    pure (r.mapError .store)

def getBody (location : Key) : RawM (Except Error Bytes) := do
  let r ← getFrom location
  readOut location r

end Reads

/-! ## One replica -/

theorem exec_onSys {α : Type} (p : ClusterM α) (s : RawSys) :
    (onSys p).exec s = ((p.exec s.sys).1, s.withSys (p.exec s.sys).2) := by
  have hpart : ∀ (t : RawSys) (c : Sys), (t.withSys c).sys = c := fun _ _ => rfl
  have hput : ∀ (t : RawSys) (c c' : Sys), (t.withSys c).withSys c' = t.withSys c' := fun _ _ _ => rfl
  exact exec_within hpart hput (fun _ => rfl) p s

/-- A call that leaves the raw store as it is. -/
theorem exec_onRaw {α : Type} {p : StoreM α} {s : RawSys} {id : StoreId} {r : Except RawStoreError α} (kind : Call) (key : Key)
    (h : p.exec (s.raws id) = (r, s.raws id)) : (onRaw (some id) kind key p).exec s = (r.mapError rawError, s) := by
  rw [onRaw, exec_step, h, Function.update_eq_self]

theorem exec_headWithMeta (key : Key) (st : Raw.Store) : ∃ r, (Raw.headWithMeta key).exec st = (r, st) := by
  have hget : ∃ r, (getFile key).exec st = (r, st) := by
    unfold getFile Prog.exec
    dsimp only
    cases st.files.lookup key <;> exact ⟨_, rfl⟩
  obtain ⟨r, hr⟩ := hget
  rw [Raw.headWithMeta, Prog.exec_bind, hr]
  cases r <;> exact ⟨_, rfl⟩

theorem exec_foundOnRaw (store : StoreRef) (shardId : ShardId) (key : Key) (refs : Option RawRefRegistry) (s : RawSys) :
    ∃ r, (foundOnRaw store shardId key refs).exec s = (r, s) := by
  have hhead : ∀ ref : StoreRef, ∃ r, (onRaw ref .head key (Raw.headWithMeta key)).exec s = (r, s) := by
    intro ref
    cases ref with
    | none => exact ⟨_, rfl⟩
    | some id =>
      obtain ⟨r, hr⟩ := exec_headWithMeta key (s.raws id)
      exact ⟨_, exec_onRaw .head key hr⟩
  obtain ⟨r, hr⟩ := hhead store
  unfold foundOnRaw
  extract_lets last
  have hlast : ∀ hit, ∃ r, (last hit).exec s = (r, s) := by
    intro hit
    cases hit with
    | some o => exact ⟨_, rfl⟩
    | none => exact ⟨_, by dsimp only [last]; rw [exec_bind, hr, exec_pure]⟩
  cases refs.bind (·.get shardId) with
  | none => exact hlast none
  | some raw =>
    obtain ⟨r', hr'⟩ := hhead (some raw)
    dsimp only
    rw [exec_bind, hr']
    exact hlast _

/-! ## The first replica that is not refused -/

/-- The first that is not in `P` is in `Q`. -/
def FirstOf (P Q : ShardId → Prop) (ids : List ShardId) : Prop := ∃ l x l', ids = l ++ x :: l' ∧ (∀ y ∈ l, P y) ∧ ¬ P x ∧ Q x

section FirstOf

variable {P Q : ShardId → Prop} {x : ShardId} {ids : List ShardId}

theorem not_firstOf_nil : ¬ FirstOf P Q [] := by
  intro h
  obtain ⟨l, x, l', h, -⟩ := h
  cases l <;> cases h

theorem firstOf_cons_of (h : P x) : FirstOf P Q (x :: ids) ↔ FirstOf P Q ids := by
  constructor
  · intro ⟨l, y, l', hids, hl, hy⟩
    cases l with
    | nil =>
      cases hids
      exact absurd h hy.1
    | cons z l =>
      cases hids
      exact ⟨l, y, l', rfl, fun w hw => hl w (List.mem_cons_of_mem _ hw), hy⟩
  · intro ⟨l, y, l', hids, hl, hy⟩
    refine ⟨x :: l, y, l', by rw [hids]; rfl, fun w hw => ?_, hy⟩
    cases hw with
    | head => exact h
    | tail _ hw => exact hl w hw

theorem firstOf_cons_of_not (h : ¬ P x) : FirstOf P Q (x :: ids) ↔ Q x := by
  constructor
  · intro ⟨l, y, l', hids, hl, hy⟩
    cases l with
    | nil =>
      cases hids
      exact hy.2
    | cons z l =>
      cases hids
      exact absurd (hl _ List.mem_cons_self) h
  · intro hx
    exact ⟨[], x, ids, rfl, fun y hy => absurd hy List.not_mem_nil, h, hx⟩

end FirstOf

section Failover

variable [Crates] {s : RawSys} {key : Key} {body : Bytes}

def RefusedBy (raws : StoreId → Raw.Store) (key : Key) (r : StoreRef) : Prop := ∀ id, r = some id → (raws id).Refuses key

/-- The blocks that a full GET of this replica reads give the body. -/
def DeliveredBy (raws : StoreId → Raw.Store) (key : Key) (body : Bytes) (r : StoreRef) : Prop :=
  ∃ id, r = some id ∧ (raws id).Delivers key body

theorem readStreams_ok_iff (refOf : ShardId → StoreRef) (isFallback : Bool) (refs : Option RawRefRegistry) {ids : List ShardId}
    (hcalm : ∀ x ∈ ids, ∀ id, refOf x = some id → (s.raws id).CalmAt key) (corrupted : List ShardId) (lastErr : Option StoreError) :
    ((readStreams key isFallback refs (ids.map fun x => (x, refOf x)) corrupted lastErr >>= readOut key).exec s).1 = .ok body ↔
      FirstOf (fun x => RefusedBy s.raws key (refOf x)) (fun x => DeliveredBy s.raws key body (refOf x)) ids := by
  induction ids generalizing s corrupted lastErr with
  | nil => exact iff_of_false (fun h => by cases h) not_firstOf_nil
  | cons x ids ih =>
    have hcalm' : ∀ y ∈ ids, ∀ id, refOf y = some id → (s.raws id).CalmAt key := fun y hy => hcalm y (List.mem_cons_of_mem x hy)
    -- a replica whose call fails is passed over
    have hnext : ∀ e, (onRaw (refOf x) .get key (getStream key)).exec s = (.error e, s) →
        RefusedBy s.raws key (refOf x) →
        (((readStreams key isFallback refs ((x :: ids).map fun x => (x, refOf x)) corrupted lastErr >>= readOut key).exec s).1 = .ok body ↔
          FirstOf (fun x => RefusedBy s.raws key (refOf x)) (fun x => DeliveredBy s.raws key body (refOf x)) (x :: ids)) := by
      intro e he href
      rw [firstOf_cons_of href, List.map_cons, readStreams, bind_assoc, exec_bind, he]
      dsimp only
      rw [bind_assoc, exec_bind, exec_onSys]
      exact ih (s := s.withSys ((handleReadError x key e).exec s.sys).2) hcalm' _ _
    cases hx : refOf x with
    | none =>
      refine hnext (.backend false) (by rw [hx]; rfl) fun id h => ?_
      rw [hx] at h
      cases h
    | some id =>
      rcases exec_getStream (hcalm x List.mem_cons_self id hx) with ⟨href, e, he⟩ | ⟨href, g, r, hg, hr, hbody⟩
      · refine hnext (rawError e) (by rw [hx]; exact exec_onRaw .get key he) fun id' h => ?_
        rw [hx] at h
        cases h
        exact href
      · have hnot : ¬ RefusedBy s.raws key (refOf x) := fun h => href (h id hx)
        rw [firstOf_cons_of_not hnot, List.map_cons, readStreams, bind_assoc, exec_bind, hx, exec_onRaw .get key hg]
        have hout : ∀ s' : RawSys, s'.raws = s.raws →
            (((readOut key (.ok (some id, g))).exec s').1 = .ok body ↔ DeliveredBy s.raws key body (some id)) := by
          intro s' hraws
          have hread : (onDevice g.consume).exec (s'.raws id) = (r, s'.raws id) := by rw [hraws, hr]
          have hresult : (r.mapError rawError).mapError Error.store = .ok body ↔ r = .ok body := by cases r <;> simp [Except.mapError]
          rw [readOut, exec_bind, exec_onRaw .get key hread, exec_pure, hresult, hbody]
          exact ⟨fun h => ⟨id, rfl, h⟩, fun ⟨_, h, hd⟩ => Option.some.inj h ▸ hd⟩
        have hrepair : ∀ s' : RawSys, s'.raws = s.raws →
            (((((onSys (corrupted.forM fun bad => scheduleReadRepair key x bad)) >>= fun _ =>
              pure (.ok (some id, g))) >>= readOut key).exec s').1 = .ok body ↔ DeliveredBy s.raws key body (some id)) := by
          intro s' hraws
          rw [bind_assoc, exec_bind, exec_onSys]
          exact hout _ hraws
        simp only [Except.mapError]
        cases isFallback with
        | false => exact hrepair s rfl
        | true =>
          obtain ⟨found, hfound⟩ := exec_foundOnRaw (some id) x key refs s
          rw [if_pos rfl, bind_assoc, exec_bind, hfound, bind_assoc, exec_bind, exec_onSys]
          exact hrepair _ rfl

/-! ## Failover -/

def RawSys.Calm (s : RawSys) (key : Key) : Prop :=
  ∀ x ∈ s.sys.readIds key, ∀ id, s.sys.cluster.storeRef x = some id → (s.raws id).CalmAt key

/-- The first replica in read order whose call does not fail delivers the body. -/
def RawSys.FirstDelivers (s : RawSys) (key : Key) (body : Bytes) : Prop :=
  FirstOf (fun x => RefusedBy s.raws key (s.sys.cluster.storeRef x)) (fun x => DeliveredBy s.raws key body (s.sys.cluster.storeRef x))
    (s.sys.readIds key)

/-- The body comes out if and only if the first replica in read order whose call does not fail delivers it. -/
theorem getBody_ok_iff (s : RawSys) (key : Key) (body : Bytes) (hcalm : s.Calm key) :
    ((getBody key).exec s).1 = .ok body ↔ isDeleteMarker key = false ∧ s.FirstDelivers key body := by
  by_cases hm : isDeleteMarker key = true
  · refine iff_of_false (fun h => ?_) fun h => absurd (hm.symm.trans h.1) (by decide)
    rw [getBody, exec_bind, getFrom, if_pos hm] at h
    cases h
  · obtain ⟨n, hread⟩ := exec_readOrder s.sys key
    rw [getBody, getFrom, if_neg hm, bind_assoc, exec_bind, exec_onSys, hread]
    dsimp only
    rw [bind_assoc, exec_bind, exec_onSys]
    refine (readStreams_ok_iff (s := s.withSys (s.sys.counted n)) _ _ _ hcalm _ _).trans ?_
    exact (and_iff_right (Bool.eq_false_iff.mpr hm)).symm

def HoldsGood (st : Raw.Store) (key : Key) (body : Bytes) : Prop :=
  ∃ info payload, st.files.lookup key = some info ∧ Stores st.compression st.io.dev info payload ∧ payload.take info.bodySize = body

/-- A replica with a block, or the whole payload, that fails its CRC. -/
def HoldsCorrupt (st : Raw.Store) (key : Key) : Prop := ∃ info, st.files.lookup key = some info ∧ ¬ Intact st.io.dev info

/-- A listed object all of whose replicas can be read: one is good, and the others are corrupt. -/
structure RawSys.OneGood (s : RawSys) (key : Key) (body : Bytes) : Prop where
  object : isDeleteMarker key = false
  listed : s.sys.cluster.catalog.get key ≠ none
  calm : s.Calm key
  good : ∃ x ∈ s.sys.readIds key, (∃ id, s.sys.cluster.storeRef x = some id ∧ HoldsGood (s.raws id) key body) ∧
    ∀ y ∈ s.sys.readIds key, y ≠ x → ∃ id, s.sys.cluster.storeRef y = some id ∧ HoldsCorrupt (s.raws id) key

open Sample

def Sample.badBlock (data : Bytes) : Bytes :=
  leBytes blockCrcSize (crc32c (padTo blockDataSize data) + 1).toNat ++ padTo blockDataSize data

/-- A raw store that lists an object of one byte, on a device with this block in its place. -/
def Sample.rawStore (files : FMap ExtentInfo) (block : Bytes) : Raw.Store :=
  { FormatOptions.newStore ⟨1048576, false, 16777216, 1024, .none, size_fits, slots_fit, keys_fit, size_whole⟩
      ⟨(⟨1048576, fun _ => 0⟩ : Disk).write dataStart block fun _ => true, false, false, [], []⟩ with files }

def Sample.oneByte (body : Bytes) : FMap ExtentInfo :=
  (∅ : FMap ExtentInfo).insert "k" ⟨dataStart, 1, blockAlignment, crc32c body, 0, 0, 0, 0⟩

def Sample.rawPair (first second : Raw.Store) : RawSys where
  sys := ⟨fun _ => fresh, { cluster 2 (config 2 1) with catalog := (⟨∅, false⟩ : Catalog).put "k" [0, 1] 1 none 0 0 }, []⟩
  raws id := if id = 0 then first else second

theorem Sample.read_rawStore (files : FMap ExtentInfo) {block : Bytes} (h : block.length = blockAlignment) :
    (rawStore files block).io.dev.read dataStart (numBlocks 1 * blockAlignment) = block := by
  have hone : numBlocks 1 * blockAlignment = block.length := h.symm
  rw [hone]
  exact Disk.read_write_same _ _ _

theorem Sample.calm_rawStore (body block : Bytes) : (rawStore (oneByte body) block).CalmAt "k" := by
  intro info hi
  have hinfo : info = ⟨dataStart, 1, blockAlignment, crc32c body, 0, 0, 0, 0⟩ :=
    (Option.some.inj ((AList.lookup_insert _).symm.trans hi)).symm
  subst hinfo
  have hinside : dataStart + numBlocks 1 * blockAlignment ≤ 1048576 := by decide
  exact ⟨rfl, fun h => Bool.noConfusion h, hinside⟩

theorem Sample.length_badBlock (b : UInt8) : (badBlock [b]).length = blockAlignment := by
  rw [badBlock, List.length_append, length_leBytes, length_padTo (Nat.le_of_ble_eq_true rfl)]
  rfl

theorem Sample.verify_badBlock (b : UInt8) (label : Nat) : ∃ e, verifyBlockCrc (badBlock [b]) label = .error e := by
  have htake : (badBlock [b]).take blockCrcSize = leBytes blockCrcSize (crc32c (padTo blockDataSize [b]) + 1).toNat :=
    List.take_left' (length_leBytes _ _)
  have hdrop : (badBlock [b]).drop blockCrcSize = padTo blockDataSize [b] := List.drop_left' (length_leBytes _ _)
  have hne : crc32c (padTo blockDataSize [b]) + 1 ≠ crc32c (padTo blockDataSize [b]) := by simp
  unfold verifyBlockCrc
  rw [htake, hdrop, leNat_leBytes _ _ (UInt32.toNat_lt _), UInt32.ofNat_toNat]
  exact ⟨_, if_neg hne⟩

/-- The object's only block is bad. -/
theorem Sample.decode_badBlock (files : FMap ExtentInfo) (b : UInt8) :
    ∃ e, decodeBlocks ((rawStore files (badBlock [b])).io.dev.read dataStart (numBlocks 1 * blockAlignment)) 1 = .error e := by
  obtain ⟨e, he⟩ := verify_badBlock b 0
  have hblock : rawBlock (badBlock [b]) 0 = badBlock [b] := by
    rw [rawBlock, Nat.zero_mul, List.drop_zero, List.take_of_length_le (length_badBlock b).le]
  rw [decodeBlocks_read, read_rawStore files (length_badBlock b)]
  refine ⟨e, ?_⟩
  show decodeStep (badBlock [b]) 0 1 [] 0 >>= pure = _
  rw [decodeStep, hblock, he]
  rfl

theorem Sample.goodStore (b : UInt8) : Stores .none (rawStore (oneByte [b]) (encodeBlocks [b])).io.dev
    ⟨dataStart, 1, blockAlignment, crc32c [b], 0, 0, 0, 0⟩ [b] := by
  have hlen : (encodeBlocks [b]).length = blockAlignment := by
    rw [length_encodeBlocks]
    show numBlocks 1 * blockAlignment = blockAlignment
    rfl
  exact ⟨[b], rfl, read_rawStore _ hlen, rfl, .inl ⟨rfl, rfl⟩⟩

theorem Sample.badStore (b : UInt8) : HoldsCorrupt (rawStore (oneByte [b]) (badBlock [b])) "k" := by
  refine ⟨_, AList.lookup_insert _, fun h => ?_⟩
  obtain ⟨p, hp, -⟩ := h
  obtain ⟨e, he⟩ := decode_badBlock (oneByte [b]) b
  exact absurd (he.symm.trans hp) (by simp)

theorem Sample.rawPair_calm {first second : Raw.Store} (h : first.CalmAt "k") (h' : second.CalmAt "k") :
    (rawPair first second).Calm "k" := by
  intro x _ id _
  show Raw.Store.CalmAt (if id = 0 then first else second) "k"
  split
  · exact h
  · exact h'

theorem Sample.rawPair_ids (first second : Raw.Store) : (rawPair first second).sys.readIds "k" = [0, 1] := rfl

/-- A plain object is never refused. -/
theorem Sample.oneByte_not_refused (b : UInt8) (block : Bytes) : ¬ (rawStore (oneByte [b]) block).Refuses "k" := fun h =>
  absurd (h _ (AList.lookup_insert _)).1 (Nat.lt_irrefl 0)

end Failover

open Sample Raw.Sample

/-- A replica that has no object of this name is passed over. -/
theorem a_missing_object_is_failed_over :
    ((getBody "k").exec (rawPair (rawStore ∅ []) (rawStore (oneByte [1]) (encodeBlocks [1])))).1 = .ok [1] := by
  refine (getBody_ok_iff _ "k" [1] ?_).mpr ⟨by decide, ?_⟩
  · exact rawPair_calm (fun info h => by cases h) (calm_rawStore _ _)
  · rw [RawSys.FirstDelivers, rawPair_ids]
    refine (firstOf_cons_of ?_).mpr ((firstOf_cons_of_not ?_).mpr ⟨1, rfl, _, AList.lookup_insert _, ?_⟩)
    · intro id h info hi
      cases h
      cases hi
    · exact fun h => oneByte_not_refused 1 _ (h 1 rfl)
    · exact (goodStore 1).delivered fun _ => rfl

/-- One bad block in the first replica, and a good second replica: the stream of the first is returned. -/
theorem a_bad_block_is_not_failed_over :
    ¬ ∀ (s : RawSys) (key : Key) (body : Bytes), s.OneGood key body → ((getBody key).exec s).1 = .ok body := by
  intro h
  set s := rawPair (rawStore (oneByte [1]) (badBlock [1])) (rawStore (oneByte [1]) (encodeBlocks [1])) with hs
  have hcalm : s.Calm "k" := rawPair_calm (calm_rawStore _ _) (calm_rawStore _ _)
  have hgood : s.OneGood "k" [1] := by
    refine ⟨by decide, (fun h => by cases h), hcalm, 1, by decide, ⟨1, rfl, _, _, AList.lookup_insert _, goodStore 1, rfl⟩, ?_⟩
    intro y hy hne
    rw [hs, rawPair_ids] at hy
    obtain rfl : y = 0 := by simpa [hne] using hy
    exact ⟨0, rfl, badStore 1⟩
  have hfirst := ((getBody_ok_iff s "k" [1] hcalm).mp (h s "k" [1] hgood)).2
  rw [RawSys.FirstDelivers, hs, rawPair_ids, firstOf_cons_of_not fun h => oneByte_not_refused 1 _ (h 0 rfl)] at hfirst
  obtain ⟨id, hid, info, hinfo, hdel⟩ := hfirst
  cases hid
  cases hinfo
  obtain ⟨e, he⟩ := decode_badBlock (oneByte [1]) 1
  exact absurd (he.symm.trans hdel) (by simp)

end ObjStr.Sharded
