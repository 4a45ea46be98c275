/-
  ObjStr.Sharded.ReadBack — metadata that is written and then read back (`shardedobjstr/src/metadata.rs`).

  A raw shard keeps the metadata behind the body and an S3-like shard as attributes: there the next
  write replaces it. A sidecar shard keeps it in an object of its own, which only a write with metadata
  replaces and only a delete removes.
  - `metadata_reads_back_iff`: after successful writes and deletes, the map given to the last write is
    read back if and only if the first shard asked that is not silent keeps it.
  - `a_plain_put_keeps_the_old_metadata`: on a sidecar shard, a put over an object with metadata.
-/

import ObjStr.Sharded.Failover
import ObjStr.Sharded.FileWrites
import ObjStr.Sharded.Service
import ObjStr.Sharded.TlvRoundtrip

namespace ObjStr.Sharded

open ObjStr.Lib ObjStr.Raw Proc

/-! ## Writes of a key -/

/-- Metadata that can be written: its fields have a place in the encoding, and this is it. -/
structure Metadata where
  fields : FMap String
  bytes : Bytes
  named : ∀ name ∈ fields, Tlv.isField name = true
  encodes : Tlv.encodeMetadata fields = .ok bytes

inductive KeyWrite where
  | put (payload : Bytes)
  | withMeta (payload : Bytes) (metadata : Metadata)

/-- The map given to the write; a plain put gives none. -/
def KeyWrite.fields : KeyWrite → FMap String
  | .put _ => ∅
  | .withMeta _ m => m.fields

def KeyWrite.bytes : KeyWrite → Bytes
  | .put _ => []
  | .withMeta _ m => m.bytes

theorem KeyWrite.encodes (w : KeyWrite) : Tlv.encodeMetadata w.fields = .ok w.bytes := by
  cases w with
  | put payload =>
    have hsort : (∅ : FMap String).entries.mergeSort (fun a b => decide (keyBytes a.1 ≤ keyBytes b.1)) = [] := List.mergeSort_nil
    rw [fields, Tlv.encodeMetadata, hsort]
    rfl
  | withMeta payload m => exact m.encodes

theorem KeyWrite.named (w : KeyWrite) : ∀ name ∈ w.fields, Tlv.isField name = true := by
  cases w with
  | put payload => exact fun name h => absurd h (AList.notMem_empty name)
  | withMeta payload m => exact m.named

inductive KeyCall where
  | write (w : KeyWrite)
  | delete

/-- The registry names the store of each raw shard that is attached, and of no other shard. A shard that was taken out
    may still be named, if it takes no writes. -/
structure RawRefRegistry.Describes (refs : RawRefRegistry) (c : Cluster) : Prop where
  attached : ∀ x st, c.storeRef x = some st → refs.get x = if refs.kind x = .raw then some st else none
  detached : ∀ x, c.storeRef x = none → c.writable x = true → refs.get x = none

section Runs

variable [Crates]

def KeyWrite.run (refs : RawRefRegistry) (location : Key) : KeyWrite → ClusterM (Except Error Unit)
  | .put payload => Sharded.put location payload
  | .withMeta payload m => putWithMeta refs location payload m.bytes

def KeyCall.run [Chrono] (refs : RawRefRegistry) (location : Key) : KeyCall → ClusterM (Except Error Unit)
  | .write w => w.run refs location
  | .delete => Sharded.delete location

inductive Ran [Chrono] (refs : RawRefRegistry) (location : Key) : Sys → Sys → Prop where
  | start (s : Sys) : Ran refs location s s
  | call {s s' s'' : Sys} (c : KeyCall) : Ran refs location s s' →
      (c.run refs location).exec s' = (.ok (), s'') → Ran refs location s s''

def ReadsBack (refs : RawRefRegistry) (location : Key) (w : KeyWrite) (s : Sys) : Prop :=
  ∃ b, ((getMetadata refs location).exec s).1 = .ok b ∧ ∀ name, (Tlv.decodeMetadata b).lookup name = w.fields.lookup name

end Runs

/-! ## What a shard answers -/

variable {refs : RawRefRegistry} {location : Key} {w : KeyWrite} {s s' s'' : Sys}

/-- What a store answers when it is asked for the metadata of an object. -/
def Store.metadataOf (st : Store) (kind : ShardKind) (location : Key) : Option Bytes :=
  match kind with
  | .raw => (st.get location).1.toOption.map (·.metadata)
  | .s3Like => (st.get location).1.toOption.map fun o => (Tlv.encodeMetadata (Tlv.attributesToMeta o.attributes)).toOption.getD []
  | .sidecar => (st.get (metaSidecarPath location)).1.toOption.map (·.body)

def Sys.storeAt (s : Sys) (x : ShardId) : Store := s.stores (s.cluster.config.storeOf x)

/-- The shard is passed over: the read fails, or there is no sidecar to read. -/
def Silent (refs : RawRefRegistry) (location : Key) (w : KeyWrite) (s : Sys) (x : ShardId) : Prop :=
  (s.storeAt x).outcome .get ≠ none ∨
    refs.kind x = .sidecar ∧ w.bytes = [] ∧ (s.storeAt x).objects.lookup (metaSidecarPath location) = none

/-- The shard has a place for the fields, and nothing older is in it. -/
def KeepsFields (refs : RawRefRegistry) (location : Key) (w : KeyWrite) (s : Sys) (x : ShardId) : Prop :=
  match refs.kind x with
  | .raw => True
  | .s3Like => ∀ name ∈ w.fields, Tlv.isAttribute name = true
  | .sidecar => w.bytes ≠ [] ∨ ∀ o, (s.storeAt x).objects.lookup (metaSidecarPath location) = some o →
      ∀ name, (Tlv.decodeMetadata o.body).lookup name = none

structure Took (kind : ShardKind) (location : Key) (metadata : Bytes) (st st' : Store) : Prop where
  object : ∃ body now, st'.objects.lookup location = some ⟨body, if kind = .raw then metadata else [],
    if kind = .s3Like then Tlv.metaToAttributes (Tlv.decodeMetadata metadata) else ∅, now⟩
  sidecar : kind = .sidecar → (st'.objects.lookup (metaSidecarPath location)).map (·.body) =
    if metadata = [] then (st.objects.lookup (metaSidecarPath location)).map (·.body) else some metadata
  gets : st'.outcomes .get = st.outcomes .get

theorem Store.fst_get (st : Store) (key : Key) :
    (st.get key).1.toOption = if st.outcome .get = none then st.objects.lookup key else none := by
  unfold Store.get
  cases st.outcome .get with
  | some e => rfl
  | none => cases st.objects.lookup key <;> rfl

/-- The answer of a store that took the write. -/
theorem Took.metadataOf {kind : ShardKind} {metadata : Bytes} {st st' : Store} (h : Took kind location metadata st st') :
    st'.metadataOf kind location = if st.outcome .get = none then match kind with
      | .raw => some metadata
      | .s3Like => some ((Tlv.encodeMetadata (Tlv.attributesToMeta (Tlv.metaToAttributes
          (Tlv.decodeMetadata metadata)))).toOption.getD [])
      | .sidecar => if metadata = [] then (st.objects.lookup (metaSidecarPath location)).map (·.body) else some metadata
      else none := by
  have hget : st'.outcome .get = st.outcome .get := by rw [Store.outcome, h.gets, Store.outcome]
  obtain ⟨body, now, hobj⟩ := h.object
  by_cases hg : st.outcome .get = none
  · rw [if_pos hg]
    cases kind with
    | raw => simp [Store.metadataOf, Store.fst_get, hget, hg, hobj]
    | s3Like => simp [Store.metadataOf, Store.fst_get, hget, hg, hobj]
    | sidecar =>
      rw [Store.metadataOf, Store.fst_get, hget, if_pos hg]
      exact h.sidecar rfl
  · rw [if_neg hg]
    cases kind <;> simp [Store.metadataOf, Store.fst_get, hget, hg]

/-- A shard that took the write is passed over if it is silent. -/
theorem Took.silent_iff {x : ShardId} {st' : Store} (h : Took (refs.kind x) location w.bytes (s.storeAt x) st') :
    st'.metadataOf (refs.kind x) location = none ↔ Silent refs location w s x := by
  rw [h.metadataOf]
  unfold Silent
  by_cases hg : (s.storeAt x).outcome .get = none
  · rw [if_pos hg]
    cases hk : refs.kind x with
    | raw => simp [hg]
    | s3Like => simp [hg]
    | sidecar =>
      by_cases hb : w.bytes = []
      · simp [hg, hb]
      · simp [hg, hb]
  · simp [hg]

/-- What a shard that is not silent answers decodes to the map if the shard keeps it. -/
theorem Took.right_iff {x : ShardId} {st' : Store} (h : Took (refs.kind x) location w.bytes (s.storeAt x) st')
    (hs : ¬ Silent refs location w s x) :
    (∃ b, st'.metadataOf (refs.kind x) location = some b ∧ ∀ name, (Tlv.decodeMetadata b).lookup name = w.fields.lookup name) ↔
      KeepsFields refs location w s x := by
  have hback := Tlv.decode_encode w.named w.encodes
  have hg : (s.storeAt x).outcome .get = none := by
    by_contra hn
    exact hs (.inl hn)
  rw [h.metadataOf, if_pos hg]
  unfold KeepsFields
  cases hk : refs.kind x with
  | raw => exact iff_of_true ⟨_, rfl, hback⟩ trivial
  | s3Like =>
    obtain ⟨b', hb', hattr⟩ := Tlv.decode_attributes w.named w.encodes
    rw [hb']
    dsimp only [Except.toOption, Option.getD_some]
    constructor
    · rintro ⟨b, hb, heq⟩ name hname
      obtain rfl := Option.some.inj hb
      by_contra hn
      have h1 := heq name
      rw [hattr, if_neg hn] at h1
      exact absurd hname (AList.lookup_eq_none.mp h1.symm)
    · intro hall
      refine ⟨b', rfl, fun name => ?_⟩
      rw [hattr]
      split
      · rfl
      · next hn => exact (AList.lookup_eq_none.mpr fun hname => hn (hall name hname)).symm
  | sidecar =>
    by_cases hb : w.bytes = []
    · have hnone : ∀ name, w.fields.lookup name = none := fun name => by
        rw [← hback, hb]
        rfl
      cases ho : (s.storeAt x).objects.lookup (metaSidecarPath location) with
      | none => exact absurd (.inr ⟨hk, hb, ho⟩) hs
      | some o => simp [hb, hnone]
    · simp [hb, hback]

/-! ## Asking the shards -/

/-- A read of one store leaves the others. -/
theorem exec_refGet (s : Sys) (st : StoreId) (key : Key) :
    ∃ s1, (StoreRef.get (some st) key).exec s = (((s.stores st).get key).1, s1) ∧ s1.cluster = s.cluster ∧
      ∀ st', st' ≠ st → s1.stores st' = s.stores st' :=
  ⟨_, rfl, rfl, fun _ h => Function.update_of_ne h _ _⟩

theorem FirstOf.congr {P Q P' Q' : ShardId → Prop} {ids : List ShardId} (h : FirstOf P Q ids) (hP : ∀ x ∈ ids, P x ↔ P' x)
    (hQ : ∀ x ∈ ids, ¬ P x → (Q x ↔ Q' x)) : FirstOf P' Q' ids := by
  obtain ⟨l, x, l', rfl, hl, hp, hq⟩ := h
  have hx : x ∈ l ++ x :: l' := by simp
  refine ⟨l, x, l', rfl, fun y hy => (hP y (List.mem_append_left _ hy)).mp (hl y hy), ?_, (hQ x hx hp).mp hq⟩
  exact fun h => hp ((hP x hx).mpr h)

/-- The shards are asked in order, and the first one that answers decides. -/
theorem metadataFrom_ok_iff (G : Bytes → Prop) {ids : List ShardId} (hnd : ids.Nodup)
    (hat : ∀ x ∈ ids, s.cluster.storeRef x = some (s.cluster.config.storeOf x))
    (hget : ∀ x ∈ ids, refs.get x = if refs.kind x = .raw then s.cluster.storeRef x else none) :
    (∃ b, ((metadataFrom refs location ids).exec s).1 = .ok b ∧ G b) ↔
      FirstOf (fun x => (s.storeAt x).metadataOf (refs.kind x) location = none)
        (fun x => ∃ b, (s.storeAt x).metadataOf (refs.kind x) location = some b ∧ G b) ids := by
  induction ids generalizing s with
  | nil => exact iff_of_false (by rintro ⟨b, h, -⟩; cases h) not_firstOf_nil
  | cons x ids ih =>
    obtain ⟨hnew, hnd⟩ := List.nodup_cons.mp hnd
    have hx := hat x List.mem_cons_self
    have hlt := (Cluster.storeRef_eq_some hx).2
    -- a shard that fails the read is passed over, and the others have other stores
    have hask : ∀ (key : Key) (f : Object → Bytes),
        (s.storeAt x).metadataOf (refs.kind x) location = ((s.storeAt x).get key).1.toOption.map f →
        ((∃ b, ((StoreRef.get (some (s.cluster.config.storeOf x)) key >>=
            metadataOr (fun o => .ok (f o)) (metadataFrom refs location ids)).exec s).1 = .ok b ∧ G b) ↔
        FirstOf (fun x => (s.storeAt x).metadataOf (refs.kind x) location = none)
          (fun x => ∃ b, (s.storeAt x).metadataOf (refs.kind x) location = some b ∧ G b) (x :: ids)) := by
      intro key f hf
      obtain ⟨s1, h1, hcl, hkept⟩ := exec_refGet s (s.cluster.config.storeOf x) key
      rw [exec_bind, h1]
      rw [Sys.storeAt] at hf
      cases hr : ((s.stores (s.cluster.config.storeOf x)).get key).1 with
      | ok o =>
        rw [hr] at hf
        have hsome : (s.storeAt x).metadataOf (refs.kind x) location = some (f o) := hf
        rw [firstOf_cons_of_not (by rw [hsome]; simp), hsome]
        simp [metadataOr]
      | error e =>
        rw [hr] at hf
        have hnone : (s.storeAt x).metadataOf (refs.kind x) location = none := hf
        have hsame : ∀ y ∈ ids, s1.storeAt y = s.storeAt y := by
          intro y hy
          have hne : s.cluster.config.storeOf y ≠ s.cluster.config.storeOf x := fun h =>
            hnew (s.cluster.config.storeOf.injective h ▸ hy)
          rw [Sys.storeAt, hcl, hkept _ hne, Sys.storeAt]
        rw [firstOf_cons_of hnone]
        refine (ih (s := s1) hnd (by rw [hcl]; exact fun y hy => hat y (List.mem_cons_of_mem _ hy))
          (by rw [hcl]; exact fun y hy => hget y (List.mem_cons_of_mem _ hy))).trans ⟨fun h => ?_, fun h => ?_⟩
        · exact h.congr (fun y hy => by rw [hsame y hy]) fun y hy _ => by rw [hsame y hy]
        · exact h.congr (fun y hy => by rw [hsame y hy]) fun y hy _ => by rw [hsame y hy]
    unfold metadataFrom
    rw [hget x List.mem_cons_self]
    cases hk : refs.kind x with
    | raw =>
      simp only [if_true, hx]
      exact hask location (·.metadata) (by rw [hk]; rfl)
    | s3Like =>
      simp only [reduceCtorEq, if_false]
      rw [exec_bind, shardStore, look, exec_step, if_pos hlt, hx]
      exact hask location _ (by rw [hk]; rfl)
    | sidecar =>
      simp only [reduceCtorEq, if_false]
      rw [exec_bind, shardStore, look, exec_step, if_pos hlt, hx]
      exact hask (metaSidecarPath location) (·.body) (by rw [hk]; rfl)

/-! ## After a write -/

/-- Each kind of shard keeps the metadata its own way. -/
theorem took_putMeta {kind : ShardKind} {payload metadata : Bytes} {st st' : Store}
    (h : st.putMeta kind location payload metadata = (.ok (), st')) : Took kind location metadata st st' := by
  have hok : (st.putMeta kind location payload metadata).1 = .ok () := by rw [h]
  obtain ⟨hobject, hsidecar⟩ := Store.putMeta_lookups hok
  have hgets : (st.putMeta kind location payload metadata).2.outcomes .get = st.outcomes .get := st.outcomes_putMeta kind (by decide)
  rw [h] at hobject hsidecar hgets
  refine ⟨⟨payload, st.clock.headD 0, ?_⟩, fun hkind => ?_, hgets⟩
  · rw [hobject]
    cases kind <;> rfl
  · rw [hsidecar]
    by_cases hnil : metadata = []
    · rw [if_neg (fun hboth => hboth.2 hnil), if_pos hnil]
    · rw [if_pos ⟨hkind, hnil⟩, if_neg hnil]
      rfl

/-- The entry of a key names different shards that took the write. -/
structure WroteLast (refs : RawRefRegistry) (location : Key) (w : KeyWrite) (s s' : Sys) (e : PlacementEntry) : Prop where
  same : SameRefs s.cluster s'.cluster
  listed : s'.cluster.catalog.get location = some e
  nodup : e.shards.Nodup
  attached : ∀ x ∈ e.shards, s.cluster.storeRef x = some (s.cluster.config.storeOf x)
  took : ∀ x ∈ e.shards, Took (refs.kind x) location w.bytes (s.storeAt x) (s'.storeAt x)

theorem RawRefRegistry.Describes.metaRef {x : ShardId} {st : StoreId} (h : refs.Describes s.cluster)
    (hx : s.cluster.storeRef x = some st) : s.cluster.metaRef refs x = some st := by
  unfold Cluster.metaRef
  split
  · next hk => rw [h.attached x st hx, if_pos hk]
  · exact hx

theorem RawRefRegistry.Describes.fits (h : refs.Describes s.cluster) : refs.Fits s.cluster := by
  intro x st hw hst
  cases hx : s.cluster.storeRef x with
  | none =>
    rw [h.detached x hx hw] at hst
    cases hst
  | some st' =>
    rw [h.attached x st' hx] at hst
    split at hst
    · exact hst
    · cases hst

section Writes

variable [Crates]

theorem wroteLast_of_put {payload : Bytes} {es : List Event} (h : PutTo location payload s (.ok ()) s' es) :
    ∃ e, WroteLast refs location (.put payload) s s' e := by
  obtain ⟨mid, placed, hw, hrec⟩ := h
  obtain ⟨e, hq, rfl, -⟩ := hrec.onQuorum hw
  obtain ⟨r, es2, hd⟩ := hrec
  have hl := hw.1.landed
  -- dropping the marker touches neither the object nor its sidecar
  have hobj : location ∉ [Path.fromStr (deleteMarkerKey location), metaSidecarPath (Path.fromStr (deleteMarkerKey location))] := by
    simp only [List.mem_cons, List.not_mem_nil, or_false, not_or]
    exact ⟨(marker_ne location).symm, (marker_sidecar_ne location).symm⟩
  have hside : metaSidecarPath location ∉
      [Path.fromStr (deleteMarkerKey location), metaSidecarPath (Path.fromStr (deleteMarkerKey location))] := by
    simp only [List.mem_cons, List.not_mem_nil, or_false, not_or]
    exact ⟨(marker_ne_sidecar location).symm, (marker_sidecar_ne_sidecar location).symm⟩
  have hrefs : SameRefs s.cluster s'.cluster := ⟨hd.deleted.refs.config.trans hl.refs.config, hd.deleted.refs.attached.trans hl.refs.attached⟩
  have hat : ∀ x, s'.storeAt x = s'.stores (s.cluster.config.storeOf x) := fun x => by rw [Sys.storeAt, hrefs.config]
  refine ⟨e, hrefs, hq.listed, hq.nodup, hl.attached, fun x hx => ⟨?_, fun _ => ?_, ?_⟩⟩
  · obtain ⟨now, ho⟩ := hl.stored x hx
    refine ⟨payload, now, ?_⟩
    rw [hat, hd.deleted.others _ _ hobj]
    refine ho.trans ?_
    cases refs.kind x <;> rfl
  · rw [hat, hd.deleted.others _ _ hside, KeyWrite.bytes, if_pos rfl]
    exact congrArg _ (hl.others _ _ (sidecar_ne location))
  · rw [hat, hd.deleted.calls _ _ (by decide)]
    exact hl.calls _ _ (by decide)

theorem wroteLast_of_putWithMeta {payload : Bytes} {m : Metadata} (hd : refs.Describes s.cluster)
    (h : MetaPutTo refs location payload m.bytes s (.ok ()) s') : ∃ e, WroteLast refs location (.withMeta payload m) s s' e := by
  obtain ⟨mid, hp, -, rfl⟩ := h
  have hattached : ∀ x ∈ (s.metaRounds refs location payload m.bytes).2,
      s.cluster.storeRef x = some (s.cluster.config.storeOf x) := fun x hx => by
    obtain ⟨-, st, hst, -⟩ := hp.took x hx
    rw [hst, (Cluster.storeRef_eq_some hst).1]
  refine ⟨⟨(s.metaRounds refs location payload m.bytes).2, payload.length, some (crc32c payload), mid.now,
      UInt16.ofNat m.bytes.length⟩,
    ⟨hp.same.config, hp.same.attached⟩, ?_, hp.nodup, hattached, fun x hx => ?_⟩
  · simp only [Sys.withCatalog, Catalog.get_put, if_true]
  · have hran := hp.ran x hx _ (hd.metaRef (hattached x hx))
    have hat : mid.storeAt x = mid.stores (s.cluster.config.storeOf x) := by rw [Sys.storeAt, hp.same.config]
    refine took_putMeta (hran.trans ?_)
    rw [← hat]
    rfl

theorem wroteLast_of_run (hd : refs.Describes s.cluster) (h : (w.run refs location).exec s = (.ok (), s')) :
    ∃ e, WroteLast refs location w s s' e := by
  cases w with
  | put payload =>
    have h1 : PutTo location payload s ((put location payload).exec s).1 ((put location payload).exec s).2 _ := wp_put payload
    rw [show (put location payload).exec s = _ from h] at h1
    exact wroteLast_of_put h1
  | withMeta payload m =>
    have h1 : MetaPutTo refs location payload m.bytes s ((putWithMeta refs location payload m.bytes).exec s).1
        ((putWithMeta refs location payload m.bytes).exec s).2 := wp_putWithMeta hd.fits
    rw [show (putWithMeta refs location payload m.bytes).exec s = _ from h] at h1
    exact wroteLast_of_putWithMeta hd h1

/-! ## Reading back -/

/-- A read asks shards of the entry, each once. -/
theorem Sys.readIds_of_entry {e : PlacementEntry} (h : s.cluster.catalog.get location = some e) (hnd : e.shards.Nodup) :
    (s.readIds location).Nodup ∧ ∀ x ∈ s.readIds location, x ∈ e.shards := by
  have hsub : (s.cluster.replicas location (some e)).Sublist e.shards := List.filter_sublist.trans List.filter_sublist
  have hperm : (s.readIds location).Perm (s.cluster.replicas location (some e)) := by
    unfold readIds
    rw [h]
    cases s.cluster.readPreference with
    | ordered => exact .refl _
    | roundRobin =>
      dsimp only
      split
      · exact .refl _
      · exact List.rotate_perm _ _
  exact ⟨hperm.nodup_iff.mpr (hnd.sublist hsub), fun x hx => hsub.subset (hperm.subset hx)⟩

/-- The first shard asked that is not silent keeps the fields of the last write, and the key is not hidden. -/
def ReadsRight (refs : RawRefRegistry) (location : Key) (w : KeyWrite) (s s' : Sys) : Prop :=
  isDeleteMarker location = false ∧
    FirstOf (Silent refs location w s) (KeepsFields refs location w s) (s'.readIds location)

theorem readsBack_iff {e : PlacementEntry} (h : WroteLast refs location w s s' e)
    (hregistered : ∀ x ∈ e.shards, refs.get x = if refs.kind x = .raw then s.cluster.storeRef x else none) :
    ReadsBack refs location w s' ↔ ReadsRight refs location w s s' := by
  unfold ReadsBack ReadsRight getMetadata
  by_cases hm : isDeleteMarker location = true
  · rw [if_pos hm]
    exact iff_of_false (by rintro ⟨b, hb, -⟩; cases hb) (by simp [hm])
  · rw [if_neg hm, and_iff_right (Bool.eq_false_iff.mpr hm)]
    obtain ⟨n, hn⟩ := exec_resolveShards s' location
    obtain ⟨hnd, hmem⟩ := Sys.readIds_of_entry h.listed h.nodup
    have hat : ∀ x ∈ s'.readIds location,
        (s'.counted n).cluster.storeRef x = some ((s'.counted n).cluster.config.storeOf x) := fun x hx => by
      have h1 := h.same.storeRef x
      rw [h.attached x (hmem x hx)] at h1
      exact h1.trans (by rw [← h.same.config]; rfl)
    have hget : ∀ x ∈ s'.readIds location,
        refs.get x = if refs.kind x = .raw then (s'.counted n).cluster.storeRef x else none := fun x hx => by
      rw [hregistered x (hmem x hx), h.attached x (hmem x hx), hat x hx, ← show s'.cluster.config = s.cluster.config from h.same.config]
      rfl
    rw [exec_bind, hn]
    refine (metadataFrom_ok_iff _ hnd hat hget).trans ⟨fun h1 => ?_, fun h1 => ?_⟩
    · refine h1.congr (fun x hx => (h.took x (hmem x hx)).silent_iff) fun x hx hs => ?_
      exact (h.took x (hmem x hx)).right_iff fun hsil => hs ((h.took x (hmem x hx)).silent_iff.mpr hsil)
    · refine h1.congr (fun x hx => (h.took x (hmem x hx)).silent_iff.symm) fun x hx hs => ?_
      exact ((h.took x (hmem x hx)).right_iff hs).symm

end Writes

/-! ## Runs -/

/-- The shards have the stores they had, and none takes writes that did not. -/
structure Sinks (s s' : Sys) : Prop where
  refs : ∀ x, s'.cluster.storeRef x = s.cluster.storeRef x
  writable : ∀ x, s'.cluster.writable x = true → s.cluster.writable x = true

theorem Sinks.refl (s : Sys) : Sinks s s := ⟨fun _ => rfl, fun _ h => h⟩

theorem Sinks.trans (h : Sinks s s') (h' : Sinks s' s'') : Sinks s s'' :=
  ⟨fun x => (h'.refs x).trans (h.refs x), fun x hx => h.writable x (h'.writable x hx)⟩

theorem RawRefRegistry.Describes.sinks (h : refs.Describes s.cluster) (hs : Sinks s s') : refs.Describes s'.cluster := by
  constructor
  · intro x st hx
    exact h.attached x st ((hs.refs x).symm.trans hx)
  · intro x hx hw
    exact h.detached x ((hs.refs x).symm.trans hx) (hs.writable x hw)

/-- The process takes shards out, and puts none in. -/
def Sinking {α : Type} (p : ClusterM α) : Prop := ∀ s, Sinks s (p.exec s).2

section Sinking

variable {α β : Type}

theorem Serving.sinking {p : ClusterM α} (h : Serving p) : Sinking p := by
  have hone : Only (fun s _ s' => Sinks s s') p := h.mono fun s _ s' h1 => by
    refine ⟨h1.refs, fun x hx => ?_⟩
    rwa [Cluster.writable, h1.health x] at hx
  exact fun s => hone.run Sinks.refl (fun _ _ _ h1 h2 => h1.trans h2) s

theorem sinking_pure (a : α) : Sinking (pure a : ClusterM α) := fun s => .refl s

theorem sinking_bind {p : ClusterM α} {f : α → ClusterM β} (hp : Sinking p) (hf : ∀ a, Sinking (f a)) : Sinking (p >>= f) := by
  intro s
  rw [exec_bind]
  exact (hp s).trans (hf _ _)

theorem sinking_forM {f : α → ClusterM PUnit} (h : ∀ a, Sinking (f a)) (l : List α) : Sinking (l.forM f) := by
  induction l with
  | nil => exact sinking_pure _
  | cons a l ih => exact sinking_bind (h a) fun _ => ih

/-- A health is set that takes no writes, or one that does where writes were taken. -/
theorem sinks_setShardHealth {x : ShardId} {h : ShardHealth}
    (hw : (!h.isUnavailable && h != .syncing) = true → s.cluster.writable x = true) :
    Sinks s ((setShardHealth x h).exec s).2 := by
  refine ⟨(marked_setShardHealth s x h s.now).refs.storeRef, fun y hy => ?_⟩
  have hy : (s.cluster.setShardHealth x h s.now).writable y = true := hy
  rw [Cluster.writable, Cluster.healthOf_setShardHealth] at hy
  by_cases hyx : y = x
  · subst hyx
    cases hh : s.cluster.healthOf y with
    | none => simp [hh] at hy
    | some h' => exact hw (by simpa [hh] using hy)
  · rw [Cluster.writable]
    simpa [hyx] using hy

theorem sinking_setOffline (x : ShardId) : Sinking (setShardHealth x .offline) :=
  fun _ => sinks_setShardHealth fun h => absurd h (by decide)

/-- A shard is Degraded only if it is Healthy. -/
theorem sinking_degrade (x : ShardId) : Sinking (do
    let h ← shardHealth x
    if h = some .healthy then setShardHealth x .degraded else pure ()) := by
  intro s
  rw [exec_bind, shardHealth, look, exec_step]
  dsimp only
  split
  · next h => exact sinks_setShardHealth fun _ => by rw [Cluster.writable, h]; rfl
  · exact .refl s

end Sinking

section Writes

variable [Crates]

theorem sinking_selectTargets (key : Key) : Sinking (selectTargets key) := (serving_look _).sinking

theorem sinking_markWriteFailures (placed failed tried : List ShardId) (key : Key) :
    Sinking (markWriteFailures placed failed tried key) := by
  unfold markWriteFailures
  split
  · exact sinking_bind (sinking_forM sinking_setOffline _) fun _ => sinking_bind (sinking_selectTargets _) fun _ => sinking_pure _
  split
  · exact sinking_bind (sinking_forM sinking_degrade _) fun _ => sinking_pure _
  · exact sinking_pure _

omit [Crates] in
theorem serving_fanOut (stores : List (ShardId × StoreRef)) (key : Key) (up : Upload) : Serving (fanOut stores key up) := by
  refine only_joinAll fun p hp => ?_
  obtain ⟨x, -, rfl⟩ := List.mem_map.mp hp
  exact only_bind (serving_call _ _ _ _) fun _ => only_pure _

omit [Crates] in
theorem serving_fanOutWithMeta (refs : RawRefRegistry) (key : Key) (payload metadata : Bytes) (ids : List ShardId) :
    Serving (fanOutWithMeta refs key payload metadata ids) := by
  refine only_joinAll fun p hp => ?_
  obtain ⟨x, -, rfl⟩ := List.mem_map.mp hp
  exact only_bind (serving_tryPutShard _ _ _ _ _) fun _ => only_pure _

theorem sinking_writeToShardsInner (key : Key) (data : Bytes) (targets : List ShardId) (required : Nat) (cleanup : Bool) :
    Sinking (writeToShardsInner key data targets required cleanup) := by
  refine sinking_bind (serving_look _).sinking fun stores => sinking_bind (serving_fanOut _ _ _).sinking fun outcomes => ?_
  dsimp only
  split
  · refine sinking_bind (sinking_markWriteFailures _ _ _ _) fun ids => sinking_bind (serving_look _).sinking fun stores =>
      sinking_bind (serving_fanOut _ _ _).sinking fun retried => ?_
    split
    · exact sinking_pure _
    · exact (serving_requireWrites _ _ _ _ _).sinking
  · exact sinking_bind (sinking_markWriteFailures _ _ _ _) fun _ => (serving_requireWrites _ _ _ _ _).sinking

theorem sinking_writeToShards (key : Key) (data : Bytes) (targets : List ShardId) : Sinking (writeToShards key data targets) :=
  sinking_bind (serving_look _).sinking fun _ => sinking_writeToShardsInner _ _ _ _ _

theorem sinking_put (key : Key) (payload : Bytes) : Sinking (put key payload) := by
  refine sinking_bind (serving_look _).sinking fun ro => ?_
  split
  · exact sinking_pure _
  refine sinking_bind (sinking_selectTargets _) fun targets => ?_
  split
  · exact sinking_pure _
  refine sinking_bind (sinking_writeToShards _ _ _) fun first => ?_
  cases first with
  | ok placed => exact (serving_recordPut _ _ _).sinking
  | error e =>
    dsimp only
    split
    · exact sinking_pure _
    have hretry : Sinking (retryTargets key targets) := sinking_bind (sinking_forM sinking_setOffline _) fun _ =>
      sinking_bind (sinking_selectTargets _) fun _ => sinking_pure _
    refine sinking_bind hretry fun others => ?_
    cases others with
    | none => exact sinking_pure _
    | some others =>
      refine sinking_bind (sinking_writeToShards _ _ _) fun second => ?_
      cases second with
      | ok placed => exact (serving_recordPut _ _ _).sinking
      | error e => exact sinking_pure _

theorem sinking_putWithMeta (key : Key) (payload metadata : Bytes) : Sinking (putWithMeta refs key payload metadata) := by
  refine sinking_bind (serving_look _).sinking fun ro => ?_
  split
  · exact sinking_pure _
  refine sinking_bind (sinking_selectTargets _) fun targets =>
    sinking_bind (serving_fanOutWithMeta _ _ _ _ _).sinking fun outcomes =>
    sinking_bind (sinking_markWriteFailures _ _ _ _) fun ids => ?_
  dsimp only
  split
  · exact sinking_bind (serving_fanOutWithMeta _ _ _ _ _).sinking fun _ => (serving_finishWithMeta _ _ _ _ _ _).sinking
  · exact sinking_bind (sinking_pure _) fun _ => (serving_finishWithMeta _ _ _ _ _ _).sinking

variable [Chrono]

theorem sinking_putDeleteMarker (key : Key) : Sinking (putDeleteMarker key) := by
  have hnow : Serving (Proc.step (fun s : Sys => (s.now, s.tick)) fun _ => .other) := only_step fun _ => inService_of_shards rfl rfl
  refine sinking_bind hnow.sinking fun now => sinking_bind (serving_look _).sinking fun reachable => ?_
  split
  · exact sinking_pure _
  refine sinking_bind (serving_look _).sinking fun strict => ?_
  have hrecord : ∀ written : Except Error (List ShardId), Sinking (recordMarker key (Chrono.toRfc3339 now).length written) := by
    intro written
    cases written with
    | error e => exact sinking_pure _
    | ok placed => exact sinking_bind (serving_catalogPut _ _ _ _ _).sinking fun _ => sinking_pure _
  cases strict with
  | true => exact sinking_bind (sinking_writeToShards _ _ _) hrecord
  | false => exact sinking_bind (sinking_writeToShardsInner _ _ _ _ _) hrecord

theorem sinking_delete (key : Key) : Sinking (Sharded.delete key) := by
  refine sinking_bind (serving_look _).sinking fun ro => ?_
  split
  · exact sinking_pure _
  split
  · exact (serving_deleteRaw _).sinking
  refine sinking_bind (sinking_putDeleteMarker _) fun r => ?_
  cases r with
  | error e => exact sinking_pure _
  | ok _ => exact (serving_deleteRaw _).sinking

theorem KeyCall.sinking (c : KeyCall) (refs : RawRefRegistry) (location : Key) : Sinking (c.run refs location) := by
  cases c with
  | delete => exact sinking_delete _
  | write w =>
    cases w with
    | put payload => exact sinking_put _ _
    | withMeta payload m => exact sinking_putWithMeta _ _ _

/-- The registry describes the cluster all along a run. -/
theorem Ran.describes (h : Ran refs location s s') (hd : refs.Describes s.cluster) : refs.Describes s'.cluster := by
  induction h with
  | start => exact hd
  | @call s1 s2 c hran hcall ih =>
    have h1 := c.sinking refs location s1
    rw [hcall] at h1
    exact ih.sinks h1

/-- After a run of successful calls on a key, the map given to the last write is read back if and only if
    the first shard asked that is not silent keeps it. -/
theorem metadata_reads_back_iff {s0 : Sys} (hd : refs.Describes s0.cluster) (hran : Ran refs location s0 s)
    (hw : (w.run refs location).exec s = (.ok (), s')) :
    ReadsBack refs location w s' ↔ ReadsRight refs location w s s' := by
  have hd := hran.describes hd
  obtain ⟨e, h⟩ := wroteLast_of_run hd hw
  refine readsBack_iff h fun x hx => ?_
  rw [h.attached x hx]
  exact hd.attached x _ (h.attached x hx)

end Writes

namespace Sample

def html : Metadata where
  fields := AList.singleton "content-type" "text/html"
  bytes := [0x81, 2]
  named := by
    intro name h
    obtain rfl : name = "content-type" := List.mem_singleton.mp h
    decide
  encodes := by decide +kernel

def bareShard : Sys := sys 1 (config 1 1) fun _ => fresh

/-- Three shards, and the first one is taken out. -/
def oneOut : Sys where
  stores _ := fresh
  cluster := { cluster 3 (config 2 1) with
    shards := [{ healthyShard with attached := false, health := .detached, detachReason := some .manual }, healthyShard, healthyShard] }
  clock := []

end Sample

section Runs

open Sample Raw.Sample

def putAndDeleted : Sys := ((Sharded.delete "k").exec ((put "k" [9]).exec oneOut).2).2

/-- The registry still names the shard that was taken out. -/
theorem raws_describe : (raws 3).Describes oneOut.cluster := by
  constructor
  · intro (x : Nat) st hx
    have hlt : x < 3 := (Cluster.storeRef_eq_some hx).2
    obtain rfl | rfl | rfl : x = 0 ∨ x = 1 ∨ x = 2 := by omega
    · cases hx
    · exact hx
    · exact hx
  · intro (x : Nat) hx hw
    have hlt : x < 3 := Cluster.mem_writable_lt hw
    obtain rfl | rfl | rfl : x = 0 ∨ x = 1 ∨ x = 2 := by omega
    · exact absurd hw (by decide)
    · cases hx
    · cases hx

/-- On raw shards, after a put and a delete. -/
theorem fields_of_a_raw_shard_read_back :
    ReadsBack (raws 3) "k" (.withMeta [1] html) ((putWithMeta (raws 3) "k" [1] html.bytes).exec putAndDeleted).2 := by
  have hput : ((KeyCall.write (.put [9])).run (raws 3) "k").exec oneOut = (.ok (), ((put "k" [9]).exec oneOut).2) :=
    Prod.ext (by decide +kernel) rfl
  have hdelete : (KeyCall.delete.run (raws 3) "k").exec ((put "k" [9]).exec oneOut).2 = (.ok (), putAndDeleted) :=
    Prod.ext (by decide +kernel) rfl
  have hw : ((KeyWrite.withMeta [1] html).run (raws 3) "k").exec putAndDeleted =
      (.ok (), ((putWithMeta (raws 3) "k" [1] html.bytes).exec putAndDeleted).2) := Prod.ext (by decide +kernel) rfl
  have hids : ((putWithMeta (raws 3) "k" [1] html.bytes).exec putAndDeleted).2.readIds "k" = [1, 2] := by decide +kernel
  have hreads : (putAndDeleted.storeAt 1).outcome .get = none := by decide +kernel
  refine (metadata_reads_back_iff raws_describe (.call _ (.call _ (.start _) hput) hdelete) hw).mpr ⟨by decide, ?_⟩
  rw [hids]
  refine ⟨[], 1, [2], rfl, by simp, ?_, trivial⟩
  rintro (h | h)
  · exact h hreads
  · exact absurd h.1 (by decide)

/-- A put over an object with metadata leaves the sidecar, and what it holds is read. -/
theorem a_plain_put_keeps_the_old_metadata : ¬ ∀ (refs : RawRefRegistry) (location : Key) (w : KeyWrite) (s0 s s' : Sys),
    refs.Describes s0.cluster → Ran refs location s0 s → (w.run refs location).exec s = (.ok (), s') →
    ReadsBack refs location w s' := by
  intro h
  have hd : (sidecars 1).Describes bareShard.cluster := by
    constructor
    · intro x st hx
      obtain rfl : x = 0 := Nat.lt_one_iff.mp (Cluster.storeRef_eq_some hx).2
      rfl
    · intro x hx hw
      obtain rfl : x = 0 := Nat.lt_one_iff.mp (Cluster.mem_writable_lt hw)
      cases hx
  have h1 : ((KeyCall.write (.withMeta [1] html)).run (sidecars 1) "k").exec bareShard =
      (.ok (), ((putWithMeta (sidecars 1) "k" [1] html.bytes).exec bareShard).2) := Prod.ext (by decide +kernel) rfl
  obtain ⟨b, hb, hmap⟩ := h (sidecars 1) "k" (.put [2]) bareShard _ _ hd (.call _ (.start _) h1)
    (Prod.ext (by decide +kernel) rfl)
  have hread : ((getMetadata (sidecars 1) "k").exec ((put "k" [2]).exec
      ((putWithMeta (sidecars 1) "k" [1] html.bytes).exec bareShard).2).2).1 = .ok [0x81, 2] := by decide +kernel
  obtain rfl : [0x81, 2] = b := Except.ok.inj (hread.symm.trans hb)
  exact absurd (hmap "content-type") (by decide +kernel)

end Runs

end ObjStr.Sharded
