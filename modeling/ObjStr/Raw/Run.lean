/-
  ObjStr.Raw.Run — runs of the raw store.

  `Op` are the calls that read or change objects, `Call` adds the calls that deal with the index
  on disk. A run formats a device, makes calls whose device calls succeed or fail as scripted,
  and opens devices. `Reach allowed restart` is what runs reach when every call is allowed in
  the state it is made in, and a device is opened after a state only if `restart` relates the two.

  `Op.step` is the only place where the calls are looked at one by one: each is a `Step`, so
  the invariants of `Raw.Invariants` hold along every run.
-/

import ObjStr.Raw.Open

namespace ObjStr.Raw

open ObjStr.Lib DeviceIo

variable [Crates]

/-! ## Calls -/

inductive Op where
  | putOpts (key : Key) (payload : Bytes) (mode : PutMode)
  | putWithMeta (key : Key) (body metadata : Bytes)
  | putWithMetaFromFile (key : Key) (file : SourceFile) (metaLen : UInt16)
  | copy (fromKey toKey : Key)
  | copyIfNotExists (fromKey toKey : Key)
  | rename (fromKey toKey : Key)
  | renameIfNotExists (fromKey toKey : Key)
  | delete (key : Key)
  | updateMetadata (key : Key) (metadata : Bytes)
  | setMetaLen (key : Key) (metaLen : UInt16)
  | putMultipart (location : Key)
  /-- The write of a part: `put_part`'s future, polled. -/
  | putPart (partKey : Key) (payload : Bytes)
  | complete (tmp : TempFile) (location : Key) (partKeys : List Key)
  | abort (partKeys : List Key)
  | deleteTombstone (path : Key)
  | clearTombstones
  | scrubFreeSpace

def Op.run (now : DateTime) : Op → StoreM Unit
  | .putOpts key payload mode => Raw.putOpts now key payload mode
  | .putWithMeta key body metadata => Raw.putWithMeta now key body metadata
  | .putWithMetaFromFile key file metaLen => Raw.putWithMetaFromFile now key file metaLen
  | .copy fromKey toKey => Raw.copy now fromKey toKey
  | .copyIfNotExists fromKey toKey => Raw.copyIfNotExists now fromKey toKey
  | .rename fromKey toKey => Raw.rename fromKey toKey
  | .renameIfNotExists fromKey toKey => Raw.renameIfNotExists fromKey toKey
  | .delete key => Raw.delete key
  | .updateMetadata key metadata => Raw.updateMetadata now key metadata
  | .setMetaLen key metaLen => Raw.setMetaLen key metaLen
  | .putMultipart location => do
    let _ ← Raw.putMultipart location
  | .putPart partKey payload => doPut now partKey payload
  | .complete tmp location partKeys => Raw.complete now tmp location partKeys
  | .abort partKeys => Raw.abort partKeys
  | .deleteTombstone path => do
    let _ ← Raw.deleteTombstone path
  | .clearTombstones => do
    let _ ← Raw.clearTombstones
  | .scrubFreeSpace => Raw.scrubFreeSpace

/-- What a call must meet for its step to be tracked with the given care. -/
def Op.Sound (care : Care) : Op → Prop
  | .putWithMetaFromFile _ file _ => care = .content → file.Whole
  | _ => True

omit [Crates] in
theorem Op.sound_of_ne {care : Care} (h : care ≠ .content) (op : Op) : op.Sound care := by
  cases op with
  | putWithMetaFromFile key file metaLen => exact fun hc => absurd hc h
  | _ => trivial

theorem step_of_wp {care : Care} {α : Type} {s : Store} {p : StoreM α} {Q : α → Store → Prop} {E : RawStoreError → Store → Prop}
    (h : Prog.wp p Q E s) (hQ : ∀ a s', Q a s' → Step care s s') (hE : ∀ e s', E e s' → Step care s s') :
    Step care s (p.exec s).2 := Prog.wp_state (Prog.wp_mono h hQ hE)

omit [Crates] in
theorem exec_discard {α : Type} (p : StoreM α) (s : Store) : (Prog.exec (do let _ ← p) s).2 = (p.exec s).2 := by
  show (Prog.andThen p (fun _ => Prog.ret ()) s).2 = _
  unfold Prog.andThen Prog.exec
  cases p s with
  | mk r s' => cases r <;> rfl

/-- What a call relies on in the state it finds: that the entry it copies or moves is kept, that the parts it joins
    are sound. -/
def Op.Relies (care : Care) (s : Store) : Op → Prop
  | .copy fromKey _ | .copyIfNotExists fromKey _ | .rename fromKey _ | .renameIfNotExists fromKey _ =>
    ∀ info, s.files.lookup fromKey = some info → Kept care s.compression s.io.dev info
  | .complete _ _ partKeys => care ≠ .index → PartsSound s partKeys
  | _ => True

theorem ContentInv.relies {care : Care} {s : Store} (h : ContentInv care s) (op : Op) : op.Relies care s := by
  cases op with
  | copy fromKey _ | copyIfNotExists fromKey _ | rename fromKey _ | renameIfNotExists fromKey _ => exact h fromKey
  | complete _ _ partKeys => exact fun hcare => partsSound_of_kept hcare fun k _ => h k
  | _ => trivial

/-- Every call is a step. -/
theorem Op.step_of {care : Care} {s : Store} (op : Op) (now : DateTime) (hs : SpaceInv s []) (hc : ContentInv .index s)
    (hrel : op.Relies care s) (hsound : op.Sound care) (hdir : care ≠ .index → s.io.direct = true → s.dataEnd % blockAlignment = 0) :
    Step care s ((op.run now).exec s).2 := by
  cases op with
  | putOpts key payload mode => exact step_of_wp (wp_putOpts hs now key payload mode) (fun _ _ h => h.step) (fun _ _ h => h.step)
  | putWithMeta key body metadata =>
    exact step_of_wp (wp_putWithMeta hs now key body metadata) (fun _ _ h => h.2.step) (fun _ _ h => h.step)
  | putWithMetaFromFile key file metaLen =>
    exact step_of_wp (wp_putWithMetaFromFile hs now key file metaLen hsound) (fun _ _ h => h.step) (fun _ _ h => h.step)
  | copy fromKey toKey => exact step_of_wp (wp_doCopy hs now fromKey toKey) (fun _ _ h => h.step hs hrel) (fun _ _ h => h.step)
  | copyIfNotExists fromKey toKey =>
    exact step_of_wp (wp_copyIfNotExists hs now fromKey toKey) (fun _ _ h => h.step hs hrel) (fun _ _ h => h.step)
  | rename fromKey toKey =>
    refine step_of_wp (wp_rename fromKey toKey) ?_ (fun _ _ h => by rw [h]; exact Step.refl _ hs)
    rintro _ s' ⟨info, hk, rfl⟩
    exact step_moved hs (hrel info hk) hk
  | renameIfNotExists fromKey toKey =>
    refine step_of_wp (wp_renameIfNotExists fromKey toKey) ?_ (fun _ _ h => by rw [h]; exact Step.refl _ hs)
    rintro _ s' ⟨info, hk, rfl⟩
    exact step_moved hs (hrel info hk) hk
  | delete key =>
    refine step_of_wp (wp_delete key) ?_ (fun _ _ h => by rw [h]; exact Step.refl _ hs)
    rintro _ s' rfl
    exact step_delete hs key
  | updateMetadata key metadata =>
    exact step_of_wp (wp_updateMetadata hs hc now key metadata) (fun _ _ h => h.step) (fun _ _ h => h.step)
  | setMetaLen key metaLen =>
    refine step_of_wp (wp_setMetaLen key metaLen) ?_ (fun _ _ h => by rw [h]; exact Step.refl _ hs)
    rintro _ s' ⟨info, hk, rfl⟩
    exact ⟨s, [], Prep.refl hs, .amend key info metaLen hk⟩
  | putMultipart location =>
    show Step care s (Prog.exec (do let _ ← Raw.putMultipart location) s).2
    rw [exec_discard]
    exact step_putMultipart hs location
  | putPart partKey payload => exact step_of_wp (wp_doPutWithMeta _ hs now partKey payload 0) (fun _ _ h => h.step) (fun _ _ h => h.step)
  | complete tmp location partKeys =>
    exact step_of_wp (wp_complete hs hc now tmp location partKeys hrel)
      (fun _ _ h => h.step) (fun _ _ h => h.step)
  | abort partKeys =>
    refine step_of_wp (wp_abort partKeys) ?_ (fun _ _ h => h.elim)
    rintro _ s' rfl
    exact step_drop hs partKeys
  | deleteTombstone path =>
    show Step care s (Prog.exec (do let _ ← Raw.deleteTombstone path) s).2
    rw [exec_discard]
    exact step_of_wp (wp_deleteTombstone hs path) (fun _ _ h => h) (fun _ _ h => h)
  | clearTombstones =>
    show Step care s (Prog.exec (do let _ ← Raw.clearTombstones) s).2
    rw [exec_discard]
    exact step_of_wp (wp_clearTombstones hs) (fun _ _ h => h) (fun _ _ h => h)
  | scrubFreeSpace => exact step_of_wp (wp_scrubFreeSpace hs hdir) (fun _ _ h => h.step) (fun _ _ h => h.step)

theorem Op.step {care : Care} {s : Store} (op : Op) (now : DateTime) (hs : SpaceInv s []) (hc : ContentInv care s)
    (hsound : op.Sound care) (hdir : care ≠ .index → s.io.direct = true → s.dataEnd % blockAlignment = 0) :
    Step care s ((op.run now).exec s).2 := op.step_of now hs hc.index (hc.relies op) hsound hdir

inductive Call where
  | op (o : Op)
  | flushIndex
  | repair
  | reloadIndex

def Call.run (now : DateTime) : Call → StoreM Unit
  | .op o => o.run now
  | .flushIndex => Raw.flushIndex
  | .repair => Raw.repair
  | .reloadIndex => do
    let _ ← Raw.reloadIndex

/-! ## Runs -/

/-- The outcomes of the device calls to come. -/
def Store.withScript (s : Store) (script : List Outcome) : Store := s.withIo { s.io with script := script }

inductive Reach (allowed : Store → Call → Prop) (restart : Store → Disk → Prop) : Store → Prop
  | format {opts : FormatOptions} {bytes : Nat → UInt8} {script : List Outcome} {s : Store} {io : DeviceIo}
      (h : (formatWithOptions opts).exec (opts.device bytes script) = (.ok s, io)) : Reach allowed restart s
  | call {s : Store} (hs : Reach allowed restart s) (script : List Outcome) (now : DateTime) (c : Call)
      (h : allowed (s.withScript script) c) : Reach allowed restart ((c.run now).exec (s.withScript script)).2
  | reopen {s s' : Store} {d : Disk} {mode : OpenMode} {script : List Outcome} {io : DeviceIo}
      (hs : Reach allowed restart s) (hd : restart s d)
      (h : (openImpl mode false).exec (.onDisk d false script) = (.ok s', io)) : Reach allowed restart s'

/-- Runs that allow less, on devices of which more is known, reach fewer states. -/
theorem Reach.mono {allowed allowed' : Store → Call → Prop} {restart restart' : Store → Disk → Prop}
    (ha : ∀ s c, allowed s c → allowed' s c) (hr : ∀ s d, restart s d → restart' s d) {s : Store} (h : Reach allowed restart s) :
    Reach allowed' restart' s := by
  induction h with
  | format h => exact .format h
  | call _ script now c hc ih => exact .call ih script now c (ha _ c hc)
  | reopen _ hd hopen ih => exact .reopen ih (hr _ _ hd) hopen

inductive RunFrom (allowed : Store → Call → Prop) (restart : Store → Disk → Prop) (s0 : Store) : Store → Prop
  | start : RunFrom allowed restart s0 s0
  | call {s : Store} (hs : RunFrom allowed restart s0 s) (script : List Outcome) (now : DateTime) (c : Call)
      (h : allowed (s.withScript script) c) : RunFrom allowed restart s0 ((c.run now).exec (s.withScript script)).2
  | reopen {s s' : Store} {d : Disk} {mode : OpenMode} {script : List Outcome} {io : DeviceIo}
      (hs : RunFrom allowed restart s0 s) (hd : restart s d)
      (h : (openImpl mode false).exec (.onDisk d false script) = (.ok s', io)) : RunFrom allowed restart s0 s'

theorem RunFrom.reach {allowed : Store → Call → Prop} {restart : Store → Disk → Prop} {s0 s : Store} (h0 : Reach allowed restart s0)
    (h : RunFrom allowed restart s0 s) : Reach allowed restart s := by
  induction h with
  | start => exact h0
  | call _ script now c hc ih => exact .call ih script now c hc
  | reopen _ hd hopen ih => exact .reopen ih hd hopen

end ObjStr.Raw
