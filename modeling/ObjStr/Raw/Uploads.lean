/-
  ObjStr.Raw.Uploads — multipart uploads, over whole runs of a store that many clients use at once.

  `put_part` names a part at once and returns a future; the future writes the part when it is polled, at any time
  and in any order. `complete` and `abort` go by the names the handle has, and forget them. A session is a store, the
  handles of its uploads, the futures that have not run, and the names of those that have succeeded.
  - `Op.spared`: every call leaves all entries but those of its own keys, and their bytes.
  - `session_obeys`: as long as every future runs while its upload still has its part (`Timely`), and the other calls
    leave the reserved prefix alone (`Outside`), an upload whose parts are all written is completed into their
    concatenation in the order of the calls of `put_part`, no part is listed, and an upload without parts has no entry
    and no space.
  - `a_late_part_stays`: a part that is written after its upload was aborted stays in the index.
-/

import ObjStr.Raw.Sane
import ObjStr.Raw.Listing

namespace ObjStr.Raw

open ObjStr.Lib DeviceIo

/-! ## The names of parts -/

theorem slash_not_mem_digits (n : Nat) : '/' ∉ Nat.toDigits 10 n := fun h =>
  absurd (Nat.isDigit_of_mem_toDigits (by decide) (by decide) h) (by decide)

theorem toDigits_injective {m n : Nat} (h : Nat.toDigits 10 m = Nat.toDigits 10 n) : m = n := by
  rw [← Nat.ofDigitChars_ten_toDigits (n := m), h, Nat.ofDigitChars_ten_toDigits]

theorem toList_partKey (uploadId part : Nat) :
    (partKey uploadId part).toList = multipartTmpPrefix.toList ++ (Nat.toDigits 10 uploadId ++ '/' :: Nat.toDigits 10 part) := by
  have hdigits : ∀ n : Nat, (toString n).toList = Nat.toDigits 10 n := fun n => by
    show (String.ofList (Nat.toDigits 10 n)).toList = _
    exact String.toList_ofList
  have hslash : ("/" : String).toList = ['/'] := rfl
  unfold partKey
  rw [String.toList_append, String.toList_append, String.toList_append, hdigits, hdigits, hslash]
  simp

/-- The name of a part says which upload it is of. -/
theorem partKey_injective {uploadId uploadId' part part' : Nat} (h : partKey uploadId part = partKey uploadId' part') :
    uploadId = uploadId' ∧ part = part' := by
  have h' := congrArg String.toList h
  rw [toList_partKey, toList_partKey, List.append_right_inj,
    List.append_cons_inj_of_notMem (slash_not_mem_digits _) (slash_not_mem_digits _)] at h'
  exact ⟨toDigits_injective h'.1, toDigits_injective h'.2.2⟩

section Uploads

variable [Crates] {s s' s'' : Store}

/-! ## What a call leaves alone -/

def Op.keys : Op → List Key
  | .putOpts key _ _ | .putWithMeta key _ _ | .putWithMetaFromFile key _ _ | .delete key | .updateMetadata key _
  | .setMetaLen key _ => [key]
  | .copy _ toKey | .copyIfNotExists _ toKey => [toKey]
  | .rename fromKey toKey | .renameIfNotExists fromKey toKey => [fromKey, toKey]
  | .putPart partKey _ => [partKey]
  | .complete _ location partKeys => location :: partKeys
  | .abort partKeys => partKeys
  | .putMultipart _ | .deleteTombstone _ | .clearTombstones | .scrubFreeSpace => []

/-- All entries but those of some keys are as they were, and so are the bytes of every old entry. -/
structure Spared (keys : List Key) (s s' : Store) : Prop where
  files : ∀ k ∉ keys, s'.files.lookup k = s.files.lookup k
  compression_eq : s'.compression = s.compression
  /-- No number of an upload is given out twice. -/
  counter : s.nextUploadId ≤ s'.nextUploadId
  bytes : ∀ k info, s.files.lookup k = some info →
    s'.io.dev.read info.offset info.paddedSize = s.io.dev.read info.offset info.paddedSize

omit [Crates] in
theorem Spared.refl (keys : List Key) (s : Store) : Spared keys s s := ⟨fun _ _ => rfl, rfl, Nat.le_refl _, fun _ _ _ => rfl⟩

omit [Crates] in
theorem nextUploadId_removeFile (s : Store) (k : Key) : (s.removeFile k).nextUploadId = s.nextUploadId := by
  unfold Store.removeFile
  split <;> rfl

theorem nextUploadId_dropParts (s : Store) (ks : List Key) : (s.dropParts ks).nextUploadId = s.nextUploadId := by
  unfold Store.dropParts
  induction ks generalizing s with
  | nil => rfl
  | cons k ks ih =>
    rw [List.foldl_cons, ih]
    unfold Store.dropFile
    split
    · exact nextUploadId_removeFile s k
    · rfl

theorem Update.nextUploadId_le {care : Care} {held : List Span} (h : Update care s held s') : s.nextUploadId ≤ s'.nextUploadId := by
  cases h with
  | put k info parts =>
    rw [nextUploadId_dropParts]
    exact (nextUploadId_removeFile s k).ge
  | copy k info => exact (nextUploadId_removeFile s k).ge
  | move fromKey toKey info => exact (nextUploadId_removeFile { s with files := s.files.erase fromKey } toKey).ge
  | drop keys => exact (nextUploadId_dropParts s keys).ge
  | forgetAll =>
    rw [foldl_markShardDirty]
  | upload => exact Nat.le_succ _
  | _ => exact Nat.le_refl _

/-- A call that takes space and then changes the index. -/
theorem Spared.of_update {keys : List Key} {held : List Span} {s1 : Store} (hs : SpaceInv s []) (hp : Prep .slots s held s1)
    (hu : Update .index s1 held s') (hfiles : ∀ k ∉ keys, s'.files.lookup k = s1.files.lookup k) : Spared keys s s' := by
  refine ⟨fun k hk => ?_, ?_, ?_, fun k info hk => ?_⟩
  · rw [hfiles k hk, hp.files_eq]
  · rw [hu.framed]
    exact hp.compression_eq
  · have hle := hu.nextUploadId_le
    rwa [hp.eq] at hle
  · rw [hu.io_eq]
    exact hs.read_eq (hp.wrote (by decide)) hk

theorem Prep.spared (h : Prep .slots s [] s') (hs : SpaceInv s []) (keys : List Key) : Spared keys s s' :=
  .of_update hs h .keep fun _ _ => rfl

theorem Indexed.spared {key : Key} (h : Indexed .slots s key s') (hs : SpaceInv s []) : Spared [key] s s' := by
  obtain ⟨s1, info, hp, rfl, hsize, hkept⟩ := h.done
  refine .of_update hs hp (.put key info [] hsize hkept.index) fun k hk => ?_
  show (s1.replaceFile key info).files.lookup k = _
  rw [lookup_replaceFile, if_neg (fun he => hk (List.mem_singleton.mpr he))]

theorem PutDone.spared {key : Key} {payload : Bytes} {metaLen : UInt16} {parts : List Key}
    (h : PutDone .slots s key payload metaLen parts s') (hs : SpaceInv s []) : Spared (key :: parts) s s' := by
  obtain ⟨s1, info, hp, rfl, hsize, -, hpad, -⟩ := h.done
  refine .of_update hs hp (.put key info parts hsize ⟨hpad, fun ht => absurd rfl ht.ne_index⟩) fun k hk => ?_
  obtain ⟨hkey, hparts⟩ := not_or.mp (List.mem_cons.not.mp hk)
  rw [lookup_dropParts, if_neg hparts, lookup_replaceFile, if_neg hkey]

theorem CopyDone.spared {fromKey toKey : Key} (h : CopyDone .slots s fromKey toKey s') (hs : Sane s) : Spared [toKey] s s' := by
  obtain ⟨s1, info, off, now, hk, hp, rfl, -⟩ := h.done
  refine .of_update hs.space hp (.copy toKey { info with offset := off, createdTxn := s1.superblock.txnId, lastModified := now }
    (hs.space.sized info (mem_values hk)) ⟨(hs.padded fromKey info hk).padded, fun ht => absurd rfl ht.ne_index⟩) fun k hne => ?_
  have hne : k ≠ toKey := fun he => hne (List.mem_singleton.mpr he)
  show ((s1.removeFile toKey).files.insert toKey _).lookup k = _
  rw [AList.lookup_insert_ne hne, lookup_removeFile_ne s1 hne]

theorem Sane.spared_moved {fromKey toKey : Key} {info : ExtentInfo} (hs : Sane s) (hk : s.files.lookup fromKey = some info) :
    Spared [fromKey, toKey] s (s.moved fromKey toKey info) := by
  refine .of_update hs.space (Prep.refl hs.space) (.move fromKey toKey info hk (hs.padded fromKey info hk)) fun k hne => ?_
  simp only [List.mem_cons, List.not_mem_nil, or_false, not_or] at hne
  show ((Store.removeFile { s with files := s.files.erase fromKey } toKey).files.insert toKey info).lookup k = _
  rw [AList.lookup_insert_ne hne.2, lookup_removeFile_ne _ hne.2]
  exact AList.lookup_erase_ne hne.1

theorem SpaceInv.spared_drop (hs : SpaceInv s []) (keys : List Key) : Spared keys s { s.dropParts keys with dirty := true } := by
  refine .of_update hs (Prep.refl hs) (.drop keys) fun k hne => ?_
  show (s.dropParts keys).files.lookup k = _
  rw [lookup_dropParts, if_neg hne]

/-- A call changes its own keys only. -/
theorem Op.spared (op : Op) (now : DateTime) (h : Sane s) (hop : Proper s (.op op)) : Spared op.keys s ((op.run now).exec s).2 := by
  have hs := h.space
  have hprep : ∀ s', Prep .slots s [] s' → Spared op.keys s s' := fun s' hp => hp.spared hs op.keys
  have hsame : ∀ s', s' = s → Spared op.keys s s' := fun s' he => by rw [he]; exact .refl _ s
  cases op with
  | putOpts key payload mode =>
    exact Prog.wp_state (P := Spared [key] s) (Prog.wp_mono (wp_putOpts hs now key payload mode) (fun _ _ hd => hd.spared hs) fun _ => hprep)
  | putWithMeta key body metadata =>
    exact Prog.wp_state (P := Spared [key] s) (Prog.wp_mono (wp_putWithMeta hs now key body metadata) (fun _ _ hd => hd.2.spared hs)
      fun _ => hprep)
  | putWithMetaFromFile key file metaLen =>
    exact Prog.wp_state (P := Spared [key] s) (Prog.wp_mono (wp_putWithMetaFromFile hs now key file metaLen
      fun hc : Care.slots = .content => absurd hc (by decide)) (fun _ _ hd => hd.spared hs) fun _ => hprep)
  | copy fromKey toKey =>
    exact Prog.wp_state (P := Spared [toKey] s) (Prog.wp_mono (wp_doCopy hs now fromKey toKey) (fun _ _ hd => hd.spared h) fun _ => hprep)
  | copyIfNotExists fromKey toKey =>
    exact Prog.wp_state (P := Spared [toKey] s) (Prog.wp_mono (wp_copyIfNotExists hs now fromKey toKey) (fun _ _ hd => hd.spared h)
      fun _ => hprep)
  | rename fromKey toKey =>
    refine Prog.wp_state (P := Spared [fromKey, toKey] s) (Prog.wp_mono (wp_rename fromKey toKey) ?_ fun _ => hsame)
    rintro _ s' ⟨info, hk, rfl⟩
    exact h.spared_moved hk
  | renameIfNotExists fromKey toKey =>
    refine Prog.wp_state (P := Spared [fromKey, toKey] s) (Prog.wp_mono (wp_renameIfNotExists fromKey toKey) ?_ fun _ => hsame)
    rintro _ s' ⟨info, hk, rfl⟩
    exact h.spared_moved hk
  | delete key =>
    refine Prog.wp_state (P := Spared [key] s) (Prog.wp_mono (wp_delete key) ?_ fun _ => hsame)
    rintro _ s' rfl
    split
    · exact hs.spared_drop [key]
    · exact .refl _ s
  | updateMetadata key metadata =>
    refine Prog.wp_state (P := Spared [key] s) (Prog.wp_mono (wp_updateMetadata hs h.padded now key metadata) ?_ fun _ => hprep)
    rintro _ s' ⟨-, info, body, -, hd, -⟩
    exact hd.spared hs
  | setMetaLen key metaLen =>
    refine Prog.wp_state (P := Spared [key] s) (Prog.wp_mono (wp_setMetaLen key metaLen) ?_ fun _ => hsame)
    rintro _ s' ⟨info, hk, rfl⟩
    refine .of_update hs (Prep.refl hs) (.amend key info metaLen hk) fun k hne => ?_
    exact AList.lookup_insert_ne fun he => hne (List.mem_singleton.mpr he)
  | putMultipart location => exact .of_update hs (Prep.refl hs) .upload fun _ _ => rfl
  | putPart partKey payload =>
    exact Prog.wp_state (P := Spared [partKey] s) (Prog.wp_mono (wp_doPutWithMeta .slots hs now partKey payload 0)
      (fun _ _ hd => hd.spared hs) fun _ => hprep)
  | complete tmp location partKeys =>
    refine Prog.wp_state (P := Spared (location :: partKeys) s) (Prog.wp_mono
      (wp_complete hs h.padded now tmp location partKeys fun _ => h.partsSound hop) ?_ fun _ => hprep)
    rintro _ s' ⟨parts, payload, -, hd, -⟩
    exact hd.spared hs
  | abort partKeys => exact hs.spared_drop partKeys
  | deleteTombstone path =>
    show Spared [] s (Prog.exec (do let _ ← Raw.deleteTombstone path) s).2
    rw [exec_discard]
    refine Prog.wp_state (P := Spared [] s) ?_
    unfold Raw.deleteTombstone
    simp only [Prog.wp_bind, Prog.wp_get, Prog.wp_failIf]
    refine ⟨fun _ => .refl _ s, fun _ => ?_⟩
    split
    · exact .refl _ s
    · exact .of_update hs (Prep.refl hs) (.forget path) fun _ _ => rfl
  | clearTombstones =>
    show Spared [] s (Prog.exec (do let _ ← Raw.clearTombstones) s).2
    rw [exec_discard]
    refine Prog.wp_state (P := Spared [] s) ?_
    unfold Raw.clearTombstones
    simp only [Prog.wp_bind, Prog.wp_get, Prog.wp_failIf]
    refine ⟨fun _ => .refl _ s, fun _ => ?_⟩
    split
    · exact .refl _ s
    · refine .of_update hs (Prep.refl hs) .forgetAll fun k _ => ?_
      show (s.tombstones.entries.foldl (fun s e => s.markShardDirty e.1) s).files.lookup k = s.files.lookup k
      rw [foldl_markShardDirty]
  | scrubFreeSpace =>
    exact Prog.wp_state (P := Spared [] s) (Prog.wp_mono (wp_scrubFreeSpace hs fun _ hd => h.laid.dataEnd_aligned hd) (fun _ => hprep)
      fun _ => hprep)

theorem Laid.spared_flush (hl : Laid s) (hs : SpaceInv s []) : Spared [] s (flushIndex.exec s).2 := by
  obtain ⟨hframe, -, hread⟩ := flush_leaves hl
  refine ⟨fun k _ => ?_, ?_, ?_, fun k info hk => ?_⟩
  · rw [hframe]
  · rw [hframe]
  · rw [hframe]
  · have hin := hs.extents.inside info.span (List.mem_map_of_mem (mem_values hk))
    exact hread _ _ hin.1 hin.2.1

def StoresAt (s : Store) (k : Key) (payload : Bytes) : Prop :=
  ∃ info, s.files.lookup k = some info ∧ Stores s.compression s.io.dev info payload

theorem Spared.storesAt {keys : List Key} {k : Key} {payload : Bytes} (h : Spared keys s s') (hs : Sane s) (hk : k ∉ keys)
    (hst : StoresAt s k payload) : StoresAt s' k payload := by
  obtain ⟨info, hlook, hst⟩ := hst
  refine ⟨info, by rw [h.files k hk, hlook], ?_⟩
  have hread := h.bytes k info hlook
  rw [(hs.padded k info hlook).padded] at hread
  rw [h.compression_eq]
  exact hst.congr hread

/-! ## Sessions -/

/-- A part that was given to `put_part`: its upload, its name, its bytes. -/
structure Part where
  uploadId : Nat
  key : Key
  payload : Bytes

structure Upload where
  handle : RawMultipartUpload
  /-- The parts of the handle, in the order of the calls of `put_part`. -/
  parts : List Part

structure Session where
  store : Store
  /-- The handles that were given out, by their number. -/
  uploads : Nat → Option Upload
  /-- The futures of `put_part` that have not run. -/
  pending : List Part
  /-- The names of the parts whose futures have succeeded. -/
  landed : List Key

inductive Action where
  | call (c : Call)
  | putMultipart (location : Key)
  | putPart (id : Nat) (payload : Bytes)
  /-- Poll one of the futures. -/
  | poll (i : Nat)
  | complete (id : Nat) (tmp : TempFile)
  | abort (id : Nat)

namespace Session

def new (s : Store) : Session := ⟨s, fun _ => none, [], []⟩

/-- `part_keys.clear()`. -/
def cleared (u : Upload) : Upload := ⟨{ u.handle with partKeys := [] }, []⟩

def setUpload (x : Session) (id : Nat) (u : Upload) : Session := { x with uploads := Function.update x.uploads id (some u) }

/-- `put_part`: the part has its name, and its future is yet to run. -/
def given (x : Session) (id : Nat) (u : Upload) (payload : Bytes) : Session :=
  let part : Part := ⟨id, u.handle.putPart.1, payload⟩
  { x with pending := x.pending ++ [part] }.setUpload id ⟨u.handle.putPart.2, u.parts ++ [part]⟩

/-- A call on a handle that takes its parts if it succeeds. -/
def finish (x : Session) (id : Nat) (u : Upload) (r : Except RawStoreError Unit × Store) : Session :=
  match r with
  | (.ok _, s) => { x with store := s }.setUpload id (cleared u)
  | (.error _, s) => { x with store := s }

def act (x : Session) (script : List Outcome) (now : DateTime) : Action → Session
  | .call c => { x with store := ((c.run now).exec (x.store.withScript script)).2 }
  | .putMultipart location =>
    match (Raw.putMultipart location).exec (x.store.withScript script) with
    | (.ok handle, s) => { x with store := s }.setUpload handle.uploadId ⟨handle, []⟩
    | (.error _, s) => { x with store := s }
  | .putPart id payload =>
    match x.uploads id with
    | none => x
    | some u => x.given id u payload
  | .poll i =>
    match x.pending[i]? with
    | none => x
    | some part =>
      match (doPut now part.key part.payload).exec (x.store.withScript script) with
      | (.ok _, s) => { x with store := s, pending := x.pending.eraseIdx i, landed := part.key :: x.landed }
      | (.error _, s) => { x with store := s, pending := x.pending.eraseIdx i }
  | .complete id tmp =>
    match x.uploads id with
    | none => x
    | some u =>
      x.finish id u ((Raw.complete now tmp u.handle.location u.handle.partKeys).exec (x.store.withScript script))
  | .abort id =>
    match x.uploads id with
    | none => x
    | some u => x.finish id u ((Raw.abort u.handle.partKeys).exec (x.store.withScript script))

end Session

/-- The runs of sessions: a store is formatted, used by clients, and opened again, which ends the session. -/
inductive SessionRun (allowed : Session → Action → Prop) : Session → Prop
  | format {opts : FormatOptions} {bytes : Nat → UInt8} {script : List Outcome} {s : Store} {io : DeviceIo}
      (h : (formatWithOptions opts).exec (opts.device bytes script) = (.ok s, io)) : SessionRun allowed (.new s)
  | act {x : Session} (hx : SessionRun allowed x) (script : List Outcome) (now : DateTime) (a : Action) (h : allowed x a) :
      SessionRun allowed (x.act script now a)
  | reopen {x : Session} {s : Store} {d : Disk} {mode : OpenMode} {script : List Outcome} {io : DeviceIo}
      (hx : SessionRun allowed x) (hd : Committed x.store d)
      (h : (openImpl mode false).exec (.onDisk d false script) = (.ok s, io)) : SessionRun allowed (.new s)

/-- The other calls leave the reserved prefix alone, and none reloads the index. -/
def Call.Outside : Call → Prop
  | .op (.complete ..) | .reloadIndex => False
  | .op o => ∀ k ∈ o.keys, ¬ Reserved k
  | .flushIndex | .repair => True

/-- No client names a key of the reserved prefix. -/
def Outside (_ : Session) : Action → Prop
  | .call c => c.Outside
  | .putMultipart location => ¬ Reserved location
  | _ => True

/-- A future runs while its upload still has the part. -/
def Timely (x : Session) : Action → Prop
  | .poll i => ∀ part, x.pending[i]? = some part → ∃ u, x.uploads part.uploadId = some u ∧ part.key ∈ u.handle.partKeys
  | _ => True

structure MultipartLaw (x : Session) : Prop where
  /-- An upload whose parts are all written is completed into them, one after the other. -/
  joined : ∀ id u script now tmp s', x.uploads id = some u → (∀ p ∈ u.parts, p.key ∈ x.landed) →
    (complete now tmp u.handle.location u.handle.partKeys).exec (x.store.withScript script) = (.ok (), s') →
    ∃ info, s'.files.lookup u.handle.location = some info ∧ info.metaLen = 0 ∧
      Stores s'.compression s'.io.dev info (u.parts.map Part.payload).flatten
  /-- No listing depends on the parts. -/
  hidden : ∀ pre, x.store.list pre = x.store.visible.list pre ∧ x.store.listWithMeta pre = x.store.visible.listWithMeta pre ∧
    x.store.listWithDelimiter pre = x.store.visible.listWithDelimiter pre
  /-- An upload that has been completed or aborted has no entry in the index. -/
  cleaned : ∀ id u, x.uploads id = some u → u.handle.partKeys = [] → ∀ part, x.store.files.lookup (partKey id part) = none
  /-- What no entry has is free. -/
  space : ∃ a, x.store.allocator = some a ∧ a.freeList = (rebuildFreeList x.store.files x.store.dataEnd).2

/-! ## What sessions keep -/

def Upload.Named (id : Nat) (u : Upload) (k : Key) : Prop := ∃ n < u.handle.partCount, k = partKey id n

structure Upload.Ok (id : Nat) (u : Upload) : Prop where
  uploadId_eq : u.handle.uploadId = id
  location : ¬ Reserved u.handle.location
  keys : u.handle.partKeys = u.parts.map Part.key
  named : ∀ p ∈ u.parts, u.Named id p.key
  nodup : (u.parts.map Part.key).Nodup

structure Tracked (x : Session) : Prop where
  sane : Sane x.store
  uploads : ∀ id u, x.uploads id = some u → u.Ok id ∧ id < x.store.nextUploadId
  pending : ∀ p ∈ x.pending, ∃ u, x.uploads p.uploadId = some u ∧ u.Named p.uploadId p.key ∧
    (p.key ∈ u.handle.partKeys → p ∈ u.parts)
  landed : ∀ k ∈ x.landed, ∃ id u, x.uploads id = some u ∧ u.Named id k
  /-- A part that has landed is stored. -/
  stored : ∀ id u, x.uploads id = some u → ∀ p ∈ u.parts, p.key ∈ x.landed → StoresAt x.store p.key p.payload
  /-- Every entry of the reserved prefix is a part of an upload. -/
  owned : ∀ k, Reserved k → x.store.files.lookup k ≠ none → ∃ id u, x.uploads id = some u ∧ k ∈ u.handle.partKeys

variable {x : Session}

omit [Crates] in
theorem Upload.Named.reserved {id : Nat} {u : Upload} {k : Key} (h : u.Named id k) : Reserved k := by
  obtain ⟨n, -, rfl⟩ := h
  exact reserved_partKey id n

omit [Crates] in
/-- A name is of one upload only. -/
theorem Upload.Named.inj {id id' : Nat} {u u' : Upload} {k : Key} (h : u.Named id k) (h' : u'.Named id' k) : id = id' := by
  obtain ⟨n, -, rfl⟩ := h
  obtain ⟨n', -, he⟩ := h'
  exact (partKey_injective he).1

omit [Crates] in
theorem Upload.Ok.named_of_mem {id : Nat} {u : Upload} {k : Key} (h : u.Ok id) (hk : k ∈ u.handle.partKeys) : u.Named id k := by
  rw [h.keys] at hk
  obtain ⟨p, hp, rfl⟩ := List.mem_map.mp hk
  exact h.named p hp

omit [Crates] in
theorem Upload.Ok.reserved {id : Nat} {u : Upload} (h : u.Ok id) : ∀ k ∈ u.handle.partKeys, Reserved k := fun _ hk =>
  (h.named_of_mem hk).reserved

omit [Crates] in
/-- The parts of an upload differ in their names. -/
theorem Upload.Ok.eq_of_key {id : Nat} {u : Upload} (h : u.Ok id) {p q : Part} (hp : p ∈ u.parts) (hq : q ∈ u.parts)
    (he : p.key = q.key) : p = q := List.inj_on_of_nodup_map h.nodup hp hq he

omit [Crates] in
theorem Upload.Ok.cleared {id : Nat} {u : Upload} (h : u.Ok id) : (Session.cleared u).Ok id :=
  ⟨h.uploadId_eq, h.location, rfl, (fun _ hp => nomatch hp), List.nodup_nil⟩

theorem Tracked.start (hs : Sane s) (hclean : ∀ k, Reserved k → s.files.lookup k = none) : Tracked (.new s) :=
  ⟨hs, (fun _ _ hu => nomatch hu), (fun _ hp => nomatch hp), (fun _ hk => nomatch hk), (fun _ _ hu => nomatch hu),
    fun k hk hlook => absurd (hclean k hk) hlook⟩

/-- A call that changes no entry of the reserved prefix. -/
theorem Tracked.spared (h : Tracked x) {keys : List Key} (hs : Sane s') (hsp : Spared keys x.store s')
    (hkeys : ∀ k ∈ keys, ¬ Reserved k) : Tracked { x with store := s' } := by
  have hout : ∀ k, Reserved k → k ∉ keys := fun k hk hmem => hkeys k hmem hk
  refine ⟨hs, fun id u hu => ?_, h.pending, h.landed, fun id u hu p hp hl => ?_, fun k hk hlook => ?_⟩
  · exact ⟨(h.uploads id u hu).1, Nat.lt_of_lt_of_le (h.uploads id u hu).2 hsp.counter⟩
  · exact hsp.storesAt h.sane (hout _ ((h.uploads id u hu).1.named p hp).reserved) (h.stored id u hu p hp hl)
  · refine h.owned k hk ?_
    rw [← hsp.files k (hout k hk)]
    exact hlook

theorem Tracked.forget (h : Tracked x) (i : Nat) : Tracked { x with pending := x.pending.eraseIdx i } :=
  ⟨h.sane, h.uploads, fun p hp => h.pending p (List.mem_of_mem_eraseIdx hp), h.landed, h.stored, h.owned⟩

/-- A future that succeeds while its upload has the part. -/
theorem Tracked.landing (h : Tracked x) {part : Part} (hpart : part ∈ x.pending) {u : Upload}
    (hu : x.uploads part.uploadId = some u) (hmem : part.key ∈ u.handle.partKeys) (hs : Sane s')
    (hsp : Spared [part.key] x.store s') (hst : StoresAt s' part.key part.payload) :
    Tracked { x with store := s', landed := part.key :: x.landed } := by
  obtain ⟨u', hu', hnamed, hparts⟩ := h.pending part hpart
  obtain rfl : u = u' := Option.some.inj (hu.symm.trans hu')
  have hpu := hparts hmem
  refine ⟨hs, fun id u hu => ?_, h.pending, fun k hk => ?_, fun id v hv p hp hl => ?_, fun k hk hlook => ?_⟩
  · exact ⟨(h.uploads id u hu).1, Nat.lt_of_lt_of_le (h.uploads id u hu).2 hsp.counter⟩
  · rcases List.mem_cons.mp hk with rfl | hk
    · exact ⟨_, u, hu, hnamed⟩
    · exact h.landed k hk
  · by_cases hkey : p.key = part.key
    · have hok := (h.uploads id v hv).1
      have hid : id = part.uploadId := (hok.named p hp).inj (by rw [hkey]; exact hnamed)
      subst hid
      obtain rfl : u = v := Option.some.inj (hu.symm.trans hv)
      rw [hok.eq_of_key hp hpu hkey]
      exact hst
    · have hl : p.key ∈ x.landed := (List.mem_cons.mp hl).resolve_left hkey
      exact hsp.storesAt h.sane (fun hm => hkey (List.mem_singleton.mp hm)) (h.stored id v hv p hp hl)
  · by_cases hkey : k = part.key
    · exact ⟨_, u, hu, by rw [hkey]; exact hmem⟩
    · refine h.owned k hk ?_
      rw [← hsp.files k fun hm => hkey (List.mem_singleton.mp hm)]
      exact hlook

omit [Crates] in
theorem setUpload_some {id id' : Nat} {u u' : Upload} (h : (x.setUpload id u).uploads id' = some u') :
    id' = id ∧ u' = u ∨ id' ≠ id ∧ x.uploads id' = some u' := by
  by_cases he : id' = id
  · subst he
    have h : Function.update x.uploads id' (some u) id' = some u' := h
    rw [Function.update_self] at h
    exact .inl ⟨rfl, (Option.some.inj h).symm⟩
  · have h : Function.update x.uploads id (some u) id' = some u' := h
    rw [Function.update_of_ne he] at h
    exact .inr ⟨he, h⟩

omit [Crates] in
theorem setUpload_self (x : Session) (id : Nat) (u : Upload) : (x.setUpload id u).uploads id = some u := Function.update_self ..

omit [Crates] in
theorem setUpload_ne {id id' : Nat} (x : Session) (u : Upload) (h : id' ≠ id) : (x.setUpload id u).uploads id' = x.uploads id' :=
  Function.update_of_ne h ..

/-- A new upload. -/
theorem Tracked.begin (h : Tracked x) {location : Key} (hloc : ¬ Reserved location) :
    Tracked ({ x with store := { x.store with nextUploadId := x.store.nextUploadId + 1 } }.setUpload x.store.nextUploadId
      ⟨⟨location, x.store.nextUploadId, 0, []⟩, []⟩) := by
  have hstep : Step .slots x.store { x.store with nextUploadId := x.store.nextUploadId + 1 } :=
    ⟨x.store, [], Prep.refl h.sane.space, .upload⟩
  -- the number has not been given out
  have hne : ∀ id u, x.uploads id = some u → id ≠ x.store.nextUploadId := fun id u hu he => by
    have := (h.uploads id u hu).2
    omega
  have hkept : ∀ id u, x.uploads id = some u →
      ({ x with store := { x.store with nextUploadId := x.store.nextUploadId + 1 } }.setUpload x.store.nextUploadId
        ⟨⟨location, x.store.nextUploadId, 0, []⟩, []⟩).uploads id = some u := fun id u hu => by
    rw [setUpload_ne _ _ (hne id u hu)]
    exact hu
  refine ⟨h.sane.of_step hstep, fun id u hu => ?_, fun p hp => ?_, fun k hk => ?_, fun id u hu p hp hl => ?_, fun k hk hlook => ?_⟩
  · rcases setUpload_some hu with ⟨rfl, rfl⟩ | ⟨-, hu⟩
    · exact ⟨⟨rfl, hloc, rfl, (fun _ hp => nomatch hp), List.nodup_nil⟩, Nat.lt_succ_self _⟩
    · exact ⟨(h.uploads id u hu).1, Nat.lt_succ_of_lt (h.uploads id u hu).2⟩
  · obtain ⟨u, hu, hrest⟩ := h.pending p hp
    exact ⟨u, hkept _ u hu, hrest⟩
  · obtain ⟨id, u, hu, hnamed⟩ := h.landed k hk
    exact ⟨id, u, hkept id u hu, hnamed⟩
  · rcases setUpload_some hu with ⟨rfl, rfl⟩ | ⟨-, hu⟩
    · cases hp
    · exact h.stored id u hu p hp hl
  · obtain ⟨id, u, hu, hk⟩ := h.owned k hk hlook
    exact ⟨id, u, hkept id u hu, hk⟩

/-- A new part. -/
theorem Tracked.given (h : Tracked x) {id : Nat} {u : Upload} (hu : x.uploads id = some u) (payload : Bytes) :
    Tracked (x.given id u payload) := by
  have hok := (h.uploads id u hu).1
  have hkey : u.handle.putPart.1 = partKey id u.handle.partCount := by
    rw [← hok.uploadId_eq]
    rfl
  have hnew : Upload.Named id ⟨u.handle.putPart.2, u.parts ++ [⟨id, u.handle.putPart.1, payload⟩]⟩ u.handle.putPart.1 :=
    ⟨u.handle.partCount, Nat.lt_succ_self _, hkey⟩
  have hold : ∀ k, u.Named id k → Upload.Named id ⟨u.handle.putPart.2, u.parts ++ [⟨id, u.handle.putPart.1, payload⟩]⟩ k := by
    intro k hn
    obtain ⟨n, hn, rfl⟩ := hn
    exact ⟨n, Nat.lt_succ_of_lt hn, rfl⟩
  -- the name has not been given out
  have hfresh : ∀ k, u.Named id k → k ≠ u.handle.putPart.1 := by
    intro k hn he
    obtain ⟨n, hn, rfl⟩ := hn
    rw [hkey] at he
    have := (partKey_injective he).2
    omega
  have hpartKeys : u.handle.putPart.2.partKeys = u.handle.partKeys ++ [u.handle.putPart.1] := rfl
  refine ⟨h.sane, fun id' v hv => ?_, fun p hp => ?_, fun k hk => ?_, fun id' v hv p hp hl => ?_, fun k hk hlook => ?_⟩
  · rcases setUpload_some hv with ⟨rfl, rfl⟩ | ⟨-, hv⟩
    · refine ⟨⟨hok.uploadId_eq, hok.location, ?_, fun p hp => ?_, ?_⟩, (h.uploads id' u hu).2⟩
      · rw [List.map_append, ← hok.keys]
        exact hpartKeys
      · rcases List.mem_append.mp hp with hp | hp
        · exact hold _ (hok.named p hp)
        · obtain rfl := List.mem_singleton.mp hp
          exact hnew
      · rw [List.map_append, List.nodup_append]
        refine ⟨hok.nodup, List.nodup_singleton _, fun k hk k' hk' => ?_⟩
        obtain ⟨p, hp, rfl⟩ := List.mem_map.mp hk
        obtain rfl := List.mem_singleton.mp hk'
        exact hfresh _ (hok.named p hp)
    · exact h.uploads id' v hv
  · rcases List.mem_append.mp hp with hp | hp
    · obtain ⟨v, hv, hnamed, hparts⟩ := h.pending p hp
      by_cases hid : p.uploadId = id
      · subst hid
        obtain rfl : u = v := Option.some.inj (hu.symm.trans hv)
        refine ⟨_, setUpload_self _ _ _, hold _ hnamed, fun hm => ?_⟩
        rcases List.mem_append.mp hm with hm | hm
        · exact List.mem_append_left _ (hparts hm)
        · exact absurd (List.mem_singleton.mp hm) (hfresh _ hnamed)
      · exact ⟨v, (setUpload_ne _ _ hid).trans hv, hnamed, hparts⟩
    · obtain rfl := List.mem_singleton.mp hp
      exact ⟨_, setUpload_self _ _ _, hnew, fun _ => List.mem_append_right _ (List.mem_singleton_self _)⟩
  · obtain ⟨id', v, hv, hnamed⟩ := h.landed k hk
    by_cases hid : id' = id
    · subst hid
      obtain rfl : u = v := Option.some.inj (hu.symm.trans hv)
      exact ⟨_, _, setUpload_self _ _ _, hold _ hnamed⟩
    · exact ⟨id', v, (setUpload_ne _ _ hid).trans hv, hnamed⟩
  · rcases setUpload_some hv with ⟨rfl, rfl⟩ | ⟨-, hv⟩
    · rcases List.mem_append.mp hp with hp | hp
      · exact h.stored id' u hu p hp hl
      · -- no future of the name has run
        obtain rfl := List.mem_singleton.mp hp
        obtain ⟨id'', v, hv, hnamed⟩ := h.landed _ hl
        have hid := hnew.inj hnamed
        subst hid
        obtain rfl : u = v := Option.some.inj (hu.symm.trans hv)
        exact absurd rfl (hfresh _ hnamed)
    · exact h.stored id' v hv p hp hl
  · obtain ⟨id', v, hv, hk⟩ := h.owned k hk hlook
    by_cases hid : id' = id
    · subst hid
      obtain rfl : u = v := Option.some.inj (hu.symm.trans hv)
      exact ⟨_, _, setUpload_self _ _ _, List.mem_append_left _ hk⟩
    · exact ⟨id', v, (setUpload_ne _ _ hid).trans hv, hk⟩

/-- An upload that gives up its parts. -/
theorem Tracked.finished (h : Tracked x) {id : Nat} {u : Upload} (hu : x.uploads id = some u) {keys : List Key} (hs : Sane s')
    (hsp : Spared keys x.store s') (hkeys : ∀ k ∈ keys, Reserved k → k ∈ u.handle.partKeys)
    (hgone : ∀ k ∈ u.handle.partKeys, s'.files.lookup k = none) :
    Tracked ({ x with store := s' }.setUpload id (Session.cleared u)) := by
  have hok := (h.uploads id u hu).1
  -- another upload's parts are not among the keys
  have hother : ∀ id' v, x.uploads id' = some v → id' ≠ id → ∀ k, v.Named id' k → k ∉ keys := by
    intro id' v _ hne k hn hm
    exact hne (hn.inj (hok.named_of_mem (hkeys k hm hn.reserved)))
  have hsame : ∀ id' v k, x.uploads id' = some v → v.Named id' k →
      ∃ w, (({ x with store := s' } : Session).setUpload id (Session.cleared u)).uploads id' = some w ∧ w.Named id' k := by
    intro id' v k hv hn
    by_cases hid : id' = id
    · subst hid
      obtain rfl : u = v := Option.some.inj (hu.symm.trans hv)
      exact ⟨_, setUpload_self _ _ _, hn⟩
    · exact ⟨v, (setUpload_ne _ _ hid).trans hv, hn⟩
  refine ⟨hs, fun id' v hv => ?_, fun p hp => ?_, fun k hk => ?_, fun id' v hv p hp hl => ?_, fun k hk hlook => ?_⟩
  · rcases setUpload_some hv with ⟨rfl, rfl⟩ | ⟨-, hv⟩
    · exact ⟨hok.cleared, Nat.lt_of_lt_of_le (h.uploads id' u hu).2 hsp.counter⟩
    · exact ⟨(h.uploads id' v hv).1, Nat.lt_of_lt_of_le (h.uploads id' v hv).2 hsp.counter⟩
  · obtain ⟨v, hv, hnamed, hparts⟩ := h.pending p hp
    by_cases hid : p.uploadId = id
    · subst hid
      obtain rfl : u = v := Option.some.inj (hu.symm.trans hv)
      exact ⟨_, setUpload_self _ _ _, hnamed, fun hm => nomatch hm⟩
    · exact ⟨v, (setUpload_ne _ _ hid).trans hv, hnamed, hparts⟩
  · obtain ⟨id', v, hv, hnamed⟩ := h.landed k hk
    obtain ⟨w, hw, hn⟩ := hsame id' v k hv hnamed
    exact ⟨id', w, hw, hn⟩
  · rcases setUpload_some hv with ⟨rfl, rfl⟩ | ⟨hne, hv⟩
    · cases hp
    · exact hsp.storesAt h.sane (hother id' v hv hne _ ((h.uploads id' v hv).1.named p hp)) (h.stored id' v hv p hp hl)
  · by_cases hmem : k ∈ u.handle.partKeys
    · exact absurd (hgone k hmem) hlook
    · have hk' : k ∉ keys := fun hm => hmem (hkeys k hm hk)
      have hlook' : x.store.files.lookup k ≠ none := by
        rw [← hsp.files k hk']
        exact hlook
      obtain ⟨id', v, hv, hkv⟩ := h.owned k hk hlook'
      have hne : id' ≠ id := by
        intro hid
        subst hid
        obtain rfl : u = v := Option.some.inj (hu.symm.trans hv)
        exact hmem hkv
      exact ⟨id', v, (setUpload_ne _ _ hne).trans hv, hkv⟩

/-! ## Runs -/

omit [Crates] in
theorem Call.Outside.proper {o : Op} (h : Call.Outside (.op o)) (s : Store) : Proper s (.op o) := by
  cases o with
  | copy _ toKey | copyIfNotExists _ toKey => exact h toKey (List.mem_singleton_self _)
  | rename _ toKey | renameIfNotExists _ toKey => exact h toKey (List.mem_cons_of_mem _ (List.mem_singleton_self _))
  | complete => exact h.elim
  | _ => trivial

/-- A call outside the reserved prefix. -/
theorem Tracked.call (h : Tracked x) (script : List Outcome) (now : DateTime) {c : Call} (hc : c.Outside) :
    Tracked (x.act script now (.call c)) := by
  have hs := h.sane.withScript script
  cases c with
  | op o =>
    have hproper : Proper (x.store.withScript script) (.op o) := Call.Outside.proper hc _
    have hsp := o.spared now hs hproper
    have hsp : Spared o.keys x.store _ := ⟨hsp.files, hsp.compression_eq, hsp.counter, hsp.bytes⟩
    refine h.spared (hs.op o now hproper) hsp ?_
    cases o with
    | complete => exact hc.elim
    | _ => exact hc
  | flushIndex =>
    have hsp := hs.laid.spared_flush hs.space
    exact h.spared hs.flush ⟨hsp.files, hsp.compression_eq, hsp.counter, hsp.bytes⟩ (fun _ hk => nomatch hk)
  | repair =>
    have hsp := hs.laid.spared_flush hs.space
    have heq : x.act script now (.call .repair) = { x with store := (flushIndex.exec (x.store.withScript script)).2 } := by
      show ({ x with store := _ } : Session) = _
      rw [exec_repair hs.space]
    rw [heq]
    exact h.spared hs.flush ⟨hsp.files, hsp.compression_eq, hsp.counter, hsp.bytes⟩ (fun _ hk => nomatch hk)
  | reloadIndex => exact hc.elim

/-- A future that runs while its upload has the part. -/
theorem Tracked.poll (h : Tracked x) (script : List Outcome) (now : DateTime) {i : Nat} (ht : Timely x (.poll i)) :
    Tracked (x.act script now (.poll i)) := by
  have hs := h.sane.withScript script
  dsimp only [Session.act]
  cases hpart : x.pending[i]? with
  | none => exact h
  | some part =>
    obtain ⟨u, hu, hmem⟩ := ht part hpart
    have hput := wp_doPutWithMeta .slots hs.space now part.key part.payload 0
    dsimp only
    cases hrun : (doPut now part.key part.payload).exec (x.store.withScript script) with
    | mk r s' =>
      cases r with
      | ok a =>
        have hdone := Prog.wp_ok hput hrun
        have hsp := hdone.spared hs.space
        have hst : StoresAt s' part.key part.payload := by
          obtain ⟨s1, info, hp, rfl, -, -, -, hstores⟩ := hdone.done
          refine ⟨info, ?_, ?_⟩
          · show (s1.replaceFile part.key info).files.lookup part.key = _
            rw [lookup_replaceFile, if_pos rfl]
          · have hstores := hstores (by decide)
            rw [← hp.compression_eq] at hstores
            have hframed := framed_replaceFile s1 part.key info
            show Stores (s1.replaceFile part.key info).compression (s1.replaceFile part.key info).io.dev info part.payload
            rw [hframed]
            exact hstores
        exact (h.landing (List.mem_of_getElem? hpart) hu hmem (hs.of_step hdone.step)
          ⟨hsp.files, hsp.compression_eq, hsp.counter, hsp.bytes⟩ hst).forget i
      | error e =>
        have hp := Prog.wp_error hput hrun
        have hsp := hp.spared hs.space []
        exact (h.spared (hs.of_step hp.step) ⟨hsp.files, hsp.compression_eq, hsp.counter, hsp.bytes⟩
          (fun _ hk => nomatch hk)).forget i

theorem Tracked.complete (h : Tracked x) (script : List Outcome) (now : DateTime) (id : Nat) (tmp : TempFile) :
    Tracked (x.act script now (.complete id tmp)) := by
  have hs := h.sane.withScript script
  dsimp only [Session.act]
  cases hu : x.uploads id with
  | none => exact h
  | some u =>
    have hok := (h.uploads id u hu).1
    have hrun := wp_complete hs.space hs.padded now tmp u.handle.location u.handle.partKeys
      (fun _ : Care.slots ≠ .index => hs.partsSound hok.reserved)
    dsimp only
    unfold Session.finish
    cases hexec : (Raw.complete now tmp u.handle.location u.handle.partKeys).exec (x.store.withScript script) with
    | mk r s' =>
      cases r with
      | ok a =>
        obtain ⟨parts, payload, -, hd, -⟩ := (Prog.wp_ok hrun hexec).done
        have hsp := hd.spared hs.space
        refine h.finished hu (hs.of_step hd.step) ⟨hsp.files, hsp.compression_eq, hsp.counter, hsp.bytes⟩ (fun k hk hres => ?_)
          fun k hk => ?_
        · exact (List.mem_cons.mp hk).resolve_left fun he => hok.location (he ▸ hres)
        · obtain ⟨s1, info, -, rfl, -⟩ := hd.done
          rw [lookup_dropParts, if_pos hk]
      | error e =>
        have hp := Prog.wp_error hrun hexec
        have hsp := hp.spared hs.space []
        exact h.spared (hs.of_step hp.step) ⟨hsp.files, hsp.compression_eq, hsp.counter, hsp.bytes⟩ (fun _ hk => nomatch hk)

theorem Tracked.abort (h : Tracked x) (script : List Outcome) (now : DateTime) (id : Nat) :
    Tracked (x.act script now (.abort id)) := by
  have hs := h.sane.withScript script
  dsimp only [Session.act]
  cases hu : x.uploads id with
  | none => exact h
  | some u =>
    have hsp := hs.space.spared_drop u.handle.partKeys
    refine h.finished hu (hs.of_step (step_drop hs.space u.handle.partKeys))
      ⟨hsp.files, hsp.compression_eq, hsp.counter, hsp.bytes⟩ (fun k hk _ => hk) fun k hk => ?_
    show ((x.store.withScript script).dropParts u.handle.partKeys).files.lookup k = none
    rw [lookup_dropParts, if_pos hk]

/-- A condition on the steps of a session. -/
def Orderly (x : Session) (a : Action) : Prop := Outside x a ∧ Timely x a

theorem Tracked.act (h : Tracked x) (script : List Outcome) (now : DateTime) {a : Action} (ha : Orderly x a) :
    Tracked (x.act script now a) := by
  cases a with
  | call c => exact h.call script now ha.1
  | putMultipart location =>
    have hsp : Spared [] x.store (x.store.withScript script) := ⟨fun _ _ => rfl, rfl, Nat.le_refl _, fun _ _ _ => rfl⟩
    have h' : Tracked { x with store := x.store.withScript script } :=
      h.spared (h.sane.withScript script) hsp (fun _ hk => nomatch hk)
    exact h'.begin ha.1
  | putPart id payload =>
    dsimp only [Session.act]
    cases hu : x.uploads id with
    | none => exact h
    | some u => exact h.given hu payload
  | poll i => exact h.poll script now ha.2
  | complete id tmp => exact h.complete script now id tmp
  | abort id => exact h.abort script now id

theorem sessionRun_tracked (h : SessionRun Orderly x) : Tracked x := by
  induction h with
  | @format _ _ _ s _ h =>
    have hf := formatted h
    refine .start hf.sane fun k _ => ?_
    obtain ⟨io, rfl, -⟩ := hf.store
    exact AList.lookup_empty k
  | act _ script now a ha ih => exact ih.act script now ha
  | reopen _ hd hopen ih =>
    obtain ⟨hs, hnone⟩ := ih.sane.reopened hd hopen
    exact .start hs hnone

/-- Parts that are stored are read back. -/
theorem Tracked.read (h : Tracked x) {id : Nat} {u : Upload} (hu : x.uploads id = some u) (hl : ∀ p ∈ u.parts, p.key ∈ x.landed)
    {infos : List ExtentInfo} {contents : List Bytes} (hparts : PartsIndexed x.store u.handle.partKeys infos)
    (hread : PartsRead x.store.compression x.store.io.dev infos contents) : contents = u.parts.map Part.payload := by
  have hstored := h.stored id u hu
  rw [(h.uploads id u hu).1.keys] at hparts
  generalize u.parts = parts at hstored hl hparts ⊢
  induction parts generalizing infos contents with
  | nil =>
    cases hparts
    cases hread
    rfl
  | cons p parts ih =>
    cases hparts with
    | cons hk hparts =>
      cases hread with
      | cons hr hread =>
        obtain ⟨info, hk', hst⟩ := hstored p (by simp) (hl p (by simp))
        rw [hk] at hk'
        obtain rfl := Option.some.inj hk'
        rw [hst.payloadOf] at hr
        rw [List.map_cons, Except.ok.inj hr,
          ih hread (fun q hq => hstored q (List.mem_cons_of_mem p hq)) (fun q hq => hl q (List.mem_cons_of_mem p hq)) hparts]

/-- Every session whose futures run in time. -/
theorem session_obeys (h : SessionRun Orderly x) : MultipartLaw x := by
  have ht := sessionRun_tracked h
  refine ⟨fun id u script now tmp s' hu hl hexec => ?_, fun pre => ?_, fun id u hu hnil part => ?_, ht.sane.space.freeList_eq⟩
  · have hok := (ht.uploads id u hu).1
    have hs := ht.sane.withScript script
    have hrun := wp_complete hs.space hs.padded now tmp u.handle.location u.handle.partKeys
      (fun _ : Care.slots ≠ .index => hs.partsSound hok.reserved)
    obtain ⟨infos, payload, hparts, hd, hreads⟩ := (Prog.wp_ok hrun hexec).done
    obtain ⟨contents, hread, hflat⟩ := hreads (by decide)
    rw [hflat, ht.read hu hl hparts hread] at hd
    obtain ⟨s1, info, hp, rfl, -, hmeta, -, hst⟩ := hd.done
    have hframed : Framed s1 ((s1.replaceFile u.handle.location info).dropParts u.handle.partKeys) :=
      (framed_replaceFile s1 _ info).trans (framed_dropParts _ _)
    refine ⟨info, ?_, hmeta, ?_⟩
    · rw [lookup_dropParts, if_neg fun hm => hok.location (hok.reserved _ hm), lookup_replaceFile, if_pos rfl]
    · have hst := hst (by decide)
      rw [← hp.compression_eq] at hst
      rw [hframed]
      exact hst
  · exact ⟨(Store.list_visible _ _).symm, (Store.listWithMeta_visible _ _).symm, (Store.listWithDelimiter_visible _ _).symm⟩
  · cases hlook : x.store.files.lookup (partKey id part) with
    | none => rfl
    | some info =>
      obtain ⟨id', v, hv, hmem⟩ := ht.owned (partKey id part) (reserved_partKey id part) (by rw [hlook]; exact Option.some_ne_none _)
      obtain ⟨n, -, he⟩ := (ht.uploads id' v hv).1.named_of_mem hmem
      obtain rfl := (partKey_injective he).1
      obtain rfl : u = v := Option.some.inj (hu.symm.trans hv)
      rw [hnil] at hmem
      cases hmem

/-! ## A part that comes late -/

/-- A byte is written, if there is a free block and no device call fails. -/
theorem put_returns {key : Key} {size off : Nat} {a a' : ExtentAllocator} (hro : s.readOnly = false) (hmax : keyLen key ≤ s.maxKeyLength)
    (hcomp : s.compression = .none) (halloc : s.allocator = some a) (ha : a.alloc blockAlignment = .ok (off, a'))
    (hio : Easy size s.io) (hsize : off + blockAlignment ≤ size) (now : DateTime) :
    Prog.wp (doPut now key [1]) (fun _ s' => s'.files.lookup key ≠ none) (fun _ _ => False) s := by
  refine Prog.wp_mono (wp_putByte hro hmax hcomp halloc ha hio hsize now) ?_ (fun _ _ h => h)
  intro _ s' hs'
  obtain ⟨io, rfl⟩ := hs'
  rw [lookup_replaceFile, if_pos rfl]
  exact Option.some_ne_none _

end Uploads

open Sample

def Sample.uploading (io : DeviceIo) : Session :=
  ((Session.new (options.newStore io)).act [] 0 (.putMultipart "o")).act [] 0 (.putPart 0 [1])

theorem Sample.uploading_pending (io : DeviceIo) : (uploading io).pending = [⟨0, partKey 0 0, [1]⟩] := rfl

theorem Sample.uploading_uploads (io : DeviceIo) :
    (uploading io).uploads 0 = some ⟨⟨"o", 0, 1, [partKey 0 0]⟩, [⟨0, partKey 0 0, [1]⟩]⟩ := rfl

theorem Sample.uploading_run {allowed : Session → Action → Prop} (hbegin : ∀ x, allowed x (.putMultipart "o"))
    (hput : ∀ x, allowed x (.putPart 0 [1])) : ∃ io : DeviceIo, io.readOnly = false ∧ io.dev.size = 67108864 ∧
      SessionRun allowed (uploading io) := by
  obtain ⟨s, io, hformat⟩ := format_returns options_valid fun _ => 0
  obtain ⟨io', rfl, hro, hsize⟩ := (formatted hformat).store
  exact ⟨io', hro, hsize, ((SessionRun.format hformat).act [] 0 _ (hbegin _)).act [] 0 _ (hput _)⟩

theorem Sample.not_reserved_o : ¬ Reserved "o" := by decide

/-- A part that is written in time. -/
theorem a_part_in_time_obeys : ∃ x : Session, SessionRun Orderly x ∧ MultipartLaw (x.act [] 0 (.poll 0)) := by
  obtain ⟨io, -, -, hrun⟩ := @uploading_run Orderly (fun _ => ⟨not_reserved_o, trivial⟩) fun _ => ⟨trivial, trivial⟩
  have htimely : Timely (uploading io) (.poll 0) := by
    intro part hpart
    rw [uploading_pending] at hpart
    obtain rfl := Option.some.inj hpart
    exact ⟨_, uploading_uploads io, List.mem_singleton_self _⟩
  exact ⟨uploading io, hrun, session_obeys (hrun.act [] 0 (.poll 0) ⟨trivial, htimely⟩)⟩

/-- The upload is aborted, and then its part is written. -/
theorem a_late_part_stays : ¬ ∀ x : Session, SessionRun Outside x → MultipartLaw x := by
  intro h
  obtain ⟨io, hro, hsize, hrun⟩ := @uploading_run Outside (fun _ => not_reserved_o) fun _ => trivial
  have hlen : keyLen (partKey 0 0) ≤ options.effectiveMaxKey := by decide +kernel
  obtain ⟨a, a', ha, halloc⟩ : ∃ a a', (((uploading io).act [] 0 (.abort 0)).store.withScript []).allocator = some a ∧
      a.alloc blockAlignment = .ok (dataStart, a') := ⟨_, _, rfl, rfl⟩
  have hput : Prog.wp (doPut 0 (partKey 0 0) [1]) (fun _ s' => s'.files.lookup (partKey 0 0) ≠ none) (fun _ _ => False)
      (((uploading io).act [] 0 (.abort 0)).store.withScript []) :=
    put_returns rfl hlen rfl ha halloc ⟨rfl, rfl, hro, hsize⟩ (by decide) 0
  have hlaw := (h _ ((hrun.act [] 0 (.abort 0) trivial).act [] 0 (.poll 0) trivial)).cleaned 0
  unfold Prog.wp at hput
  have hact : ((uploading io).act [] 0 (.abort 0)).act [] 0 (.poll 0) =
      match (doPut 0 (partKey 0 0) [1]).exec (((uploading io).act [] 0 (.abort 0)).store.withScript []) with
      | (.ok _, s) => { (uploading io).act [] 0 (.abort 0) with store := s, pending := [], landed := [partKey 0 0] }
      | (.error _, s) => { (uploading io).act [] 0 (.abort 0) with store := s, pending := [] } := rfl
  rw [hact] at hlaw
  unfold Prog.exec at hlaw
  cases hrun : doPut 0 (partKey 0 0) [1] (((uploading io).act [] 0 (.abort 0)).store.withScript []) with
  | mk r s' =>
    rw [hrun] at hput hlaw
    cases r with
    | error e => exact hput
    | ok a => exact hput (hlaw _ rfl rfl 0)

end ObjStr.Raw
