/-
  ObjStr.S3.PartContents — the temp files of the parts, and what is in them: the two models of multipart uploads, side by
  side.

  A `World` keeps the parts in files, which their owners remove; a `Session` keeps what was sent in the registry itself. A file
  is written only by the part it was created for, and goes only with its owner, so a registered part finds in its file what was
  sent (`Sound`). Each step of a request for the files is then a step of the session, or none (`follow`).
  - `Beside.shows`: in every run of a world the session beside it has the same uploads, and the same completes wait.
  - `an_ok_is_truthful`: so what holds of the `Ok`s of sessions holds of the ones that a world gives.
-/

import ObjStr.S3.Retries

namespace ObjStr.S3.Temp

open ObjStr.Lib ObjStr.Raw ObjStr.Sharded

/-! ## What the files show -/

def Upload.shown (files : FMap Bytes) (u : Upload) : S3.Upload where
  bucket := u.bucket
  key := u.key
  metadata := u.metadata
  parts n := (u.parts.lookup n).bind fun part => (files.lookup part.tempPath).map fun content => ⟨part.size, part.etag, content⟩
  createdAt := u.createdAt

def Server.shown (s : Server) (objects : Key → Option StoredObject) : Service where
  buckets := s.buckets
  uploads := s.uploads.mapValues fun _ u => u.shown s.files
  objects := objects
  uploadExpiry := s.uploadExpiry
  maxBodySize := s.maxBodySize
  md5 := s.md5

def Agree (paths : List TempPath) (files files' : FMap Bytes) : Prop := ∀ p ∈ paths, files'.lookup p = files.lookup p

section Files

variable {u : Upload} {files files' : FMap Bytes} {paths : List TempPath}

/-- What is shown of an upload depends on its own files. -/
theorem Upload.shown_congr (h : Agree u.tempPaths files files') : u.shown files' = u.shown files := by
  have hparts : (u.shown files').parts = (u.shown files).parts := by
    funext n
    show (u.parts.lookup n).bind _ = (u.parts.lookup n).bind _
    cases hpart : u.parts.lookup n with
    | none => rfl
    | some part =>
      have hmem : part.tempPath ∈ u.tempPaths := List.mem_map.mpr ⟨⟨n, part⟩, AList.mem_lookup_iff.mp hpart, rfl⟩
      simp only [Option.bind_some, h _ hmem]
  show (⟨u.bucket, u.key, u.metadata, (u.shown files').parts, u.createdAt⟩ : S3.Upload) = _
  rw [hparts]
  rfl

theorem Server.shown_congr {s : Server} (h : Agree (registeredPaths s.uploads) files s.files) (objects : Key → Option StoredObject) :
    s.shown objects =
      ⟨s.buckets, s.uploads.mapValues fun _ u => u.shown files, objects, s.uploadExpiry, s.maxBodySize, s.md5⟩ := by
  have huploads : s.uploads.mapValues (fun _ u => u.shown s.files) = s.uploads.mapValues fun _ u => u.shown files := by
    apply FMap.mapValues_congr
    intro id u hu
    apply Upload.shown_congr
    intro p hp
    exact h p ((registeredPaths_of_lookup hu).mem_iff.mpr (List.mem_append_left _ hp))
  unfold shown
  rw [huploads]

/-- A part in the place of the one with its number. -/
theorem Upload.shown_insert (u : Upload) (n : Int) {part : PartMeta} {content : Bytes}
    (h : files.lookup part.tempPath = some content) :
    Upload.shown files { u with parts := u.parts.insert n part } =
      { u.shown files with parts := Function.update (u.shown files).parts n (some ⟨part.size, part.etag, content⟩) } := by
  have hparts : (Upload.shown files { u with parts := u.parts.insert n part }).parts =
      Function.update (u.shown files).parts n (some ⟨part.size, part.etag, content⟩) := by
    funext m
    show ((u.parts.insert n part).lookup m).bind _ = _
    by_cases hm : m = n
    · subst hm
      rw [AList.lookup_insert, Function.update_self, Option.bind_some, h]
      rfl
    · rw [AList.lookup_insert_ne hm, Function.update_of_ne hm]
      rfl
  show (⟨u.bucket, u.key, u.metadata, (Upload.shown files { u with parts := u.parts.insert n part }).parts, u.createdAt⟩ :
    S3.Upload) = _
  rw [hparts]
  rfl

end Files

section Handlers

variable (s : Server) (unlink : TempPath → Bool) (objects : Key → Option StoredObject)

theorem lookup_shown (uploadId : UploadId) :
    (s.shown objects).uploads.lookup uploadId = (s.uploads.lookup uploadId).map (Upload.shown s.files) :=
  FMap.lookup_mapValues _ _ _

/-- A create, if the files that stay are what they were. -/
theorem create_shown (now : Nat) (uploadId : UploadId) (bucket key : Key) (metadata : FMap String)
    (h : Agree (registeredPaths (s.createMultipartUpload unlink now uploadId bucket key metadata).2.uploads) s.files
      (s.createMultipartUpload unlink now uploadId bucket key metadata).2.files) :
    (s.createMultipartUpload unlink now uploadId bucket key metadata).2.shown objects =
        ((s.shown objects).createMultipartUpload now uploadId bucket key metadata).2 ∧
      (s.createMultipartUpload unlink now uploadId bucket key metadata).1 =
        ((s.shown objects).createMultipartUpload now uploadId bucket key metadata).1 := by
  rw [Server.shown_congr h]
  unfold Server.createMultipartUpload Service.createMultipartUpload
  have hlive : (s.uploads.filterValues fun u => !s.isStale now u).mapValues (fun _ u => u.shown s.files) =
      (s.shown objects).uploads.filterValues fun u => !(s.shown objects).isStale now u :=
    FMap.mapValues_filterValues _ _ fun _ _ => rfl
  have hlength : ((s.shown objects).uploads.filterValues fun u => !(s.shown objects).isStale now u).entries.length =
      (s.uploads.filterValues fun u => !s.isStale now u).entries.length := by
    rw [← hlive]
    exact List.length_map _
  by_cases hbucket : bucket ∈ s.buckets
  · rw [if_pos hbucket, if_pos (show bucket ∈ (s.shown objects).buckets from hbucket)]
    dsimp only
    rw [hlength]
    by_cases hcap : maxConcurrentUploads ≤ (s.uploads.filterValues fun u => !s.isStale now u).entries.length
    · rw [if_pos hcap, if_pos hcap, ← hlive]
      exact ⟨rfl, rfl⟩
    · rw [if_neg hcap, if_neg hcap, ← hlive]
      refine ⟨?_, rfl⟩
      show (⟨s.buckets, FMap.mapValues ((s.uploads.filterValues _).insert uploadId _) _, objects, s.uploadExpiry, s.maxBodySize,
        s.md5⟩ : Service) = _
      rw [FMap.mapValues_insert]
      rfl
  · rw [if_neg hbucket, if_neg (show bucket ∉ (s.shown objects).buckets from hbucket)]
    exact ⟨rfl, rfl⟩

theorem abort_shown (uploadId : UploadId)
    (h : Agree (registeredPaths (s.abortMultipartUpload unlink uploadId).2.uploads) s.files
      (s.abortMultipartUpload unlink uploadId).2.files) :
    (s.abortMultipartUpload unlink uploadId).2.shown objects = ((s.shown objects).abortMultipartUpload uploadId).2 ∧
      (s.abortMultipartUpload unlink uploadId).1 = ((s.shown objects).abortMultipartUpload uploadId).1 := by
  rw [Server.shown_congr h]
  unfold Server.abortMultipartUpload Service.abortMultipartUpload
  rw [lookup_shown]
  cases s.uploads.lookup uploadId with
  | none => exact ⟨rfl, rfl⟩
  | some u =>
    refine ⟨?_, rfl⟩
    show (⟨s.buckets, FMap.mapValues (s.uploads.erase uploadId) _, objects, s.uploadExpiry, s.maxBodySize, s.md5⟩ : Service) = _
    rw [FMap.mapValues_erase]
    rfl

/-- A part is registered with what is in its file. -/
theorem finishPart_shown {t : Spool} (hfile : s.files.lookup t.tempPath = some t.consumed) :
    (s.finishPart t true).2.shown objects = ((s.shown objects).registerPart t.uploadId t.partNumber t.consumed).2 ∧
      (s.finishPart t true).1 = ((s.shown objects).registerPart t.uploadId t.partNumber t.consumed).1 := by
  unfold Server.finishPart Service.registerPart
  rw [if_pos rfl, lookup_shown]
  cases s.uploads.lookup t.uploadId with
  | none => exact ⟨rfl, rfl⟩
  | some u =>
    refine ⟨?_, rfl⟩
    show (⟨s.buckets, FMap.mapValues (s.uploads.insert t.uploadId _) _, objects, s.uploadExpiry, s.maxBodySize, s.md5⟩ : Service) = _
    rw [FMap.mapValues_insert, Upload.shown_insert u t.partNumber hfile]
    rfl

end Handlers

/-! ## Assembling -/

/-- What the backend is handed for an object. -/
def assemblyOf (md5 : Bytes → String) (o : StoredObject) : Assembly :=
  ⟨o.body ++ o.metadata, UInt16.ofNat o.metadata.length, md5 o.body⟩

section Assembling

variable {u : Upload} {files : FMap Bytes}

theorem Upload.joined_shown (h : ∀ p ∈ u.tempPaths, p ∈ files) (listed : List (Option Int)) :
    u.joined files listed = (u.shown files).joined listed := by
  induction listed with
  | nil => rfl
  | cons n rest ih =>
    cases n with
    | none => rfl
    | some n =>
      have hshown : (u.shown files).parts n = (u.parts.lookup n).bind fun part =>
        (files.lookup part.tempPath).map fun content => ⟨part.size, part.etag, content⟩ := rfl
      unfold Upload.joined S3.Upload.joined
      rw [hshown]
      cases hpart : u.parts.lookup n with
      | none => rfl
      | some part =>
        have hmem : part.tempPath ∈ u.tempPaths := List.mem_map.mpr ⟨⟨n, part⟩, AList.mem_lookup_iff.mp hpart, rfl⟩
        obtain ⟨content, hcontent⟩ := Option.isSome_iff_exists.mp (AList.lookup_isSome.mpr (h _ hmem))
        simp only [Option.bind_some, hcontent, Option.map_some, ih]

/-- The files of the parts are joined to what their contents are. -/
theorem Upload.assemble_shown (md5 : Bytes → String) (h : ∀ p ∈ u.tempPaths, p ∈ files) (listed : List (Option Int)) :
    u.assemble files md5 true listed = ((u.shown files).assemble md5 listed).map (assemblyOf md5) := by
  unfold Upload.assemble S3.Upload.assemble
  rw [Upload.joined_shown h]
  by_cases hlisted : listed = []
  · rw [if_pos hlisted, if_pos hlisted]
    rfl
  · rw [if_neg hlisted, if_neg hlisted, if_pos rfl]
    cases (u.shown files).joined listed with
    | error e => rfl
    | ok body =>
      have hmeta : (u.shown files).metadata = u.metadata := rfl
      dsimp only [bind, Except.bind]
      rw [hmeta]
      cases Tlv.encodeMetadata (u.metadata.insert "etag" (md5 body)) with
      | error e => rfl
      | ok metaBytes => rfl

theorem Upload.assemble_stopped (u : Upload) (files : FMap Bytes) (md5 : Bytes → String) (listed : List (Option Int)) :
    ∃ e, u.assemble files md5 false listed = .error e := by
  unfold Upload.assemble
  by_cases hlisted : listed = []
  · exact ⟨_, if_pos hlisted⟩
  · exact ⟨_, if_neg hlisted⟩

end Assembling

/-! ## What a file holds -/

/-- Files have gone, and none has come or changed. -/
structure Server.Prunes (s s' : Server) : Prop where
  same : s' = { s with uploads := s'.uploads, files := s'.files }
  files : ∀ p content, s'.files.lookup p = some content → s.files.lookup p = some content

section Prunes

variable {s s' s'' : Server} {unlink : TempPath → Bool}

theorem Server.Prunes.trans (h : s.Prunes s') (h' : s'.Prunes s'') : s.Prunes s'' := by
  refine ⟨?_, fun p content hp => h.files p content (h'.files p content hp)⟩
  rw [h'.same, h.same]

theorem prunes_uploads (s : Server) (uploads : FMap Upload) : s.Prunes { s with uploads := uploads } := ⟨rfl, fun _ _ h => h⟩

theorem prunes_refl (s : Server) : s.Prunes s := ⟨rfl, fun _ _ h => h⟩

theorem prunes_removeFiles (s : Server) (unlink : TempPath → Bool) (paths : List TempPath) : s.Prunes (s.removeFiles unlink paths) := by
  refine ⟨rfl, fun p content hp => ?_⟩
  have hp : (s.files.filterKeys _).lookup p = some content := hp
  rw [FMap.lookup_filterKeys] at hp
  split at hp
  · exact hp
  · cases hp

theorem prunes_register (s : Server) (uploadId : UploadId) (u : Upload) : s.Prunes (s.register unlink uploadId u) :=
  (prunes_uploads s _).trans (prunes_removeFiles _ _ _)

theorem prunes_create (s : Server) (now : Nat) (uploadId : UploadId) (bucket key : Key) (metadata : FMap String) :
    s.Prunes (s.createMultipartUpload unlink now uploadId bucket key metadata).2 := by
  have hreap := (prunes_uploads s (s.uploads.filterValues fun u => !s.isStale now u)).trans
    (prunes_removeFiles _ unlink ((s.uploads.filterValues (s.isStale now)).values.flatMap Upload.tempPaths))
  unfold Server.createMultipartUpload
  by_cases hbucket : bucket ∈ s.buckets
  · rw [if_pos hbucket]
    dsimp only
    split
    · exact hreap
    · exact hreap.trans (prunes_register _ _ _)
  · rw [if_neg hbucket]
    exact prunes_refl s

theorem prunes_abort (s : Server) (uploadId : UploadId) : s.Prunes (s.abortMultipartUpload unlink uploadId).2 := by
  unfold Server.abortMultipartUpload
  cases s.uploads.lookup uploadId with
  | none => exact prunes_refl s
  | some u => exact (prunes_uploads s _).trans (prunes_removeFiles _ _ _)

theorem prunes_failPart (s : Server) (t : Spool) : s.Prunes (s.failPart unlink t) := by
  unfold Server.failPart
  split
  · exact prunes_refl s
  · exact prunes_removeFiles s _ _

theorem prunes_finishPart (s : Server) (t : Spool) (flushed : Bool) : s.Prunes (s.finishPart t flushed).2 := by
  unfold Server.finishPart
  split
  · cases s.uploads.lookup t.uploadId with
    | none => exact prunes_refl s
    | some u => exact prunes_uploads s _
  · exact prunes_refl s

theorem prunes_finishComplete (s : Server) (uploadId : UploadId) (u : Upload) (stored : Bool) :
    s.Prunes (s.finishComplete unlink uploadId u stored).2 := by
  unfold Server.finishComplete
  split
  · exact prunes_removeFiles s _ _
  · exact prunes_register s _ _

theorem Server.Prunes.agree (h : s.Prunes s') {paths : List TempPath} (hheld : ∀ p ∈ paths, p ∈ s'.files) :
    Agree paths s.files s'.files := by
  intro p hp
  obtain ⟨content, hcontent⟩ := Option.isSome_iff_exists.mp (AList.lookup_isSome.mpr (hheld p hp))
  rw [hcontent, h.files p content hcontent]

end Prunes

/-- A part that is being sent: its file holds what has been read. -/
structure Spool.Sound (s : Server) (t : Spool) : Prop where
  file : s.files.lookup t.tempPath = some t.consumed
  number : checkPartNumber t.partNumber = .ok ()
  size : t.copies = false → 0 < s.maxBodySize → t.consumed.length ≤ s.maxBodySize

def Task.Sound (s : Server) : Task → Prop
  | .spool t => t.Sound s
  | .assembling _ => True
  | .writing c o => c.upload.assemble s.files s.md5 true c.listed = .ok o

structure World.Sound (x : World) : Prop where
  keeps : ∃ lost, x.Keeps lost
  tasks : ∀ t ∈ x.tasks, t.Sound x.server

section Sound

variable {x x' : World} {unlink : TempPath → Bool}

theorem World.Keeps.held {lost : List TempPath} (h : x.Keeps lost) : ∀ p ∈ x.owned, p ∈ x.server.files := by
  intro p hp
  exact h.perm.mem_iff.mpr (List.mem_append_left _ hp)

theorem World.Keeps.owned_nodup {lost : List TempPath} (h : x.Keeps lost) : x.owned.Nodup :=
  (List.nodup_append.mp (h.perm.nodup h.nodup)).1

theorem owned_of_registered {p : TempPath} (hp : p ∈ registeredPaths x.server.uploads) : p ∈ x.owned := List.mem_append_left _ hp

theorem owned_of_task {t : Task} (ht : t ∈ x.tasks) {p : TempPath} (hp : p ∈ t.tempPaths) : p ∈ x.owned :=
  List.mem_append_right _ (List.mem_flatMap.mpr ⟨t, ht, hp⟩)

theorem Agree.mono {paths paths' : List TempPath} {files files' : FMap Bytes} (h : Agree paths files files')
    (hsub : ∀ p ∈ paths', p ∈ paths) : Agree paths' files files' := fun p hp => h p (hsub p hp)

/-- What is assembled depends on the files of the upload. -/
theorem Upload.assemble_congr {u : Upload} {files files' : FMap Bytes} (h : Agree u.tempPaths files files') (md5 : Bytes → String)
    (io : Bool) (listed : List (Option Int)) : u.assemble files' md5 io listed = u.assemble files md5 io listed := by
  unfold Upload.assemble
  rw [Upload.joined_congr h]

theorem Task.Sound.of_agree {s s' : Server} {t : Task} (h : t.Sound s) (hsame : s' = { s with uploads := s'.uploads, files := s'.files })
    (hagree : Agree t.tempPaths s.files s'.files) : t.Sound s' := by
  rw [hsame]
  cases t with
  | spool t => exact ⟨(hagree _ (List.mem_singleton_self _)).trans h.file, h.number, h.size⟩
  | assembling c => trivial
  | writing c o => exact (Upload.assemble_congr hagree _ _ _).trans h

/-- Nothing but files has gone, and what else there is to do is sound. -/
theorem World.Sound.prune {lost : List TempPath} (h : x.Sound) (hk : x'.Keeps lost) (hp : x.server.Prunes x'.server)
    (htasks : ∀ t ∈ x'.tasks, t ∈ x.tasks ∨ t.Sound x.server) : x'.Sound := by
  refine ⟨⟨lost, hk⟩, fun t ht => ?_⟩
  have hagree : Agree t.tempPaths x.server.files x'.server.files := hp.agree fun p hpt => hk.held p (owned_of_task ht hpt)
  rcases htasks t ht with hold | hnew
  · exact (h.tasks t hold).of_agree hp.same hagree
  · exact hnew.of_agree hp.same hagree

end Sound

/-! ## The session beside a world -/

/-- A complete that is going to write. -/
structure Waiting where
  uploadId : UploadId
  listed : List (Option Int)
  upload : S3.Upload
  object : StoredObject

def waitingOf (p : Pending) : Waiting := ⟨p.request.uploadId, p.request.parts, p.upload, p.object⟩

def Taken.waiting (s : Server) (c : Taken) : Option Waiting :=
  match (c.upload.shown s.files).assemble s.md5 c.listed with
  | .ok o => some ⟨c.uploadId, c.listed, c.upload.shown s.files, o⟩
  | .error _ => none

def Task.waiting (s : Server) : Task → Option Waiting
  | .spool _ => none
  | .assembling c => c.waiting s
  | .writing c _ => c.waiting s

/-- The uploads are the same, and the same completes wait. -/
structure Shows (x : World) (y : Session) : Prop where
  service : ∃ objects, y.service = x.server.shown objects
  pending : y.pending.map waitingOf = x.tasks.filterMap (Task.waiting x.server)

structure Side (x : World) (y : Session) : Prop where
  sound : x.Sound
  shows : Shows x y

/-- What the files do not tell of a step: when it is, and how the write of the backend ends. -/
structure Outside where
  now : Nat
  write : Option Answer

namespace World

variable (x : World)

/-- The place of a complete among those that are going to write. -/
def place (i : Nat) : Nat := ((x.tasks.take i).filterMap (Task.waiting x.server)).length

def finishAction (t : Spool) : Action :=
  if t.copies then .uploadPartCopy t.uploadId t.partNumber t.consumed else .uploadPart t.uploadId t.partNumber t.consumed

/-- A complete begins when it has taken its upload; the registry answers for an id it does not have. -/
def completeAction (req : CompleteRequest) (head : Bool) : Option Action :=
  req.multipartUpload.map fun listed =>
    .complete (head || (x.server.uploads.lookup req.uploadId).isSome) ⟨req.bucket, req.key, req.uploadId, listed⟩

/-- A complete that ends before it writes, or while it does. -/
def dropAction (i : Nat) (t : Task) (write : Option Answer) : Option Action :=
  (t.waiting x.server).map fun _ => .drop write (x.place i)

def landAction (i : Nat) (write : Option Answer) : Option Action := write.map fun answer => .land answer (x.place i)

def action (out : Outside) : Event → Option Action
  | .create _ uploadId bucket key metadata => some (.create uploadId bucket key metadata)
  | .abort uploadId => some (.abort uploadId)
  | .uploadPart _ _ _ => none
  | .uploadPartCopy _ _ _ => none
  | .opened _ _ => none
  | .chunk _ _ _ => none
  | .finish i flushed => if flushed then (x.spoolAt i true).map finishAction else none
  | .complete req head => x.completeAction req head
  | .assemble i io => if io then none else (x.assemblingAt i).bind fun c => x.dropAction i (.assembling c) none
  | .land i _ => (x.writingAt i).bind fun _ => x.landAction i out.write
  | .cancel i => x.tasks[i]?.bind fun t =>
      match t with
      | .writing c o => x.dropAction i (.writing c o) out.write
      | t => x.dropAction i t none

end World

def follow (y : Session) (now : Nat) (a : Option Action) : Session := a.elim y (y.act now)

/-! ### Places -/

section Places

variable {α β : Type} {l : List α} {f : α → Option β} {i : Nat} {a : α}

theorem split_at (h : l[i]? = some a) : l = l.take i ++ a :: l.drop (i + 1) := by
  obtain ⟨hi, rfl⟩ := List.getElem?_eq_some_iff.mp h
  rw [List.getElem_cons_drop hi, List.take_append_drop]

theorem filterMap_eraseIdx_none (h : l[i]? = some a) (hf : f a = none) : (l.eraseIdx i).filterMap f = l.filterMap f := by
  rw [List.eraseIdx_eq_take_drop_succ, List.filterMap_append]
  conv => rhs; rw [split_at h, List.filterMap_append, List.filterMap_cons_none hf]

/-- What is chosen of one element, among what is chosen of all. -/
theorem filterMap_eraseIdx_some {b : β} (h : l[i]? = some a) (hf : f a = some b) :
    (l.filterMap f)[((l.take i).filterMap f).length]? = some b ∧
      (l.eraseIdx i).filterMap f = (l.filterMap f).eraseIdx ((l.take i).filterMap f).length := by
  have hsplit : l.filterMap f = (l.take i).filterMap f ++ b :: (l.drop (i + 1)).filterMap f := by
    conv => lhs; rw [split_at h, List.filterMap_append, List.filterMap_cons_some hf]
  constructor
  · rw [hsplit, List.getElem?_append_right (Nat.le_refl _), Nat.sub_self]
    rfl
  · rw [List.eraseIdx_eq_take_drop_succ, List.filterMap_append, hsplit, List.eraseIdx_append_of_length_le (Nat.le_refl _),
      Nat.sub_self]
    rfl

theorem filterMap_set {a' : α} (h : l[i]? = some a) (hf : f a' = f a) : (l.set i a').filterMap f = l.filterMap f := by
  obtain ⟨hi, -⟩ := List.getElem?_eq_some_iff.mp h
  have hcons : (a' :: l.drop (i + 1)).filterMap f = (a :: l.drop (i + 1)).filterMap f := by
    simp only [List.filterMap_cons, hf]
  rw [List.set_eq_take_append_cons_drop, if_pos hi, List.filterMap_append, hcons, ← List.filterMap_append, ← split_at h]

theorem mem_of_mem_set {a' b : α} (h : l[i]? = some a) (hb : b ∈ l.set i a') : b = a' ∨ b ∈ l.eraseIdx i := by
  obtain ⟨hi, -⟩ := List.getElem?_eq_some_iff.mp h
  rw [List.set_eq_take_append_cons_drop, if_pos hi] at hb
  rw [List.eraseIdx_eq_take_drop_succ]
  rcases List.mem_append.mp hb with hb | hb
  · exact .inr (List.mem_append_left _ hb)
  · rcases List.mem_cons.mp hb with hb | hb
    · exact .inl hb
    · exact .inr (List.mem_append_right _ hb)

end Places

/-! ### Steps that only remove files -/

section Steps

variable {x x' : World} {y : Session} {unlink : TempPath → Bool} {lost : List TempPath}

theorem Taken.waiting_congr {s s' : Server} {c : Taken} (hmd5 : s'.md5 = s.md5) (hagree : Agree c.upload.tempPaths s.files s'.files) :
    c.waiting s' = c.waiting s := by
  unfold Taken.waiting
  rw [Upload.shown_congr hagree, hmd5]

theorem Task.waiting_congr {s s' : Server} {t : Task} (hmd5 : s'.md5 = s.md5) (hagree : Agree t.tempPaths s.files s'.files) :
    t.waiting s' = t.waiting s := by
  cases t with
  | spool t => rfl
  | assembling c => exact c.waiting_congr hmd5 hagree
  | writing c o => exact c.waiting_congr hmd5 hagree

theorem waiting_of_prunes (hk : x'.Keeps lost) (hp : x.server.Prunes x'.server) :
    x'.tasks.filterMap (Task.waiting x'.server) = x'.tasks.filterMap (Task.waiting x.server) := by
  apply List.filterMap_congr
  intro t ht
  apply Task.waiting_congr
  · rw [hp.same]
  · exact hp.agree fun p hpt => hk.held p (owned_of_task ht hpt)

theorem registered_agree (hk : x'.Keeps lost) (hp : x.server.Prunes x'.server) :
    Agree (registeredPaths x'.server.uploads) x.server.files x'.server.files :=
  hp.agree fun p hr => hk.held p (owned_of_registered hr)

/-- The uploads are not touched. -/
theorem shown_of_prunes (hk : x'.Keeps lost) (hp : x.server.Prunes x'.server) (huploads : x'.server.uploads = x.server.uploads)
    (objects : Key → Option StoredObject) : x'.server.shown objects = x.server.shown objects := by
  rw [Server.shown_congr (registered_agree hk hp), hp.same, huploads]
  rfl

/-- Files are removed, and what waits is what waited. -/
theorem Side.prune (h : Side x y) (hk : x'.Keeps lost) (hp : x.server.Prunes x'.server)
    (huploads : x'.server.uploads = x.server.uploads) (htasks : ∀ t ∈ x'.tasks, t ∈ x.tasks ∨ t.Sound x.server)
    (hwaiting : x'.tasks.filterMap (Task.waiting x.server) = x.tasks.filterMap (Task.waiting x.server)) : Side x' y := by
  obtain ⟨objects, hservice⟩ := h.shows.service
  refine ⟨h.sound.prune hk hp htasks, ⟨objects, ?_⟩, ?_⟩
  · rw [hservice, shown_of_prunes hk hp huploads]
  · rw [waiting_of_prunes hk hp, hwaiting]
    exact h.shows.pending

theorem act_create (y : Session) (now : Nat) (uploadId : UploadId) (bucket key : Key) (metadata : FMap String) :
    (y.act now (.create uploadId bucket key metadata)).service = (y.service.createMultipartUpload now uploadId bucket key metadata).2 ∧
      (y.act now (.create uploadId bucket key metadata)).pending = y.pending := by
  dsimp only [Session.act]
  rcases y.service.createMultipartUpload now uploadId bucket key metadata with ⟨e | _, s⟩
  · exact ⟨rfl, rfl⟩
  · exact ⟨rfl, rfl⟩

theorem act_abort (y : Session) (now : Nat) (uploadId : UploadId) :
    (y.act now (.abort uploadId)).service = (y.service.abortMultipartUpload uploadId).2 ∧
      (y.act now (.abort uploadId)).pending = y.pending := by
  dsimp only [Session.act]
  rcases y.service.abortMultipartUpload uploadId with ⟨e | _, s⟩
  · exact ⟨rfl, rfl⟩
  · exact ⟨rfl, rfl⟩

theorem Side.create (h : Side x y) {now : Nat} {uploadId : UploadId} {bucket key : Key} {metadata : FMap String}
    (hk : (x.actCreate unlink now uploadId bucket key metadata).Keeps lost) :
    Side (x.actCreate unlink now uploadId bucket key metadata) (y.act now (.create uploadId bucket key metadata)) := by
  obtain ⟨objects, hservice⟩ := h.shows.service
  obtain ⟨hact, hpending⟩ := act_create y now uploadId bucket key metadata
  have hp : x.server.Prunes (x.actCreate unlink now uploadId bucket key metadata).server :=
    prunes_create x.server now uploadId bucket key metadata
  refine ⟨h.sound.prune hk hp fun t ht => .inl ht, ⟨objects, ?_⟩, ?_⟩
  · rw [hact, hservice]
    exact (create_shown x.server unlink objects now uploadId bucket key metadata (registered_agree hk hp)).1.symm
  · rw [hpending, waiting_of_prunes hk hp]
    exact h.shows.pending

theorem Side.abort (h : Side x y) (now : Nat) {uploadId : UploadId} (hk : (x.actAbort unlink uploadId).Keeps lost) :
    Side (x.actAbort unlink uploadId) (y.act now (.abort uploadId)) := by
  obtain ⟨objects, hservice⟩ := h.shows.service
  obtain ⟨hact, hpending⟩ := act_abort y now uploadId
  have hp : x.server.Prunes (x.actAbort unlink uploadId).server := prunes_abort x.server uploadId
  refine ⟨h.sound.prune hk hp fun t ht => .inl ht, ⟨objects, ?_⟩, ?_⟩
  · rw [hact, hservice]
    exact (abort_shown x.server unlink objects uploadId (registered_agree hk hp)).1.symm
  · rw [hpending, waiting_of_prunes hk hp]
    exact h.shows.pending

/-- A part that fails. -/
theorem Side.fail (h : Side x y) {i : Nat} {t : Spool} (ht : x.tasks[i]? = some (.spool t)) (hk : (x.actFail unlink i t).Keeps lost) :
    Side (x.actFail unlink i t) y := by
  have huploads : (x.server.failPart unlink t).uploads = x.server.uploads := by
    unfold Server.failPart
    split <;> rfl
  exact h.prune hk (prunes_failPart _ _) huploads (fun t ht => .inl (List.mem_of_mem_eraseIdx ht))
    (filterMap_eraseIdx_none ht rfl)

theorem Side.opened (h : Side x y) {i : Nat} {t : Spool} (ht : x.tasks[i]? = some (.spool t)) {got : Except ReadError Unit}
    (hk : (x.actOpened unlink i t got).Keeps lost) : Side (x.actOpened unlink i t got) y := by
  cases got with
  | error e => exact h.fail ht hk
  | ok _ =>
    refine h.prune hk (prunes_refl _) rfl (fun t' ht' => ?_) (filterMap_set ht rfl)
    rcases List.mem_or_eq_of_mem_set ht' with hmem | heq
    · exact .inl hmem
    · subst heq
      have hsound : t.Sound x.server := h.sound.tasks _ (List.mem_of_getElem? ht)
      exact .inr ⟨hsound.file, hsound.number, hsound.size⟩

/-- The upload that a complete has taken is gone, and so are its files. -/
theorem Side.give_up (h : Side x y) {i : Nat} {t : Task} (ht : x.tasks[i]? = some t)
    (hk : World.Keeps ⟨x.server.removeFiles unlink t.tempPaths, x.tasks.eraseIdx i⟩ lost) (now : Nat) (write : Option Answer) :
    Side ⟨x.server.removeFiles unlink t.tempPaths, x.tasks.eraseIdx i⟩ (follow y now (x.dropAction i t write)) := by
  have hp : x.server.Prunes (x.server.removeFiles unlink t.tempPaths) := prunes_removeFiles _ _ _
  unfold World.dropAction
  cases hwaiting : t.waiting x.server with
  | none =>
    exact h.prune hk hp rfl (fun t ht => .inl (List.mem_of_mem_eraseIdx ht)) (filterMap_eraseIdx_none ht hwaiting)
  | some w =>
    obtain ⟨hplace, herase⟩ := filterMap_eraseIdx_some ht hwaiting
    obtain ⟨objects, hservice⟩ := h.shows.service
    rw [← h.shows.pending, List.getElem?_map, Option.map_eq_some_iff] at hplace
    obtain ⟨p, hpending, -⟩ := hplace
    have hact : follow y now (some (.drop write (x.place i))) =
        { y with service := y.service.abandon p write, pending := y.pending.eraseIdx (x.place i) } := by
      show y.act now (.drop write (x.place i)) = _
      unfold Session.act
      dsimp only
      rw [show y.pending[x.place i]? = some p from hpending]
    show Side _ (follow y now (some (.drop write (x.place i))))
    rw [hact]
    refine ⟨h.sound.prune hk hp fun t ht => .inl (List.mem_of_mem_eraseIdx ht), ?_, ?_⟩
    · have hshown := shown_of_prunes (x := x) hk hp rfl
      cases write with
      | none => exact ⟨objects, by rw [hshown]; exact hservice⟩
      | some answer =>
        cases answer with
        | done => exact ⟨_, by rw [hshown]; show y.service.setObject _ _ = _; rw [hservice]; rfl⟩
        | failed holds => exact ⟨_, by rw [hshown]; show y.service.setObject _ _ = _; rw [hservice]; rfl⟩
    · rw [waiting_of_prunes (x := x) hk hp]
      show (y.pending.eraseIdx (x.place i)).map waitingOf = (x.tasks.eraseIdx i).filterMap (Task.waiting x.server)
      rw [herase, ← h.shows.pending, ← List.eraseIdx_map]
      rfl

theorem newTemp_files {s s' : Server} {temp : Option TempPath} {p : TempPath} (h : s.newTemp temp = (.ok p, s')) :
    p ∉ s.files ∧ s' = { s with files := s.files.insert p [] } := by
  unfold Server.newTemp at h
  cases temp with
  | none => cases h
  | some q =>
    dsimp only at h
    by_cases hq : q ∈ s.files
    · rw [if_pos hq] at h
      cases h
    · rw [if_neg hq] at h
      obtain ⟨hp, rfl⟩ := Prod.mk.inj h
      obtain rfl := Except.ok.inj hp
      exact ⟨hq, rfl⟩

/-- The file of a part is written, and the other requests are `rest`. -/
theorem Side.write (h : Side x y) {t : Spool} {tasks rest : List Task} (hown : t.tempPath ∉ registeredPaths x.server.uploads ++ taskPaths rest)
    (hrest : ∀ t' ∈ rest, t' ∈ x.tasks) (htasks : ∀ t' ∈ tasks, t' = .spool t ∨ t' ∈ rest)
    (hwaiting : ∀ s, tasks.filterMap (Task.waiting s) = rest.filterMap (Task.waiting s))
    (hbefore : x.tasks.filterMap (Task.waiting x.server) = rest.filterMap (Task.waiting x.server))
    (hnumber : checkPartNumber t.partNumber = .ok ())
    (hsize : t.copies = false → 0 < x.server.maxBodySize → t.consumed.length ≤ x.server.maxBodySize)
    (hk : World.Keeps ⟨{ x.server with files := x.server.files.insert t.tempPath t.consumed }, tasks⟩ lost) :
    Side ⟨{ x.server with files := x.server.files.insert t.tempPath t.consumed }, tasks⟩ y := by
  have hagree : Agree (registeredPaths x.server.uploads ++ taskPaths rest) x.server.files
      (x.server.files.insert t.tempPath t.consumed) := by
    intro q hq
    have hne : q ≠ t.tempPath := fun he => hown (he ▸ hq)
    exact AList.lookup_insert_ne hne
  have htask : ∀ t' ∈ rest, Agree t'.tempPaths x.server.files (x.server.files.insert t.tempPath t.consumed) := fun t' ht' =>
    hagree.mono fun q hq => List.mem_append_right _ (List.mem_flatMap.mpr ⟨t', ht', hq⟩)
  obtain ⟨objects, hservice⟩ := h.shows.service
  refine ⟨⟨⟨lost, hk⟩, fun t' ht' => ?_⟩, ⟨objects, ?_⟩, ?_⟩
  · rcases htasks t' ht' with heq | hmem
    · rw [heq]
      exact ⟨AList.lookup_insert _, hnumber, hsize⟩
    · exact (h.sound.tasks t' (hrest t' hmem)).of_agree rfl (htask t' hmem)
  · rw [hservice]
    exact (Server.shown_congr (s := { x.server with files := x.server.files.insert t.tempPath t.consumed })
      (hagree.mono fun q hq => List.mem_append_left _ hq) objects).symm
  · rw [h.shows.pending, hbefore, hwaiting]
    apply List.filterMap_congr
    intro t' ht'
    apply Eq.symm
    exact Task.waiting_congr rfl (htask t' ht')

/-- A part gets its file, which no one has written to. -/
theorem Side.spooled (h : Side x y) {s : Server} {temp : Option TempPath} {p : TempPath}
    (htemp : x.server.newTemp temp = (.ok p, s)) {t : Spool} (hpath : t.tempPath = p) (hempty : t.consumed = [])
    (hnumber : checkPartNumber t.partNumber = .ok ()) (hk : World.Keeps ⟨s, x.tasks ++ [.spool t]⟩ lost) :
    Side ⟨s, x.tasks ++ [.spool t]⟩ y := by
  obtain ⟨hnew, rfl⟩ := newTemp_files htemp
  obtain ⟨lost0, hkeeps⟩ := h.sound.keeps
  rw [← hpath] at hnew
  rw [← hpath, ← hempty] at hk ⊢
  refine h.write (fun hp => hnew (hkeeps.held _ hp)) (fun t' ht' => ht') (fun t' ht' => ?_) (fun s => ?_) rfl hnumber (fun _ _ => ?_) hk
  · rcases List.mem_append.mp ht' with hold | hlast
    · exact .inr hold
    · exact .inl (List.mem_singleton.mp hlast)
  · rw [List.filterMap_append]
    exact List.append_nil _
  · rw [hempty]
    exact Nat.zero_le _

theorem Side.uploadPart (h : Side x y) {uploadId : UploadId} {partNumber : Int} {temp : Option TempPath}
    (hk : (x.actUploadPart uploadId partNumber temp).Keeps lost) : Side (x.actUploadPart uploadId partNumber temp) y := by
  unfold World.actUploadPart Server.beginPart at hk ⊢
  cases hnumber : checkPartNumber partNumber with
  | error e => exact h
  | ok _ =>
    simp only [hnumber] at hk ⊢
    rcases htemp : x.server.newTemp temp with ⟨e | p, s⟩
    · obtain rfl := newTemp_error x htemp
      exact h
    · simp only [htemp] at hk ⊢
      exact h.spooled htemp rfl rfl hnumber hk

theorem number_of_bytes {req : CopyPartRequest} {maxBodySize : Nat} {head : Except ReadError Nat} {range : Nat × Nat}
    (h : req.bytes maxBodySize head = .ok range) : checkPartNumber req.partNumber = .ok () := by
  unfold CopyPartRequest.bytes at h
  cases hnumber : checkPartNumber req.partNumber with
  | ok _ => rfl
  | error e =>
    rw [hnumber] at h
    cases h

theorem Side.uploadPartCopy (h : Side x y) {req : CopyPartRequest} {head : Except ReadError Nat} {temp : Option TempPath}
    (hk : (x.actUploadPartCopy req head temp).Keeps lost) : Side (x.actUploadPartCopy req head temp) y := by
  unfold World.actUploadPartCopy Server.beginCopy at hk ⊢
  cases hbytes : req.bytes x.server.maxBodySize head with
  | error e => exact h
  | ok range =>
    simp only [hbytes] at hk ⊢
    rcases htemp : x.server.newTemp temp with ⟨e | p, s⟩
    · obtain rfl := newTemp_error x htemp
      exact h
    · simp only [htemp] at hk ⊢
      exact h.spooled htemp rfl rfl (number_of_bytes hbytes) hk

/-- What has been read is written behind what was there. -/
theorem Side.written (h : Side x y) {i : Nat} {t : Spool} (ht : x.tasks[i]? = some (.spool t)) (data : Bytes)
    (hsize : t.copies = false → 0 < x.server.maxBodySize → (t.consumed ++ data).length ≤ x.server.maxBodySize)
    (hk : World.Keeps ⟨x.server.append t.tempPath data, x.tasks.set i (.spool { t with consumed := t.consumed ++ data })⟩ lost) :
    Side ⟨x.server.append t.tempPath data, x.tasks.set i (.spool { t with consumed := t.consumed ++ data })⟩ y := by
  obtain ⟨lost0, hkeeps⟩ := h.sound.keeps
  have hsound : t.Sound x.server := h.sound.tasks _ (List.mem_of_getElem? ht)
  have happend : x.server.append t.tempPath data =
      { x.server with files := x.server.files.insert t.tempPath (t.consumed ++ data) } := by
    unfold Server.append
    rw [hsound.file]
  rw [happend] at hk ⊢
  have hperm : x.owned.Perm (t.tempPath :: (registeredPaths x.server.uploads ++ taskPaths (x.tasks.eraseIdx i))) :=
    ((taskPaths_eraseIdx ht).append_left _).trans List.perm_middle
  have hown := (List.nodup_cons.mp (hperm.nodup hkeeps.owned_nodup)).1
  have hbefore := filterMap_eraseIdx_none (f := Task.waiting x.server) ht rfl
  refine h.write (t := { t with consumed := t.consumed ++ data }) hown (fun t' ht' => List.mem_of_mem_eraseIdx ht')
    (fun t' ht' => mem_of_mem_set ht ht') (fun s => ?_) hbefore.symm hsound.number hsize hk
  have hset : (x.tasks.set i (.spool { t with consumed := t.consumed ++ data })).filterMap (Task.waiting s) =
      x.tasks.filterMap (Task.waiting s) := filterMap_set ht rfl
  rw [hset, filterMap_eraseIdx_none ht rfl]

theorem Side.chunk (h : Side x y) {i : Nat} {t : Spool} (ht : x.tasks[i]? = some (.spool t)) {data : Option Bytes} {written : Bool}
    (hk : (x.actChunk unlink i t data written).Keeps lost) : Side (x.actChunk unlink i t data written) y := by
  unfold World.actChunk Server.readChunk at hk ⊢
  cases data with
  | none => exact h.fail ht hk
  | some d =>
    dsimp only at hk ⊢
    by_cases hlimit : (!t.copies) = true ∧ 0 < x.server.maxBodySize ∧ x.server.maxBodySize < (t.consumed ++ d).length
    · rw [if_pos hlimit] at hk ⊢
      exact h.fail ht hk
    · rw [if_neg hlimit] at hk ⊢
      cases written with
      | false => exact h.fail ht hk
      | true =>
        refine h.written ht d (fun hcopies hpos => ?_) hk
        by_contra hover
        exact hlimit ⟨by rw [hcopies]; rfl, hpos, Nat.lt_of_not_le hover⟩

/-! ### Steps that the session takes part in -/

/-- A part that is sound passes the checks of its handler. -/
theorem act_finishAction {t : Spool} (ht : t.Sound x.server) (hmax : y.service.maxBodySize = x.server.maxBodySize) (now : Nat) :
    y.act now (World.finishAction t) = { y with service := (y.service.registerPart t.uploadId t.partNumber t.consumed).2 } := by
  have hnumber : ¬(t.partNumber < 1 ∨ 10000 < t.partNumber) := by
    intro hbad
    have hchecked := ht.number
    unfold checkPartNumber at hchecked
    rw [if_pos hbad] at hchecked
    cases hchecked
  unfold World.finishAction
  cases hcopies : t.copies with
  | true =>
    show ({ y with service := (y.service.uploadPartCopy t.uploadId t.partNumber t.consumed).2 } : Session) = _
    unfold Service.uploadPartCopy
    rw [if_neg hnumber]
  | false =>
    have hsize : ¬(0 < y.service.maxBodySize ∧ y.service.maxBodySize < t.consumed.length) := by
      rw [hmax]
      intro ⟨hpos, hover⟩
      exact absurd (ht.size hcopies hpos) (Nat.not_le.mpr hover)
    show ({ y with service := (y.service.uploadPart t.uploadId t.partNumber t.consumed).2 } : Session) = _
    unfold Service.uploadPart
    rw [if_neg hnumber, if_neg hsize]

theorem Side.finish (h : Side x y) {i : Nat} {t : Spool} (ht : x.tasks[i]? = some (.spool t)) (now : Nat)
    (hk : (x.actFinish unlink i t true).Keeps lost) : Side (x.actFinish unlink i t true) (y.act now (World.finishAction t)) := by
  have hsound : t.Sound x.server := h.sound.tasks _ (List.mem_of_getElem? ht)
  obtain ⟨objects, hservice⟩ := h.shows.service
  obtain ⟨hfinish, -⟩ := finishPart_shown x.server objects hsound.file
  rw [act_finishAction hsound (by rw [hservice]; rfl)]
  cases hu : x.server.uploads.lookup t.uploadId with
  | none =>
    have hact : x.actFinish unlink i t true = x.actFail unlink i t := by
      unfold World.actFinish Server.finishPart
      rw [if_pos rfl, hu]
    have hnone : (y.service.registerPart t.uploadId t.partNumber t.consumed).2 = y.service := by
      unfold Service.registerPart
      rw [hservice, lookup_shown, hu]
      rfl
    rw [hact] at hk ⊢
    rw [hnone]
    exact h.fail ht hk
  | some u =>
    have hact : x.actFinish unlink i t true = ⟨(x.server.finishPart t true).2, x.tasks.eraseIdx i⟩ := by
      unfold World.actFinish Server.finishPart
      rw [if_pos rfl, hu]
    rw [hact] at hk ⊢
    have hp : x.server.Prunes (x.server.finishPart t true).2 := prunes_finishPart _ _ _
    refine ⟨h.sound.prune hk hp fun t ht => .inl (List.mem_of_mem_eraseIdx ht), ⟨objects, ?_⟩, ?_⟩
    · rw [hservice]
      exact hfinish.symm
    · rw [waiting_of_prunes (x := x) hk hp]
      show y.pending.map waitingOf = (x.tasks.eraseIdx i).filterMap _
      rw [filterMap_eraseIdx_none ht rfl]
      exact h.shows.pending

/-- An id that the registry does not have is answered, and nothing else happens. -/
theorem act_complete_unknown (req : Completion) (h : y.service.uploads.lookup req.uploadId = none) (now : Nat) (io : Bool) :
    (y.act now (.complete io req)).service = y.service ∧ (y.act now (.complete io req)).pending = y.pending := by
  dsimp only [Session.act, Service.beginComplete]
  rw [h]
  dsimp only
  by_cases hhead : io = true ∧ (y.service.objects (objKey req.bucket req.key)).isSome
  · rw [if_pos hhead]
    exact ⟨rfl, rfl⟩
  · rw [if_neg hhead]
    exact ⟨rfl, rfl⟩

/-- An upload is taken, and if it can be assembled its write is to come. -/
theorem act_complete_known (req : Completion) {u : S3.Upload} (h : y.service.uploads.lookup req.uploadId = some u) (now : Nat) :
    (y.act now (.complete true req)).service = { y.service with uploads := y.service.uploads.erase req.uploadId } ∧
      (y.act now (.complete true req)).pending =
        y.pending ++ ((u.assemble y.service.md5 req.parts).toOption.map fun o => ⟨req, u, o, now⟩).toList := by
  dsimp only [Session.act, Service.beginComplete]
  rw [h]
  dsimp only
  cases u.assemble y.service.md5 req.parts with
  | error e => exact ⟨rfl, (List.append_nil _).symm⟩
  | ok o => exact ⟨rfl, rfl⟩

theorem Side.complete (h : Side x y) {req : CompleteRequest} {head : Bool} (hk : (x.actComplete req head).Keeps lost) (now : Nat) :
    Side (x.actComplete req head) (follow y now (x.completeAction req head)) := by
  obtain ⟨objects, hservice⟩ := h.shows.service
  unfold World.completeAction
  cases hparts : req.multipartUpload with
  | none =>
    have hact : x.actComplete req head = x := by
      unfold World.actComplete Server.beginComplete
      rw [hparts]
    rw [hact]
    exact h
  | some listed =>
    have hlookup : y.service.uploads.lookup req.uploadId = (x.server.uploads.lookup req.uploadId).map (Upload.shown x.server.files) := by
      rw [hservice, lookup_shown]
    cases hu : x.server.uploads.lookup req.uploadId with
    | none =>
      have hact : x.actComplete req head = x := by
        unfold World.actComplete Server.beginComplete
        rw [hparts]
        simp only [hu]
      rw [hu] at hlookup
      obtain ⟨hsame, hpending⟩ := act_complete_unknown ⟨req.bucket, req.key, req.uploadId, listed⟩ hlookup now (head || false)
      rw [hact]
      exact ⟨h.sound, ⟨objects, hsame.trans hservice⟩, (congrArg _ hpending).trans h.shows.pending⟩
    | some u =>
      let c : Taken := ⟨req.uploadId, u, listed⟩
      have hact : x.actComplete req head =
          ⟨{ x.server with uploads := x.server.uploads.erase req.uploadId }, x.tasks ++ [.assembling c]⟩ := by
        unfold World.actComplete Server.beginComplete
        rw [hparts]
        simp only [hu]
        rfl
      rw [hu] at hlookup
      obtain ⟨htaken, hpending⟩ := act_complete_known ⟨req.bucket, req.key, req.uploadId, listed⟩ hlookup now
      have hdo : follow y now ((some listed).map fun listed =>
          Action.complete (head || (some u).isSome) ⟨req.bucket, req.key, req.uploadId, listed⟩) =
            y.act now (.complete true ⟨req.bucket, req.key, req.uploadId, listed⟩) := by
        rw [Option.isSome_some, Bool.or_true]
        rfl
      rw [hdo]
      rw [hact] at hk ⊢
      have hp : x.server.Prunes { x.server with uploads := x.server.uploads.erase req.uploadId } := prunes_uploads _ _
      refine ⟨h.sound.prune hk hp fun t ht => ?_, ⟨objects, ?_⟩, ?_⟩
      · rcases List.mem_append.mp ht with hold | hlast
        · exact .inl hold
        · rw [List.mem_singleton.mp hlast]
          exact .inr trivial
      · rw [htaken, hservice]
        unfold Server.shown
        dsimp only
        rw [FMap.mapValues_erase]
      · have hlast : [Task.assembling c].filterMap (Task.waiting x.server) = (c.waiting x.server).toList := by
          cases hwaits : c.waiting x.server with
          | none => exact List.filterMap_cons_none hwaits
          | some w => exact List.filterMap_cons_some hwaits
        have hmd5 : y.service.md5 = x.server.md5 := by
          rw [hservice]
          rfl
        rw [hpending, waiting_of_prunes (x := x) hk hp, List.map_append, List.filterMap_append, h.shows.pending, hlast, hmd5]
        congr 1
        unfold Taken.waiting
        cases (u.shown x.server.files).assemble x.server.md5 listed with
        | error e => rfl
        | ok o => rfl

/-- The parts are joined; a complete that cannot be is dropped. -/
theorem Side.assemble (h : Side x y) {i : Nat} {c : Taken} (ht : x.tasks[i]? = some (.assembling c)) {io : Bool}
    (hk : (x.actAssemble unlink i c io).Keeps lost) (now : Nat) :
    Side (x.actAssemble unlink i c io) (follow y now (if io then none else x.dropAction i (.assembling c) none)) := by
  obtain ⟨lost0, hkeeps⟩ := h.sound.keeps
  have hheld : ∀ p ∈ c.upload.tempPaths, p ∈ x.server.files := fun p hp =>
    hkeeps.held p (owned_of_task (List.mem_of_getElem? ht) hp)
  have hassemble := Upload.assemble_shown x.server.md5 hheld c.listed
  unfold World.actAssemble at hk ⊢
  cases io with
  | false =>
    obtain ⟨e, he⟩ := c.upload.assemble_stopped x.server.files x.server.md5 c.listed
    rw [he] at hk ⊢
    exact h.give_up ht hk now none
  | true =>
    cases hshown : (c.upload.shown x.server.files).assemble x.server.md5 c.listed with
    | error e =>
      have hnone : (Task.assembling c).waiting x.server = none := by
        show c.waiting x.server = none
        unfold Taken.waiting
        rw [hshown]
      rw [hassemble, hshown] at hk ⊢
      have hgone := h.give_up ht hk now none
      unfold World.dropAction at hgone
      rw [hnone] at hgone
      exact hgone
    | ok o =>
      rw [hshown] at hassemble
      rw [hassemble] at hk ⊢
      refine h.prune hk (prunes_refl _) rfl (fun t' ht' => ?_) (filterMap_set ht rfl)
      rcases List.mem_or_eq_of_mem_set ht' with hmem | heq
      · exact .inl hmem
      · rw [heq]
        exact .inr hassemble

/-- What a complete writes is what the session writes. -/
theorem Side.pending (h : Side x y) {i : Nat} {c : Taken} {o : Assembly} (ht : x.tasks[i]? = some (.writing c o)) :
    ∃ p, y.pending[x.place i]? = some p ∧ waitingOf p = ⟨c.uploadId, c.listed, c.upload.shown x.server.files, p.object⟩ ∧
      o = assemblyOf x.server.md5 p.object ∧
      (x.tasks.eraseIdx i).filterMap (Task.waiting x.server) = (y.pending.eraseIdx (x.place i)).map waitingOf := by
  obtain ⟨lost0, hkeeps⟩ := h.sound.keeps
  have hheld : ∀ p ∈ c.upload.tempPaths, p ∈ x.server.files := fun p hp =>
    hkeeps.held p (owned_of_task (List.mem_of_getElem? ht) hp)
  have hassembled : c.upload.assemble x.server.files x.server.md5 true c.listed = .ok o :=
    h.sound.tasks _ (List.mem_of_getElem? ht)
  rw [Upload.assemble_shown x.server.md5 hheld] at hassembled
  cases hshown : (c.upload.shown x.server.files).assemble x.server.md5 c.listed with
  | error e =>
    rw [hshown] at hassembled
    cases hassembled
  | ok object =>
    rw [hshown] at hassembled
    have hwaits : (Task.writing c o).waiting x.server = some ⟨c.uploadId, c.listed, c.upload.shown x.server.files, object⟩ := by
      show c.waiting x.server = _
      unfold Taken.waiting
      rw [hshown]
    obtain ⟨hplace, herase⟩ := filterMap_eraseIdx_some ht hwaits
    rw [← h.shows.pending, List.getElem?_map, Option.map_eq_some_iff] at hplace
    obtain ⟨p, hp, hsame⟩ := hplace
    obtain rfl : p.object = object := congrArg Waiting.object hsame
    refine ⟨p, hp, hsame, (Except.ok.inj hassembled).symm, ?_⟩
    rw [herase, ← h.shows.pending, List.eraseIdx_map]
    rfl

theorem act_land {p : Pending} {j : Nat} (h : y.pending[j]? = some p) (now : Nat) (answer : Answer) :
    (y.act now (.land answer j)).service = (y.service.finishComplete answer p).2 ∧
      (y.act now (.land answer j)).pending = y.pending.eraseIdx j ∧
      (answer = .done → p.request ∈ (y.act now (.land answer j)).acks) := by
  dsimp only [Session.act]
  rw [h]
  dsimp only
  cases answer with
  | done => exact ⟨rfl, rfl, fun _ => List.mem_cons_self⟩
  | failed holds => exact ⟨rfl, rfl, fun he => nomatch he⟩

theorem Side.land (h : Side x y) {i : Nat} {c : Taken} {o : Assembly} (ht : x.tasks[i]? = some (.writing c o)) {stored : Bool}
    {answer : Answer} (hanswer : stored = true ↔ answer = .done) (hk : (x.actLand unlink i c stored).Keeps lost) (now : Nat) :
    Side (x.actLand unlink i c stored) (y.act now (.land answer (x.place i))) := by
  obtain ⟨p, hp, hwaits, -, herase⟩ := h.pending ht
  obtain ⟨hland, hpending, -⟩ := act_land hp now answer
  obtain ⟨objects, hservice⟩ := h.shows.service
  have hid : p.request.uploadId = c.uploadId := congrArg Waiting.uploadId hwaits
  have hupload : p.upload = c.upload.shown x.server.files := congrArg Waiting.upload hwaits
  have hprunes : x.server.Prunes (x.server.finishComplete unlink c.uploadId c.upload stored).2 := prunes_finishComplete _ _ _ _
  refine ⟨h.sound.prune hk hprunes fun t ht => .inl (List.mem_of_mem_eraseIdx ht), ?_, ?_⟩
  · rw [hland]
    have hagree := registered_agree (x := x) hk hprunes
    cases answer with
    | done =>
      obtain rfl := hanswer.mpr rfl
      refine ⟨Function.update objects (objKey p.request.bucket p.request.key) (some p.object), ?_⟩
      rw [shown_of_prunes (x := x) hk hprunes rfl]
      show y.service.setObject _ _ = _
      rw [hservice]
      rfl
    | failed holds =>
      have hstored : stored = false := by
        cases stored with
        | false => rfl
        | true => cases hanswer.mp rfl
      subst hstored
      refine ⟨Function.update objects (objKey p.request.bucket p.request.key) holds, ?_⟩
      rw [Server.shown_congr hagree]
      show { y.service.setObject _ holds with uploads := y.service.uploads.insert p.request.uploadId p.upload } = _
      rw [hservice, hid, hupload]
      show (⟨x.server.buckets, (x.server.shown objects).uploads.insert c.uploadId (c.upload.shown x.server.files), _,
        x.server.uploadExpiry, x.server.maxBodySize, x.server.md5⟩ : Service) = ⟨_, FMap.mapValues (x.server.uploads.insert c.uploadId
          c.upload) _, _, _, _, _⟩
      rw [FMap.mapValues_insert]
      rfl
  · rw [hpending, waiting_of_prunes (x := x) hk hprunes]
    exact herase.symm

theorem Side.cancel (h : Side x y) {i : Nat} {t : Task} (ht : x.tasks[i]? = some t) (hk : (x.actCancel unlink i t).Keeps lost)
    (now : Nat) (write : Option Answer) : Side (x.actCancel unlink i t) (follow y now (x.dropAction i t write)) := by
  cases t with
  | spool t =>
    exact h.prune hk (prunes_refl _) rfl (fun t ht => .inl (List.mem_of_mem_eraseIdx ht)) (filterMap_eraseIdx_none ht rfl)
  | assembling c => exact h.give_up ht hk now write
  | writing c o => exact h.give_up ht hk now write

end Steps

/-! ## Runs side by side -/

/-- What the requests of a step are held to: a new upload gets an id that was not given out; a complete is orderly, and an id
    that is not registered is answered by what is at its path; the write that ends is the one that the session sees. -/
def Heard (x : World) (y : Session) (out : Outside) : Event → Prop
  | .create now uploadId _ _ _ => out.now = now ∧ ∀ c ∈ y.created, c.uploadId ≠ uploadId
  | .complete req head => ∀ listed, req.multipartUpload = some listed →
      Orderly y out.now (.complete head ⟨req.bucket, req.key, req.uploadId, listed⟩) ∧
        (x.server.uploads.lookup req.uploadId = none → head = true → (y.service.objects (objKey req.bucket req.key)).isSome)
  | .land _ stored => ∃ answer, out.write = some answer ∧ (stored = true ↔ answer = .done)
  | _ => True

/-- The completes that a step answers with `Ok`: for an id that is not registered, or when the object has been stored. -/
inductive Oks (x : World) : Event → UploadId → List (Option Int) → Prop
  | known {req : CompleteRequest} {head : Bool} {listed : List (Option Int)} (hparts : req.multipartUpload = some listed)
      (h : (x.server.beginComplete req head).1 = .answered (.ok ())) : Oks x (.complete req head) req.uploadId listed
  | stored {i : Nat} {c : Taken} {o : Assembly} (h : x.writingAt i = some (c, o)) : Oks x (.land i true) c.uploadId c.listed

/-- A world and the session that goes with it; clients put and delete objects in between. -/
inductive Beside : World → Session → Prop
  | start (s : Server) (objects : Key → Option StoredObject) :
      Beside (World.start s) (Session.start ((World.start s).server.shown objects))
  | act {x : World} {y : Session} (h : Beside x y) (e : Step) (out : Outside) (hheard : Heard x y out e.event) :
      Beside (x.act e.unlink e.event) (follow y out.now (x.action out e.event))
  | put {x : World} {y : Session} (h : Beside x y) (now : Nat) (answer : Answer) (bucket key : Key) (o : StoredObject) :
      Beside x (y.act now (.put answer bucket key o))
  | delete {x : World} {y : Session} (h : Beside x y) (now : Nat) (answer : Answer) (bucket key : Key) :
      Beside x (y.act now (.delete answer bucket key))

section Runs

variable {x : World} {y : Session}

theorem Side.act (h : Side x y) (e : Step) (out : Outside) (hheard : Heard x y out e.event) :
    Side (x.act e.unlink e.event) (follow y out.now (x.action out e.event)) := by
  obtain ⟨lost0, hkeeps⟩ := h.sound.keeps
  obtain ⟨more, hk, -⟩ := x.act_custody e.unlink e.event lost0 hkeeps
  obtain ⟨event, unlink⟩ := e
  dsimp only at hk hheard ⊢
  cases event with
  | create now uploadId bucket key metadata =>
    obtain ⟨rfl, -⟩ := hheard
    exact h.create hk
  | abort uploadId => exact h.abort out.now hk
  | uploadPart uploadId partNumber temp => exact h.uploadPart hk
  | uploadPartCopy req head temp => exact h.uploadPartCopy hk
  | opened i got =>
    dsimp only [World.act, World.action] at hk ⊢
    cases ht : x.spoolAt i false with
    | none => exact h
    | some t =>
      rw [ht] at hk
      exact h.opened (of_spoolAt x ht) hk
  | chunk i data written =>
    dsimp only [World.act, World.action] at hk ⊢
    cases ht : x.spoolAt i true with
    | none => exact h
    | some t =>
      rw [ht] at hk
      exact h.chunk (of_spoolAt x ht) hk
  | finish i flushed =>
    dsimp only [World.act, World.action] at hk ⊢
    cases ht : x.spoolAt i true with
    | none =>
      cases flushed with
      | true => exact h
      | false => exact h
    | some t =>
      rw [ht] at hk
      cases flushed with
      | true => exact h.finish (of_spoolAt x ht) out.now hk
      | false => exact h.fail (of_spoolAt x ht) hk
  | complete req head => exact h.complete hk out.now
  | assemble i io =>
    dsimp only [World.act, World.action] at hk ⊢
    cases ht : x.assemblingAt i with
    | none =>
      cases io with
      | true => exact h
      | false => exact h
    | some c =>
      rw [ht] at hk
      exact h.assemble (of_assemblingAt x ht) hk out.now
  | land i stored =>
    obtain ⟨answer, hwrite, hanswer⟩ := hheard
    dsimp only [World.act, World.action] at hk ⊢
    cases ht : x.writingAt i with
    | none => exact h
    | some c =>
      rw [ht] at hk
      dsimp only [Option.bind_some, World.landAction]
      rw [hwrite]
      exact h.land (of_writingAt x ht) hanswer hk out.now
  | cancel i =>
    dsimp only [World.act, World.action] at hk ⊢
    cases ht : x.tasks[i]? with
    | none => exact h
    | some t =>
      rw [ht] at hk
      cases t with
      | spool t =>
        show Side (x.actCancel unlink i (.spool t)) y
        exact h.cancel ht hk out.now none
      | assembling c => exact h.cancel ht hk out.now none
      | writing c o => exact h.cancel ht hk out.now out.write

/-- An action that any session may take: no upload is created, and none completed. -/
def Plain : Action → Prop
  | .create _ _ _ _ => False
  | .complete _ _ => False
  | _ => True

theorem Plain.run {a : Action} (h : Plain a) (hy : SessionRun Orderly y) (now : Nat) : SessionRun Orderly (y.act now a) := by
  have horderly : Orderly y now a := by
    cases a with
    | complete io req => exact h.elim
    | _ => trivial
  refine hy.act now a horderly fun uploadId bucket key metadata he => ?_
  rw [he] at h
  exact h.elim

theorem run_option (hy : SessionRun Orderly y) (now : Nat) {a : Option Action} (h : ∀ b ∈ a, Plain b) :
    SessionRun Orderly (follow y now a) := by
  cases a with
  | none => exact hy
  | some b => exact (h b rfl).run hy now

theorem plain_finish (t : Spool) : Plain (World.finishAction t) := by
  unfold World.finishAction
  cases t.copies with
  | true => trivial
  | false => trivial

theorem plain_drop {i : Nat} {t : Task} {write : Option Answer} : ∀ a ∈ x.dropAction i t write, Plain a := by
  intro a ha
  obtain ⟨w, -, rfl⟩ := Option.mem_map.mp ha
  trivial

/-- The action that goes with a step is orderly, and gives out no id twice. -/
theorem run_follow (hy : SessionRun Orderly y) (out : Outside) {e : Event} (hheard : Heard x y out e) :
    SessionRun Orderly (follow y out.now (x.action out e)) := by
  cases e with
  | create now uploadId bucket key metadata =>
    obtain ⟨-, hfresh⟩ := hheard
    refine hy.act out.now (.create uploadId bucket key metadata) trivial fun id _ _ _ he => ?_
    cases he
    exact hfresh
  | abort uploadId =>
    have hplain : Plain (.abort uploadId) := trivial
    exact hplain.run hy out.now
  | uploadPart uploadId partNumber temp => exact hy
  | uploadPartCopy req head temp => exact hy
  | opened i got => exact hy
  | chunk i data written => exact hy
  | finish i flushed =>
    cases flushed with
    | false => exact hy
    | true =>
      refine run_option hy out.now fun a ha => ?_
      obtain ⟨t, -, rfl⟩ := Option.mem_map.mp ha
      exact plain_finish t
  | complete req head =>
    show SessionRun Orderly (follow y out.now (x.completeAction req head))
    unfold World.completeAction
    cases hparts : req.multipartUpload with
    | none => exact hy
    | some listed =>
      obtain ⟨horderly, -⟩ := hheard listed hparts
      have horderly : Orderly y out.now (.complete (head || (x.server.uploads.lookup req.uploadId).isSome)
          ⟨req.bucket, req.key, req.uploadId, listed⟩) := horderly
      exact hy.act out.now _ horderly fun _ _ _ _ he => by cases he
  | assemble i io =>
    cases io with
    | true => exact hy
    | false =>
      refine run_option hy out.now fun a ha => ?_
      obtain ⟨c, -, ha⟩ := Option.bind_eq_some_iff.mp ha
      exact plain_drop a ha
  | land i stored =>
    refine run_option hy out.now fun a ha => ?_
    obtain ⟨c, -, ha⟩ := Option.bind_eq_some_iff.mp ha
    obtain ⟨answer, -, rfl⟩ := Option.mem_map.mp ha
    trivial
  | cancel i =>
    refine run_option hy out.now fun a ha => ?_
    obtain ⟨t, -, ha⟩ := Option.bind_eq_some_iff.mp ha
    cases t with
    | spool t => exact plain_drop a ha
    | assembling c => exact plain_drop a ha
    | writing c o => exact plain_drop a ha

/-- Puts and deletes leave the uploads as they are. -/
theorem Side.served (h : Side x y) {s : Service} (hs : ∃ objects, s = { y.service with objects := objects }) :
    Side x { y with service := s } := by
  obtain ⟨objects, rfl⟩ := hs
  obtain ⟨old, hservice⟩ := h.shows.service
  refine ⟨h.sound, ⟨objects, ?_⟩, h.shows.pending⟩
  rw [hservice]
  rfl

theorem store_objects (s : Service) (path : Key) (o : Option StoredObject) (answer : Answer) :
    ∃ objects, (s.store path o answer).2 = { s with objects := objects } := by
  cases answer with
  | done => exact ⟨_, rfl⟩
  | failed holds => exact ⟨_, rfl⟩

theorem putObject_objects (s : Service) (answer : Answer) (bucket key : Key) (o : StoredObject) :
    ∃ objects, (s.putObject answer bucket key o).2 = { s with objects := objects } := by
  unfold Service.putObject
  split
  · exact ⟨_, rfl⟩
  split
  · split
    · exact ⟨_, rfl⟩
    · exact store_objects _ _ _ _
  · exact ⟨_, rfl⟩

theorem deleteObject_objects (s : Service) (answer : Answer) (bucket key : Key) :
    ∃ objects, (s.deleteObject answer bucket key).2 = { s with objects := objects } := by
  unfold Service.deleteObject
  split
  · exact ⟨_, rfl⟩
  split
  · exact store_objects _ _ _ _
  · exact ⟨_, rfl⟩

theorem Beside.side (h : Beside x y) : Side x y ∧ SessionRun Orderly y := by
  induction h with
  | start s objects => exact ⟨⟨⟨⟨[], start_keeps s⟩, fun t ht => nomatch ht⟩, ⟨objects, rfl⟩, rfl⟩, .start _⟩
  | act _ e out hheard ih => exact ⟨ih.1.act e out hheard, run_follow ih.2 out hheard⟩
  | put _ now answer bucket key o ih =>
    have hplain : Plain (.put answer bucket key o) := trivial
    exact ⟨ih.1.served (putObject_objects _ answer bucket key o), hplain.run ih.2 now⟩
  | delete _ now answer bucket key ih =>
    have hplain : Plain (.delete answer bucket key) := trivial
    exact ⟨ih.1.served (deleteObject_objects _ answer bucket key), hplain.run ih.2 now⟩

/-- In every run the session has the same uploads, and the same completes wait. -/
theorem Beside.shows (h : Beside x y) : Shows x y := h.side.1.shows

/-- What a step answers with `Ok`, the session acknowledges. -/
theorem Side.acked (h : Side x y) {out : Outside} {e : Event} (hheard : Heard x y out e) {uploadId : UploadId}
    {listed : List (Option Int)} (hok : Oks x e uploadId listed) :
    ∃ req ∈ (follow y out.now (x.action out e)).acks, req.uploadId = uploadId ∧ req.parts = listed := by
  cases hok with
  | stored ht =>
    rename_i i c o
    obtain ⟨answer, hwrite, hanswer⟩ := hheard
    obtain ⟨p, hp, hwaits, -, -⟩ := h.pending (of_writingAt x ht)
    obtain ⟨-, -, hacks⟩ := act_land hp out.now answer
    have hdo : x.action out (.land i true) = some (.land answer (x.place i)) := by
      dsimp only [World.action]
      rw [ht]
      dsimp only [Option.bind_some, World.landAction]
      rw [hwrite]
      rfl
    rw [hdo]
    exact ⟨p.request, hacks (hanswer.mp rfl), congrArg Waiting.uploadId hwaits, congrArg Waiting.listed hwaits⟩
  | known hparts hanswered =>
    rename_i req head
    obtain ⟨-, hhead⟩ := hheard listed hparts
    unfold Server.beginComplete at hanswered
    rw [hparts] at hanswered
    dsimp only at hanswered
    cases hu : x.server.uploads.lookup req.uploadId with
    | some u =>
      rw [hu] at hanswered
      cases hanswered
    | none =>
      rw [hu] at hanswered
      cases head with
      | false => cases hanswered
      | true =>
        obtain ⟨objects, hservice⟩ := h.shows.service
        have hobject := hhead hu rfl
        have hlookup : y.service.uploads.lookup req.uploadId = none := by
          rw [hservice, lookup_shown, hu]
          rfl
        have hdo : x.action out (.complete req true) = some (.complete true ⟨req.bucket, req.key, req.uploadId, listed⟩) := by
          dsimp only [World.action, World.completeAction]
          rw [hparts]
          rfl
        rw [hdo]
        refine ⟨⟨req.bucket, req.key, req.uploadId, listed⟩, ?_, rfl, rfl⟩
        show _ ∈ (y.act out.now (.complete true ⟨req.bucket, req.key, req.uploadId, listed⟩)).acks
        dsimp only [Session.act, Service.beginComplete]
        rw [hlookup]
        dsimp only
        rw [if_pos ⟨rfl, hobject⟩]
        exact List.mem_cons_self

/-- Every `Ok` that a world gives is of an upload that was created and not aborted, and the object it wrote is what the files of
    the listed parts held. -/
theorem an_ok_is_truthful (h : Beside x y) (e : Step) (out : Outside) (hheard : Heard x y out e.event) {uploadId : UploadId}
    {listed : List (Option Int)} (hok : Oks x e.event uploadId listed) :
    ∃ req, req.uploadId = uploadId ∧ req.parts = listed ∧ Truthful (follow y out.now (x.action out e.event)) req := by
  obtain ⟨hside, hrun⟩ := h.side
  obtain ⟨req, hacked, hid, hparts⟩ := hside.acked hheard hok
  exact ⟨req, hid, hparts, (tracked (run_follow hrun out hheard)).acks req hacked⟩

end Runs

end ObjStr.S3.Temp
