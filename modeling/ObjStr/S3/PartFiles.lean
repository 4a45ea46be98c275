/-
  ObjStr.S3.PartFiles — the temp files of multipart uploads, and who owns them.

  While a request runs, its file belongs to it: the temp file of a part that is being written, or the parts of the upload that
  a complete has taken. Otherwise it belongs to a registered upload. A request can be answered with an error at any point, and
  it can be cancelled, which drops what it holds.
  - `World.act_custody`: what one step takes, passes on, removes and loses; it loses nothing exactly if it is `Tidy`.
  - `part_files_are_kept_iff`: with no request in progress, the files are those of the registered parts if and only if every
    step so far was tidy.
  - `a_part_sent_twice_leaves_a_file`: the second file of part 1 takes the place of the first, which stays.
-/

import ObjStr.Lib.Custody
import ObjStr.Raw.Space
import ObjStr.S3.Parts

namespace ObjStr.S3.Temp

open ObjStr.Lib ObjStr.Raw ObjStr.Sharded

/-! ## Requests in progress -/

/-- An upload that a complete has taken, and the parts it lists. -/
structure Taken where
  uploadId : UploadId
  upload : Upload
  listed : List (Option Int)

inductive Task where
  | spool (t : Spool)
  | assembling (c : Taken)
  | writing (c : Taken) (o : Assembly)

structure World where
  server : Server
  tasks : List Task

def World.start (s : Server) : World := ⟨{ s with uploads := ∅, files := ∅ }, []⟩

/-- What clients ask for, and how files and the backend answer; `i` is the place of a task. -/
inductive Event where
  | create (now : Nat) (uploadId : UploadId) (bucket key : Key) (metadata : FMap String)
  | abort (uploadId : UploadId)
  | uploadPart (uploadId : UploadId) (partNumber : Int) (temp : Option TempPath)
  | uploadPartCopy (req : CopyPartRequest) (head : Except ReadError Nat) (temp : Option TempPath)
  /-- `get_opts` of a copy. -/
  | opened (i : Nat) (got : Except ReadError Unit)
  | chunk (i : Nat) (data : Option Bytes) (written : Bool)
  | finish (i : Nat) (flushed : Bool)
  | complete (req : CompleteRequest) (head : Bool)
  | assemble (i : Nat) (io : Bool)
  | land (i : Nat) (stored : Bool)
  /-- The client goes away, and the task is dropped. -/
  | cancel (i : Nat)

namespace World

variable (x : World) (unlink : TempPath → Bool)

/-- The part at a place, if it has a stream, or if it has none yet. -/
def spoolAt (i : Nat) (reading : Bool) : Option Spool :=
  match x.tasks[i]? with
  | some (.spool t) => if t.reading = reading then some t else none
  | _ => none

def assemblingAt (i : Nat) : Option Taken :=
  match x.tasks[i]? with
  | some (.assembling c) => some c
  | _ => none

def writingAt (i : Nat) : Option (Taken × Assembly) :=
  match x.tasks[i]? with
  | some (.writing c o) => some (c, o)
  | _ => none

def actCreate (now : Nat) (uploadId : UploadId) (bucket key : Key) (metadata : FMap String) : World :=
  { x with server := (x.server.createMultipartUpload unlink now uploadId bucket key metadata).2 }

def actAbort (uploadId : UploadId) : World := { x with server := (x.server.abortMultipartUpload unlink uploadId).2 }

def actUploadPart (uploadId : UploadId) (partNumber : Int) (temp : Option TempPath) : World :=
  match x.server.beginPart uploadId partNumber temp with
  | (.ok t, s) => ⟨s, x.tasks ++ [.spool t]⟩
  | (.error _, s) => { x with server := s }

def actUploadPartCopy (req : CopyPartRequest) (head : Except ReadError Nat) (temp : Option TempPath) : World :=
  match x.server.beginCopy req head temp with
  | (.ok (t, _), s) => ⟨s, x.tasks ++ [.spool t]⟩
  | (.error _, s) => { x with server := s }

def actFail (i : Nat) (t : Spool) : World := ⟨x.server.failPart unlink t, x.tasks.eraseIdx i⟩

def actOpened (i : Nat) (t : Spool) (got : Except ReadError Unit) : World :=
  match got with
  | .ok () => { x with tasks := x.tasks.set i (.spool { t with reading := true }) }
  | .error _ => x.actFail unlink i t

def actChunk (i : Nat) (t : Spool) (data : Option Bytes) (written : Bool) : World :=
  match x.server.readChunk t data written with
  | (.ok t', s) => ⟨s, x.tasks.set i (.spool t')⟩
  | (.error _, s) => { x with server := s }.actFail unlink i t

def actFinish (i : Nat) (t : Spool) (flushed : Bool) : World :=
  match x.server.finishPart t flushed with
  | (.ok _, s) => ⟨s, x.tasks.eraseIdx i⟩
  | (.error _, s) => { x with server := s }.actFail unlink i t

def actComplete (req : CompleteRequest) (head : Bool) : World :=
  match x.server.beginComplete req head with
  | (.taken u listed, s) => ⟨s, x.tasks ++ [.assembling ⟨req.uploadId, u, listed⟩]⟩
  | (.answered _, s) => { x with server := s }

def actAssemble (i : Nat) (c : Taken) (io : Bool) : World :=
  match c.upload.assemble x.server.files x.server.md5 io c.listed with
  | .ok o => { x with tasks := x.tasks.set i (.writing c o) }
  | .error _ => ⟨x.server.removeFiles unlink c.upload.tempPaths, x.tasks.eraseIdx i⟩

def actLand (i : Nat) (c : Taken) (stored : Bool) : World :=
  ⟨(x.server.finishComplete unlink c.uploadId c.upload stored).2, x.tasks.eraseIdx i⟩

/-- A dropped upload removes its files; the temp file of a dropped part stays. -/
def actCancel (i : Nat) : Task → World
  | .spool _ => { x with tasks := x.tasks.eraseIdx i }
  | .assembling c => ⟨x.server.removeFiles unlink c.upload.tempPaths, x.tasks.eraseIdx i⟩
  | .writing c _ => ⟨x.server.removeFiles unlink c.upload.tempPaths, x.tasks.eraseIdx i⟩

/-- An event that does not fit the task at its place does nothing. -/
def act : Event → World
  | .create now uploadId bucket key metadata => x.actCreate unlink now uploadId bucket key metadata
  | .abort uploadId => x.actAbort unlink uploadId
  | .uploadPart uploadId partNumber temp => x.actUploadPart uploadId partNumber temp
  | .uploadPartCopy req head temp => x.actUploadPartCopy req head temp
  | .opened i got => ((x.spoolAt i false).map fun t => x.actOpened unlink i t got).getD x
  | .chunk i data written => ((x.spoolAt i true).map fun t => x.actChunk unlink i t data written).getD x
  | .finish i flushed => ((x.spoolAt i true).map fun t => x.actFinish unlink i t flushed).getD x
  | .complete req head => x.actComplete req head
  | .assemble i io => ((x.assemblingAt i).map fun c => x.actAssemble unlink i c io).getD x
  | .land i stored => ((x.writingAt i).map fun c => x.actLand unlink i c.1 stored).getD x
  | .cancel i => (x.tasks[i]?.map fun t => x.actCancel unlink i t).getD x

end World

/-- One step: what happens, and which removals of files succeed during it. -/
structure Step where
  event : Event
  unlink : TempPath → Bool

def World.run (x : World) (steps : List Step) : World := steps.foldl (fun x e => x.act e.unlink e.event) x

/-! ## Steps that lose no file -/

section Tidy

variable (x : World) (unlink : TempPath → Bool)

def Removed (paths : List TempPath) : Prop := ∀ p ∈ paths, unlink p = true

/-- The files of the upload that an insert replaces; the ids are random, so there should be none. -/
def World.replaced (uploadId : UploadId) : List TempPath := ((x.server.uploads.lookup uploadId).map Upload.tempPaths).getD []

/-- A part fails tidily if it is not a copy, and its file is removed. -/
def FailsTidily (t : Spool) : Prop := t.copies = false ∧ unlink t.tempPath = true

/-- An upload is created: the files of the stale ones are removed. -/
def TidyCreate (now : Nat) (uploadId : UploadId) (bucket : Key) : Prop :=
  bucket ∈ x.server.buckets →
    Removed unlink ((x.server.uploads.filterValues (x.server.isStale now)).values.flatMap Upload.tempPaths) ∧
    ((x.server.uploads.filterValues fun u => !x.server.isStale now u).entries.length < maxConcurrentUploads →
      ∀ u, x.server.uploads.lookup uploadId = some u → x.server.isStale now u = false → Removed unlink u.tempPaths)

/-- A chunk is read and written, or the part fails tidily. -/
def TidyChunk (t : Spool) (data : Option Bytes) (written : Bool) : Prop :=
  (∃ d, data = some d ∧ written = true ∧
    (t.copies = false → 0 < x.server.maxBodySize → t.consumed.length + d.length ≤ x.server.maxBodySize)) ∨
  FailsTidily unlink t

/-- A part is registered under a number that is not in use, or it fails tidily. -/
def TidyFinish (t : Spool) (flushed : Bool) : Prop :=
  match flushed, x.server.uploads.lookup t.uploadId with
  | true, some u => u.parts.lookup t.partNumber = none
  | _, _ => FailsTidily unlink t

/-- A task that is dropped: an upload that was taken removes its files. -/
def TidyCancel : Task → Prop
  | .spool _ => False
  | .assembling c => Removed unlink c.upload.tempPaths
  | .writing c _ => Removed unlink c.upload.tempPaths

/-- Steps that lose no file: a part that fails after its file was created removes it, so it is no copy, and is not cancelled; a
    part that is registered replaces none; and wherever files are removed, that succeeds. -/
def Tidy : Event → Prop
  | .create now uploadId bucket _ _ => TidyCreate x unlink now uploadId bucket
  | .abort uploadId => Removed unlink (x.replaced uploadId)
  | .uploadPart _ _ _ => True
  | .uploadPartCopy _ _ _ => True
  | .opened i got => ∀ t, x.spoolAt i false = some t → got = .ok () ∨ FailsTidily unlink t
  | .chunk i data written => ∀ t, x.spoolAt i true = some t → TidyChunk x unlink t data written
  | .finish i flushed => ∀ t, x.spoolAt i true = some t → TidyFinish x unlink t flushed
  | .complete _ _ => True
  | .assemble i io => ∀ c, x.assemblingAt i = some c →
      (c.upload.assemble x.server.files x.server.md5 io c.listed).isOk = true ∨ Removed unlink c.upload.tempPaths
  | .land i stored => ∀ c, x.writingAt i = some c →
      Removed unlink (if stored then c.1.upload.tempPaths else x.replaced c.1.uploadId)
  | .cancel i => ∀ t, x.tasks[i]? = some t → TidyCancel unlink t

end Tidy

def TidyRun (x : World) : List Step → Prop
  | [] => True
  | e :: rest => Tidy x e.unlink e.event ∧ TidyRun (x.act e.unlink e.event) rest

def World.FilesKept (x : World) : Prop :=
  ∀ p, p ∈ x.server.files ↔
    ∃ uploadId u n part, x.server.uploads.lookup uploadId = some u ∧ u.parts.lookup n = some part ∧ part.tempPath = p

/-! ## The owners -/

def Task.tempPaths : Task → List TempPath
  | .spool t => [t.tempPath]
  | .assembling c => c.upload.tempPaths
  | .writing c _ => c.upload.tempPaths

def registeredPaths (uploads : FMap Upload) : List TempPath := uploads.values.flatMap Upload.tempPaths

def taskPaths (tasks : List Task) : List TempPath := tasks.flatMap Task.tempPaths

/-- The files of the registered uploads, and those of the tasks. -/
def World.owned (x : World) : List TempPath := registeredPaths x.server.uploads ++ taskPaths x.tasks

def World.Keeps (x : World) (lost : List TempPath) : Prop := Custody x.owned lost x.server.files.keys

theorem mem_registeredPaths {uploads : FMap Upload} {p : TempPath} :
    p ∈ registeredPaths uploads ↔
      ∃ uploadId u n part, uploads.lookup uploadId = some u ∧ u.parts.lookup n = some part ∧ part.tempPath = p := by
  unfold registeredPaths FMap.values Upload.tempPaths
  simp only [List.mem_flatMap, List.mem_map]
  constructor
  · rintro ⟨u, ⟨e, he, rfl⟩, part, hpart, rfl⟩
    exact ⟨e.1, e.2, part.1, part.2, AList.mem_lookup_iff.mpr he, AList.mem_lookup_iff.mpr hpart, rfl⟩
  · intro ⟨uploadId, u, n, part, hu, hpart, hp⟩
    exact ⟨u, ⟨⟨uploadId, u⟩, AList.mem_lookup_iff.mp hu, rfl⟩, ⟨n, part⟩, AList.mem_lookup_iff.mp hpart, hp⟩

/-! ### Registered uploads -/

section Registered

variable {uploads : FMap Upload} {uploadId : UploadId} {u : Upload}

theorem registeredPaths_of_lookup (h : uploads.lookup uploadId = some u) :
    (registeredPaths uploads).Perm (u.tempPaths ++ registeredPaths (uploads.erase uploadId)) := by
  have hentries := ((entries_erase_perm h).map fun e => e.2).flatMap_right Upload.tempPaths
  simpa [registeredPaths, FMap.values] using hentries

/-- What an id has, if it has something, and the rest. -/
theorem registeredPaths_split (uploads : FMap Upload) (uploadId : UploadId) :
    (registeredPaths uploads).Perm
      (((uploads.lookup uploadId).map Upload.tempPaths).getD [] ++ registeredPaths (uploads.erase uploadId)) := by
  cases h : uploads.lookup uploadId with
  | some u => exact registeredPaths_of_lookup h
  | none => simp [registeredPaths, FMap.values, erase_of_lookup_none h]

theorem registeredPaths_filterValues (uploads : FMap Upload) (p : Upload → Bool) :
    (registeredPaths uploads).Perm
      (registeredPaths (uploads.filterValues p) ++ registeredPaths (uploads.filterValues fun u => !p u)) := by
  have hentries := (List.filter_append_perm (fun e : Sigma fun _ : Key => Upload => p e.2) uploads.entries).symm
  have hpaths := (hentries.map fun e => e.2).flatMap_right Upload.tempPaths
  simpa [registeredPaths, FMap.values, FMap.filterValues] using hpaths

/-- A part under a new number. -/
theorem tempPaths_insert_new {n : Int} {part : PartMeta} (h : u.parts.lookup n = none) :
    Upload.tempPaths { u with parts := u.parts.insert n part } = part.tempPath :: u.tempPaths := by
  have hrest : Upload.tempPaths { u with parts := u.parts.insert n part } =
      part.tempPath :: (u.parts.erase n).entries.map fun e => e.2.tempPath := rfl
  rw [hrest, erase_of_lookup_none h]
  rfl

/-- A part in the place of another. -/
theorem tempPaths_insert_old {n : Int} {part old : PartMeta} (h : u.parts.lookup n = some old) :
    (part.tempPath :: u.tempPaths).Perm
      (old.tempPath :: Upload.tempPaths { u with parts := u.parts.insert n part }) := by
  have hentries := (entries_erase_perm h).map fun e => e.2.tempPath
  have hold : u.tempPaths.Perm (old.tempPath :: (u.parts.erase n).entries.map fun e => e.2.tempPath) := hentries
  exact (hold.cons part.tempPath).trans (List.Perm.swap _ _ _)

end Registered

/-! ### Tasks -/

section Tasks

variable {tasks : List Task} {i : Nat} {t : Task}

theorem taskPaths_append (t : Task) : taskPaths (tasks ++ [t]) = taskPaths tasks ++ t.tempPaths := by simp [taskPaths]

theorem taskPaths_eraseIdx (h : tasks[i]? = some t) : (taskPaths tasks).Perm (t.tempPaths ++ taskPaths (tasks.eraseIdx i)) := by
  obtain ⟨hi, rfl⟩ := List.getElem?_eq_some_iff.mp h
  have hperm := (List.getElem_cons_eraseIdx_perm hi).symm.flatMap_right Task.tempPaths
  simpa [taskPaths] using hperm

theorem taskPaths_set (h : tasks[i]? = some t) {t' : Task} (ht' : t'.tempPaths = t.tempPaths) :
    (taskPaths (tasks.set i t')).Perm (taskPaths tasks) := by
  obtain ⟨hi, -⟩ := List.getElem?_eq_some_iff.mp h
  have hset : (tasks.set i t')[i]? = some t' := List.getElem?_set_self hi
  have hperm := taskPaths_eraseIdx hset
  rw [List.eraseIdx_set_eq, ht'] at hperm
  exact hperm.trans (taskPaths_eraseIdx h).symm

end Tasks

/-! ### Files -/

theorem keys_removeFiles (s : Server) (unlink : TempPath → Bool) (paths : List TempPath) :
    (s.removeFiles unlink paths).files.keys = s.files.keys.filter fun p => !(decide (p ∈ paths) && unlink p) := by
  simp [Server.removeFiles, FMap.filterKeys, AList.keys, List.keys, List.filter_map, Function.comp_def]

theorem keys_append (s : Server) (path : TempPath) (data : Bytes) : (s.append path data).files.keys.Perm s.files.keys := by
  unfold Server.append
  split
  · next old hold =>
    have hentries := (entries_erase_perm hold).map Sigma.fst
    exact hentries.symm
  · exact .refl _

/-! ## What a step does -/

/-- From one state to another nothing is lost exactly if `tidy`. -/
def Custodial (x x' : World) (tidy : Prop) : Prop :=
  ∀ lost, x.Keeps lost → ∃ more, x'.Keeps (more ++ lost) ∧ (more = [] ↔ tidy)

section Custodial

variable {x x' x'' : World} {unlink : TempPath → Bool} {tidy tidy' : Prop} {p : TempPath}

theorem filter_eq_nil_iff_removed {paths : List TempPath} : paths.filter (fun p => !unlink p) = [] ↔ Removed unlink paths := by
  simp [Removed, List.filter_eq_nil_iff]

theorem Custodial.trans (h : Custodial x x' tidy) (h' : Custodial x' x'' tidy') : Custodial x x'' (tidy ∧ tidy') := by
  intro lost hx
  obtain ⟨more, hmore, htidy⟩ := h lost hx
  obtain ⟨more', hmore', htidy'⟩ := h' _ hmore
  refine ⟨more' ++ more, by rwa [List.append_assoc], ?_⟩
  rw [List.append_eq_nil_iff, htidy, htidy', and_comm]

theorem Custodial.congr (h : Custodial x x' tidy) (htidy : tidy ↔ tidy') : Custodial x x' tidy' := by
  intro lost hx
  obtain ⟨more, hmore, hiff⟩ := h lost hx
  exact ⟨more, hmore, hiff.trans htidy⟩

/-- Files change owners, or nothing happens. -/
theorem custodial_trade (howned : x.owned.Perm x'.owned) (hfiles : x'.server.files.keys.Perm x.server.files.keys) :
    Custodial x x' True := by
  intro lost hx
  have htrade := hx.trade howned
  exact ⟨[], ⟨hfiles.trans htrade.perm, hfiles.symm.nodup hx.nodup⟩, by simp⟩

/-- A file is created. -/
theorem custodial_take (hp : p ∉ x.server.files.keys) (howned : x'.owned.Perm (p :: x.owned))
    (hfiles : x'.server.files.keys = p :: x.server.files.keys) : Custodial x x' True := by
  intro lost hx
  refine ⟨[], ?_, by simp⟩
  unfold World.Keeps
  rw [hfiles]
  exact hx.take hp howned

/-- A file stays, and no one owns it any more. -/
theorem custodial_lose (howned : x.owned.Perm (p :: x'.owned)) (hfiles : x'.server.files.keys = x.server.files.keys) :
    Custodial x x' False := by
  intro lost hx
  refine ⟨[p], ?_, by simp⟩
  unfold World.Keeps
  rw [hfiles]
  exact hx.lose howned

/-- Files are given up, and removed. -/
theorem custodial_give {given : List TempPath} (howned : x.owned.Perm (given ++ x'.owned))
    (hfiles : x'.server.files.keys = x.server.files.keys.filter fun p => !(decide (p ∈ given) && unlink p)) :
    Custodial x x' (Removed unlink given) := by
  intro lost hx
  refine ⟨given.filter fun p => !unlink p, ?_, filter_eq_nil_iff_removed⟩
  unfold World.Keeps
  rw [hfiles]
  exact hx.give unlink howned

theorem Custodial.refl (x : World) : Custodial x x True := custodial_trade (.refl _) (.refl _)

end Custodial

/-! ### Handlers -/

section Handlers

variable (x : World) (unlink : TempPath → Bool)

/-- A registered upload takes its files with it. -/
theorem register_custody (s : Server) (tasks : List Task) (uploadId : UploadId) (u : Upload)
    (howned : x.owned.Perm (u.tempPaths ++ (registeredPaths s.uploads ++ taskPaths tasks)))
    (hfiles : x.server.files.keys = s.files.keys) :
    Custodial x ⟨s.register unlink uploadId u, tasks⟩
      (Removed unlink (((s.uploads.lookup uploadId).map Upload.tempPaths).getD [])) := by
  refine custodial_give ?_ ?_
  · have hsplit := (registeredPaths_split s.uploads uploadId).append_right (taskPaths tasks)
    refine howned.trans ((hsplit.append_left u.tempPaths).trans ?_)
    show (u.tempPaths ++ (_ ++ registeredPaths (s.uploads.erase uploadId) ++ taskPaths tasks)).Perm
      (_ ++ (u.tempPaths ++ registeredPaths (s.uploads.erase uploadId) ++ taskPaths tasks))
    simp only [List.append_assoc]
    exact List.perm_append_comm_assoc _ _ _
  · rw [hfiles]
    exact keys_removeFiles _ unlink _

/-- The stale uploads are dropped first. -/
theorem reap_custody (now : Nat) :
    Custodial x
      ⟨{ x.server with uploads := x.server.uploads.filterValues fun u => !x.server.isStale now u }.removeFiles unlink
        (registeredPaths (x.server.uploads.filterValues (x.server.isStale now))), x.tasks⟩
      (Removed unlink (registeredPaths (x.server.uploads.filterValues (x.server.isStale now)))) := by
  refine custodial_give ?_ (keys_removeFiles _ unlink _)
  have hsplit := registeredPaths_filterValues x.server.uploads (x.server.isStale now)
  have howned := hsplit.append_right (taskPaths x.tasks)
  rw [List.append_assoc] at howned
  exact howned

theorem create_custody (now : Nat) (uploadId : UploadId) (bucket key : Key) (metadata : FMap String) :
    Custodial x (x.actCreate unlink now uploadId bucket key metadata) (TidyCreate x unlink now uploadId bucket) := by
  have hreap := reap_custody x unlink now
  unfold World.actCreate Server.createMultipartUpload TidyCreate
  by_cases hbucket : bucket ∈ x.server.buckets
  · rw [if_pos hbucket]
    dsimp only
    by_cases hcap : maxConcurrentUploads ≤ (x.server.uploads.filterValues fun u => !x.server.isStale now u).entries.length
    · rw [if_pos hcap]
      refine hreap.congr ?_
      simp only [hbucket, forall_const, Nat.not_lt.mpr hcap, false_imp_iff, and_true]
      rfl
    · rw [if_neg hcap]
      refine (hreap.trans (register_custody _ unlink _ x.tasks uploadId ⟨bucket, key, metadata, ∅, now⟩ (.refl _) rfl)).congr ?_
      simp only [hbucket, forall_const, Nat.lt_of_not_le hcap]
      refine and_congr Iff.rfl ?_
      show Removed unlink (((AList.lookup uploadId (x.server.uploads.filterValues _)).map Upload.tempPaths).getD []) ↔ _
      rw [FMap.lookup_filterValues]
      cases hu : x.server.uploads.lookup uploadId with
      | none => simp [Removed]
      | some u => by_cases hstale : x.server.isStale now u = true <;> simp [Option.filter_some, hstale, Removed]
  · rw [if_neg hbucket]
    exact (Custodial.refl x).congr (by simp [hbucket])

theorem abort_custody (uploadId : UploadId) :
    Custodial x (x.actAbort unlink uploadId) (Removed unlink (x.replaced uploadId)) := by
  unfold World.actAbort Server.abortMultipartUpload World.replaced
  cases hu : x.server.uploads.lookup uploadId with
  | none => exact (Custodial.refl x).congr (by simp [Removed])
  | some u =>
    refine custodial_give ?_ (keys_removeFiles _ unlink _)
    have howned := (registeredPaths_of_lookup hu).append_right (taskPaths x.tasks)
    rw [List.append_assoc] at howned
    exact howned

/-- A new task owns its temp file. -/
theorem newTemp_custody {p : TempPath} {temp : Option TempPath} {s : Server} (h : x.server.newTemp temp = (.ok p, s)) (t : Spool)
    (ht : t.tempPath = p) : Custodial x ⟨s, x.tasks ++ [.spool t]⟩ True := by
  unfold Server.newTemp at h
  cases temp with
  | none => cases h
  | some q =>
    dsimp only at h
    by_cases hq : q ∈ x.server.files
    · rw [if_pos hq] at h
      cases h
    · rw [if_neg hq] at h
      obtain ⟨hp, rfl⟩ := Prod.mk.inj h
      obtain rfl := Except.ok.inj hp
      have hkeys : q ∉ x.server.files.keys := hq
      refine custodial_take hkeys ?_ ((AList.keys_insert x.server.files).trans ?_)
      · show (registeredPaths x.server.uploads ++ taskPaths (x.tasks ++ [.spool t])).Perm _
        rw [taskPaths_append, ← List.append_assoc]
        refine List.perm_append_comm.trans ?_
        show (t.tempPath :: x.owned).Perm (q :: x.owned)
        rw [ht]
      · rw [List.erase_of_not_mem hkeys]

theorem newTemp_error {temp : Option TempPath} {s : Server} {e : S3Error} (h : x.server.newTemp temp = (.error e, s)) :
    s = x.server := by
  unfold Server.newTemp at h
  split at h
  · split at h <;> cases h
    rfl
  · exact (Prod.mk.inj h).2.symm

theorem uploadPart_custody (uploadId : UploadId) (partNumber : Int) (temp : Option TempPath) :
    Custodial x (x.actUploadPart uploadId partNumber temp) True := by
  unfold World.actUploadPart Server.beginPart
  cases hcheck : checkPartNumber partNumber with
  | error e => exact Custodial.refl x
  | ok _ =>
    rcases htemp : x.server.newTemp temp with ⟨e | p, s⟩
    · obtain rfl := newTemp_error x htemp
      dsimp only
      exact Custodial.refl x
    · dsimp only
      exact newTemp_custody x htemp _ rfl

theorem uploadPartCopy_custody (req : CopyPartRequest) (head : Except ReadError Nat) (temp : Option TempPath) :
    Custodial x (x.actUploadPartCopy req head temp) True := by
  unfold World.actUploadPartCopy Server.beginCopy
  cases hbytes : req.bytes x.server.maxBodySize head with
  | error e => exact Custodial.refl x
  | ok range =>
    rcases htemp : x.server.newTemp temp with ⟨e | p, s⟩
    · obtain rfl := newTemp_error x htemp
      dsimp only
      exact Custodial.refl x
    · dsimp only
      exact newTemp_custody x htemp _ rfl

/-- A part that fails: its file is removed, or it is a copy, and the file stays. -/
theorem fail_custody {i : Nat} {t : Spool} (ht : x.tasks[i]? = some (.spool t)) :
    Custodial x (x.actFail unlink i t) (FailsTidily unlink t) := by
  have howned : x.owned.Perm (t.tempPath :: (registeredPaths x.server.uploads ++ taskPaths (x.tasks.eraseIdx i))) :=
    ((taskPaths_eraseIdx ht).append_left _).trans List.perm_middle
  unfold World.actFail Server.failPart FailsTidily
  cases hcopies : t.copies with
  | true =>
    have hlose : Custodial x ⟨x.server, x.tasks.eraseIdx i⟩ False := custodial_lose howned rfl
    exact hlose.congr (by simp)
  | false =>
    have hgive : Custodial x ⟨x.server.removeFiles unlink [t.tempPath], x.tasks.eraseIdx i⟩ (Removed unlink [t.tempPath]) :=
      custodial_give howned (keys_removeFiles _ unlink _)
    exact hgive.congr (by simp [Removed])

/-- A task goes on with the same files. -/
theorem set_custody {i : Nat} {t : Task} (ht : x.tasks[i]? = some t) (t' : Task) (hpaths : t'.tempPaths = t.tempPaths) {s : Server}
    (huploads : s.uploads = x.server.uploads) (hfiles : s.files.keys.Perm x.server.files.keys) :
    Custodial x ⟨s, x.tasks.set i t'⟩ True := by
  refine custodial_trade ?_ hfiles
  unfold World.owned
  rw [huploads]
  exact ((taskPaths_set ht hpaths).append_left _).symm

theorem opened_custody {i : Nat} {t : Spool} (ht : x.tasks[i]? = some (.spool t)) (got : Except ReadError Unit) :
    Custodial x (x.actOpened unlink i t got) (got = .ok () ∨ FailsTidily unlink t) := by
  cases got with
  | ok _ =>
    have hset := set_custody x ht (.spool { t with reading := true }) rfl rfl (.refl _)
    exact hset.congr (by simp)
  | error e => exact (fail_custody x unlink ht).congr (by simp)

theorem chunk_custody {i : Nat} {t : Spool} (ht : x.tasks[i]? = some (.spool t)) (data : Option Bytes) (written : Bool) :
    Custodial x (x.actChunk unlink i t data written) (TidyChunk x unlink t data written) := by
  have hfail := fail_custody x unlink ht
  unfold World.actChunk Server.readChunk TidyChunk
  cases data with
  | none => exact hfail.congr (by simp)
  | some d =>
    dsimp only
    have hroom : (¬((!t.copies) = true ∧ 0 < x.server.maxBodySize ∧ x.server.maxBodySize < (t.consumed ++ d).length)) ↔
        (t.copies = false → 0 < x.server.maxBodySize → t.consumed.length + d.length ≤ x.server.maxBodySize) := by
      simp [List.length_append]
    by_cases hlimit : (!t.copies) = true ∧ 0 < x.server.maxBodySize ∧ x.server.maxBodySize < (t.consumed ++ d).length
    · have hover := mt hroom.mpr (not_not.mpr hlimit)
      rw [if_pos hlimit]
      refine hfail.congr ⟨.inr, fun h => h.resolve_left ?_⟩
      intro ⟨d', hd, _, hfits⟩
      obtain rfl := Option.some.inj hd
      exact hover hfits
    · have hfits := hroom.mp hlimit
      rw [if_neg hlimit]
      cases written with
      | true =>
        have hset := set_custody x ht (.spool { t with consumed := t.consumed ++ d }) (s := x.server.append t.tempPath d) rfl
          (by unfold Server.append; split <;> rfl) (keys_append _ _ _)
        exact hset.congr ⟨fun _ => .inl ⟨d, rfl, rfl, hfits⟩, fun _ => trivial⟩
      | false => exact hfail.congr (by simp)

/-- The file of the task becomes one of the upload's; the file of the part that it replaces stays. -/
theorem register_part_custody {i : Nat} {t : Spool} (ht : x.tasks[i]? = some (.spool t)) {u : Upload}
    (hu : x.server.uploads.lookup t.uploadId = some u) (part : PartMeta) (hpart : part.tempPath = t.tempPath) :
    Custodial x
      ⟨{ x.server with uploads := x.server.uploads.insert t.uploadId { u with parts := u.parts.insert t.partNumber part } },
        x.tasks.eraseIdx i⟩
      (u.parts.lookup t.partNumber = none) := by
  have hheld : x.owned.Perm ((part.tempPath :: u.tempPaths) ++
      (registeredPaths (x.server.uploads.erase t.uploadId) ++ taskPaths (x.tasks.eraseIdx i))) := by
    have howned := ((registeredPaths_of_lookup hu).append_right _).trans ((taskPaths_eraseIdx ht).append_left _)
    refine howned.trans (List.perm_middle.trans ?_)
    rw [List.append_assoc, hpart]
    exact .refl _
  have hafter : World.owned
      ⟨{ x.server with uploads := x.server.uploads.insert t.uploadId { u with parts := u.parts.insert t.partNumber part } },
        x.tasks.eraseIdx i⟩ =
      Upload.tempPaths { u with parts := u.parts.insert t.partNumber part } ++
        (registeredPaths (x.server.uploads.erase t.uploadId) ++ taskPaths (x.tasks.eraseIdx i)) := List.append_assoc _ _ _
  cases hold : u.parts.lookup t.partNumber with
  | none =>
    rw [← tempPaths_insert_new hold, ← hafter] at hheld
    exact (custodial_trade hheld (.refl _)).congr (by simp)
  | some old =>
    have hreplaced := hheld.trans ((tempPaths_insert_old hold).append_right _)
    rw [List.cons_append, ← hafter] at hreplaced
    exact (custodial_lose hreplaced rfl).congr (by simp)

theorem finish_custody {i : Nat} {t : Spool} (ht : x.tasks[i]? = some (.spool t)) (flushed : Bool) :
    Custodial x (x.actFinish unlink i t flushed) (TidyFinish x unlink t flushed) := by
  have hfail := fail_custody x unlink ht
  unfold World.actFinish Server.finishPart TidyFinish
  cases flushed with
  | false => exact hfail
  | true =>
    cases hu : x.server.uploads.lookup t.uploadId with
    | none => exact hfail
    | some u => exact register_part_custody x ht hu _ rfl

theorem complete_custody (req : CompleteRequest) (head : Bool) : Custodial x (x.actComplete req head) True := by
  unfold World.actComplete Server.beginComplete
  cases req.multipartUpload with
  | none => exact Custodial.refl x
  | some listed =>
    cases hu : x.server.uploads.lookup req.uploadId with
    | none => exact Custodial.refl x
    | some u =>
      refine custodial_trade ?_ (.refl _)
      have howned := (registeredPaths_of_lookup hu).append_right (taskPaths x.tasks)
      refine howned.trans ?_
      unfold World.owned
      rw [taskPaths_append, ← List.append_assoc, List.append_assoc]
      exact List.perm_append_comm

/-- A complete whose upload is dropped. -/
theorem drop_custody {i : Nat} {t : Task} (ht : x.tasks[i]? = some t) :
    Custodial x ⟨x.server.removeFiles unlink t.tempPaths, x.tasks.eraseIdx i⟩ (Removed unlink t.tempPaths) := by
  refine custodial_give ?_ (keys_removeFiles _ unlink _)
  refine ((taskPaths_eraseIdx ht).append_left _).trans ?_
  exact List.perm_append_comm_assoc _ _ _

theorem assemble_custody {i : Nat} {c : Taken} (ht : x.tasks[i]? = some (.assembling c)) (io : Bool) :
    Custodial x (x.actAssemble unlink i c io)
      ((c.upload.assemble x.server.files x.server.md5 io c.listed).isOk = true ∨ Removed unlink c.upload.tempPaths) := by
  unfold World.actAssemble
  cases c.upload.assemble x.server.files x.server.md5 io c.listed with
  | ok o =>
    have hset := set_custody x ht (.writing c o) (s := x.server) rfl rfl (.refl _)
    exact hset.congr (by simp [Except.isOk, Except.toBool])
  | error e => exact (drop_custody x unlink ht).congr (by simp [Except.isOk, Except.toBool, Task.tempPaths])

theorem land_custody {i : Nat} {c : Taken} {o : Assembly} (ht : x.tasks[i]? = some (.writing c o)) (stored : Bool) :
    Custodial x (x.actLand unlink i c stored)
      (Removed unlink (if stored then c.upload.tempPaths else x.replaced c.uploadId)) := by
  unfold World.actLand Server.finishComplete
  cases stored with
  | true =>
    have hdrop := drop_custody x unlink ht
    exact hdrop
  | false =>
    refine register_custody x unlink x.server (x.tasks.eraseIdx i) c.uploadId c.upload ?_ rfl
    refine ((taskPaths_eraseIdx ht).append_left _).trans ?_
    exact List.perm_append_comm_assoc _ _ _

theorem cancel_custody {i : Nat} {t : Task} (ht : x.tasks[i]? = some t) :
    Custodial x (x.actCancel unlink i t) (TidyCancel unlink t) := by
  cases t with
  | spool t =>
    have howned : x.owned.Perm (t.tempPath :: (registeredPaths x.server.uploads ++ taskPaths (x.tasks.eraseIdx i))) :=
      ((taskPaths_eraseIdx ht).append_left _).trans List.perm_middle
    exact custodial_lose howned rfl
  | assembling c =>
    have hdrop := drop_custody x unlink ht
    exact hdrop
  | writing c o =>
    have hdrop := drop_custody x unlink ht
    exact hdrop

theorem of_spoolAt {i : Nat} {reading : Bool} {t : Spool} (h : x.spoolAt i reading = some t) : x.tasks[i]? = some (.spool t) := by
  unfold World.spoolAt at h
  split at h
  · next t' ht =>
    split at h <;> cases h
    exact ht
  · cases h

theorem of_assemblingAt {i : Nat} {c : Taken} (h : x.assemblingAt i = some c) : x.tasks[i]? = some (.assembling c) := by
  unfold World.assemblingAt at h
  split at h
  · next c' ht =>
    cases h
    exact ht
  · cases h

theorem of_writingAt {i : Nat} {c : Taken × Assembly} (h : x.writingAt i = some c) : x.tasks[i]? = some (.writing c.1 c.2) := by
  unfold World.writingAt at h
  split at h
  · next c' o ht =>
    cases h
    exact ht
  · cases h

end Handlers

/-! ## Runs -/

/-- What a task does, if there is one. -/
theorem custodial_option {β : Type} {x : World} (o : Option β) {f : β → World} {tidy : β → Prop}
    (h : ∀ b, o = some b → Custodial x (f b) (tidy b)) : Custodial x ((o.map f).getD x) (∀ b, o = some b → tidy b) := by
  cases o with
  | none => exact (Custodial.refl x).congr (by simp)
  | some b => exact (h b rfl).congr (by simp)

/-- A step loses no file exactly if it is tidy. -/
theorem World.act_custody (x : World) (unlink : TempPath → Bool) (e : Event) :
    Custodial x (x.act unlink e) (Tidy x unlink e) := by
  cases e with
  | create now uploadId bucket key metadata => exact create_custody x unlink now uploadId bucket key metadata
  | abort uploadId => exact abort_custody x unlink uploadId
  | uploadPart uploadId partNumber temp => exact uploadPart_custody x uploadId partNumber temp
  | uploadPartCopy req head temp => exact uploadPartCopy_custody x req head temp
  | opened i got => exact custodial_option _ fun t ht => opened_custody x unlink (of_spoolAt x ht) got
  | chunk i data written => exact custodial_option _ fun t ht => chunk_custody x unlink (of_spoolAt x ht) data written
  | finish i flushed => exact custodial_option _ fun t ht => finish_custody x unlink (of_spoolAt x ht) flushed
  | complete req head => exact complete_custody x req head
  | assemble i io => exact custodial_option _ fun c hc => assemble_custody x unlink (of_assemblingAt x hc) io
  | land i stored => exact custodial_option _ fun c hc => land_custody x unlink (of_writingAt x hc) stored
  | cancel i => exact custodial_option _ fun t ht => cancel_custody x unlink ht

/-- By induction on the steps; what is lost once is lost. -/
theorem World.run_custody (x : World) (steps : List Step) : Custodial x (x.run steps) (TidyRun x steps) := by
  induction steps generalizing x with
  | nil => exact Custodial.refl x
  | cons e rest ih => exact (x.act_custody e.unlink e.event).trans (ih (x.act e.unlink e.event))

theorem start_keeps (s : Server) : (World.start s).Keeps [] := Custody.nil

theorem World.Keeps.filesKept_iff {x : World} {lost : List TempPath} (h : x.Keeps lost) (hidle : x.tasks = []) :
    x.FilesKept ↔ lost = [] := by
  rw [← Custody.accounted_iff h]
  unfold World.FilesKept World.owned
  rw [hidle]
  refine forall_congr' fun p => iff_congr Iff.rfl ?_
  rw [← mem_registeredPaths]
  simp [taskPaths]

/-- With no request in progress, the files are those of the registered parts if and only if every step so far was tidy. -/
theorem part_files_are_kept_iff (s : Server) (steps : List Step) (hidle : ((World.start s).run steps).tasks = []) :
    ((World.start s).run steps).FilesKept ↔ TidyRun (World.start s) steps := by
  obtain ⟨lost, hkeeps, hlost⟩ := (World.start s).run_custody steps [] (start_keeps s)
  rw [List.append_nil] at hkeeps
  exact (hkeeps.filesKept_iff hidle).trans hlost

/-! ### A part that is sent twice -/

def smallServer : Server where
  buckets := ["b"]
  uploads := ∅
  files := ∅
  uploadExpiry := 86400
  maxBodySize := 5368709120
  md5 _ := "d41d8cd98f00b204e9800998ecf8427e"

/-- A part is sent from the first byte to the last, as the only request. -/
def sendPart (partNumber : Int) (temp : TempPath) (data : Bytes) : List Step :=
  [⟨.uploadPart "u" partNumber (some temp), fun _ => true⟩, ⟨.chunk 0 (some data) true, fun _ => true⟩,
    ⟨.finish 0 true, fun _ => true⟩]

def createUpload : Step := ⟨.create 0 "u" "b" "k" ∅, fun _ => true⟩

theorem two_parts_are_kept :
    ((World.start smallServer).run (createUpload :: (sendPart 1 "t1" [1] ++ sendPart 2 "t2" [2]))).FilesKept := by
  refine (part_files_are_kept_iff smallServer _ rfl).mpr ?_
  have hremoved : ∀ paths, Removed (fun _ => true) paths := fun _ _ _ => rfl
  refine ⟨fun _ => ⟨hremoved _, fun _ u _ _ => hremoved _⟩, trivial, fun t ht => ?_, fun t ht => ?_, trivial, fun t ht => ?_,
    fun t ht => ?_, trivial⟩
  · obtain rfl := Option.some.inj ht
    exact .inl ⟨[1], rfl, rfl, by decide⟩
  · obtain rfl := Option.some.inj ht
    exact rfl
  · obtain rfl := Option.some.inj ht
    exact .inl ⟨[2], rfl, rfl, by decide⟩
  · obtain rfl := Option.some.inj ht
    exact rfl

/-- Part 1 is sent again: its new file takes the place of the first in the registry, and not on the disk. -/
theorem a_part_sent_twice_leaves_a_file :
    ¬ ∀ (s : Server) (steps : List Step), ((World.start s).run steps).tasks = [] → ((World.start s).run steps).FilesKept := by
  intro h
  have hkept := h smallServer (createUpload :: (sendPart 1 "t1" [1] ++ sendPart 1 "t2" [2])) rfl "t1"
  rw [← mem_registeredPaths] at hkept
  revert hkept
  decide

end ObjStr.S3.Temp
