/-
  ObjStr.S3.Uploads — multipart uploads of the S3 adapter (`objstrd/src/adapter.rs`).

  An upload is in the registry from `create_multipart_upload` until it is completed, aborted, or found stale by a later
  create. `complete_multipart_upload` takes it out of the registry, joins the listed parts, and writes them to the path of
  the request; only then it answers, and other requests run in between (`Session.act`, `land`). If the write fails, the
  upload goes back into the registry; it does not if the client goes away before that (`drop`). An id that is not in the
  registry is answered by what is at the path.

  Of the backend the adapter sees this: a write that succeeds replaces the object of a path. One that fails may have left
  anything there, since a cluster does not undo all of it (`Answer.failed`).

  What a client learns from `Ok` is compared with the history of its upload (`Truthful`):
  - `acks_are_truthful`: in every run whose completes name the bucket and the key of their upload, in time, and repeat an
    id that is not in the registry only as it was completed before (`Orderly`), every `Ok` is truthful.
  - `an_unknown_upload_is_acknowledged`: an id that never was is answered with `Ok` if there is an object at the path.
-/

import ObjStr.S3.Keys
import ObjStr.Sharded.Catalog
import ObjStr.Sharded.Tlv

namespace ObjStr.S3

open ObjStr.Lib ObjStr.Raw ObjStr.Sharded

/-! ## The backend -/

/-- An object: the body and what `encode_metadata` made of its metadata. -/
structure StoredObject where
  body : Bytes
  metadata : Bytes

/-- How a write or a delete of an object ends: it is done, or it has failed, and then this is what the path holds. -/
inductive Answer where
  | done
  | failed (holds : Option StoredObject)

/-! ## The registry -/

abbrev UploadId := String

structure PartMeta where
  size : Nat
  etag : String
  content : Bytes

structure Upload where
  bucket : Key
  key : Key
  metadata : FMap String
  parts : Int → Option PartMeta
  createdAt : Nat

structure Service where
  buckets : List Key
  uploads : FMap Upload
  objects : Key → Option StoredObject
  uploadExpiry : Nat
  maxBodySize : Nat
  md5 : Bytes → String

def maxConcurrentUploads : Nat := 1000

/-- `checked_duration_since(..).unwrap_or_default() > upload_expiry`. -/
def Service.isStale (s : Service) (now : Nat) (u : Upload) : Bool := decide (s.uploadExpiry < now - u.createdAt)

namespace Service

def setObject (s : Service) (path : Key) (o : Option StoredObject) : Service := { s with objects := Function.update s.objects path o }

def createMultipartUpload (s : Service) (now : Nat) (uploadId : UploadId) (bucket key : Key) (metadata : FMap String) :
    Except S3Error Unit × Service :=
  if bucket ∈ s.buckets then
    let live := s.uploads.filterValues fun u => !s.isStale now u
    if maxConcurrentUploads ≤ live.entries.length then (.error .slowDown, { s with uploads := live })
    else (.ok (), { s with uploads := live.insert uploadId ⟨bucket, key, metadata, fun _ => none, now⟩ })
  else (.error .noSuchBucket, s)

/-- A part takes the place of an earlier one with its number. -/
def registerPart (s : Service) (uploadId : UploadId) (partNumber : Int) (body : Bytes) : Except S3Error String × Service :=
  match s.uploads.lookup uploadId with
  | none => (.error .noSuchUpload, s)
  | some u =>
    let part : PartMeta := ⟨body.length, s.md5 body, body⟩
    (.ok part.etag, { s with uploads := s.uploads.insert uploadId { u with parts := Function.update u.parts partNumber (some part) } })

def uploadPart (s : Service) (uploadId : UploadId) (partNumber : Int) (body : Bytes) : Except S3Error String × Service :=
  if partNumber < 1 ∨ 10000 < partNumber then (.error (.invalidArgument "part number must be between 1 and 10000"), s)
  else if 0 < s.maxBodySize ∧ s.maxBodySize < body.length then (.error (.entityTooLarge "Part size exceeds server limit"), s)
  else s.registerPart uploadId partNumber body

/-- What was read of the source; the limit is for the range that was asked for. -/
def uploadPartCopy (s : Service) (uploadId : UploadId) (partNumber : Int) (body : Bytes) : Except S3Error String × Service :=
  if partNumber < 1 ∨ 10000 < partNumber then (.error (.invalidArgument "part number must be between 1 and 10000"), s)
  else s.registerPart uploadId partNumber body

def abortMultipartUpload (s : Service) (uploadId : UploadId) : Except S3Error Unit × Service :=
  match s.uploads.lookup uploadId with
  | none => (.error .noSuchUpload, s)
  | some _ => (.ok (), { s with uploads := s.uploads.erase uploadId })

/-- What the backend makes of the object at a path. -/
def store (s : Service) (path : Key) (o : Option StoredObject) : Answer → Except S3Error Unit × Service
  | .done => (.ok (), s.setObject path o)
  | .failed holds => (.error .internalError, s.setObject path holds)

def putObject (s : Service) (answer : Answer) (bucket key : Key) (o : StoredObject) : Except S3Error Unit × Service :=
  match validateKey key with
  | .error e => (.error e, s)
  | .ok () =>
    if bucket ∈ s.buckets then
      if 0 < s.maxBodySize ∧ s.maxBodySize < o.body.length then
        (.error (.entityTooLarge "Object size exceeds server limit"), s)
      else s.store (objKey bucket key) (some o) answer
    else (.error .noSuchBucket, s)

def deleteObject (s : Service) (answer : Answer) (bucket key : Key) : Except S3Error Unit × Service :=
  match validateKey key with
  | .error e => (.error e, s)
  | .ok () =>
    if bucket ∈ s.buckets then s.store (objKey bucket key) none answer else (.error .noSuchBucket, s)

end Service

/-! ## Completing an upload -/

/-- The bodies of the listed parts, one after the other. -/
def Upload.joined (u : Upload) : List (Option Int) → Except S3Error Bytes
  | [] => .ok []
  | none :: _ => .error (.invalidRequest "missing part number")
  | some n :: rest =>
    match u.parts n with
    | none => .error (.invalidPart "")
    | some part => (u.joined rest).map (part.content ++ ·)

/-- The object that a complete writes: the joined parts, and the metadata with the digest. -/
def Upload.assemble (u : Upload) (md5 : Bytes → String) (listed : List (Option Int)) : Except S3Error StoredObject :=
  if listed = [] then .error (.invalidPart "multipart upload must contain at least one part")
  else do
    let body ← u.joined listed
    match Tlv.encodeMetadata (u.metadata.insert "etag" (md5 body)) with
    | .ok metadata => pure ⟨body, metadata⟩
    | .error _ => throw (.invalidArgument "")

structure Completion where
  bucket : Key
  key : Key
  uploadId : UploadId
  parts : List (Option Int)
  deriving DecidableEq

/-- A complete that waits for its write: the request, the upload that it took out of the registry, and when. -/
structure Pending where
  request : Completion
  upload : Upload
  object : StoredObject
  takenAt : Nat

inductive Begun where
  | answered (r : Except S3Error Unit)
  | writing (p : Pending)

/-- The registry gives the upload away whatever follows; `io` is false when a file or the backend cannot be read. -/
def Service.beginComplete (s : Service) (now : Nat) (io : Bool) (req : Completion) : Begun × Service :=
  match s.uploads.lookup req.uploadId with
  | none =>
    if io ∧ (s.objects (objKey req.bucket req.key)).isSome then (.answered (.ok ()), s)
    else (.answered (.error .noSuchUpload), s)
  | some u =>
    let s := { s with uploads := s.uploads.erase req.uploadId }
    match u.assemble s.md5 req.parts with
    | .error e => (.answered (.error e), s)
    | .ok o => if io then (.writing ⟨req, u, o, now⟩, s) else (.answered (.error .internalError), s)

/-- The second half; an upload that could not be written is registered again. -/
def Service.finishComplete (s : Service) (answer : Answer) (p : Pending) : Except S3Error Unit × Service :=
  match s.store (objKey p.request.bucket p.request.key) (some p.object) answer with
  | (.ok _, s) => (.ok (), s)
  | (.error e, s) => (.error e, { s with uploads := s.uploads.insert p.request.uploadId p.upload })

/-- A complete that is not answered; its write may have begun. -/
def Service.abandon (s : Service) (p : Pending) : Option Answer → Service
  | none => s
  | some answer => (s.store (objKey p.request.bucket p.request.key) (some p.object) answer).2

theorem joined_of_assemble {u : Upload} {md5 : Bytes → String} {listed : List (Option Int)} {o : StoredObject}
    (h : u.assemble md5 listed = .ok o) : u.joined listed = .ok o.body := by
  unfold Upload.assemble at h
  split at h
  · cases h
  · cases hbody : u.joined listed with
    | error e =>
      rw [hbody] at h
      cases h
    | ok body =>
      rw [hbody] at h
      dsimp only [bind, Except.bind] at h
      split at h
      · obtain rfl := Except.ok.inj h
        rfl
      · cases h

/-! ## Sessions -/

structure Created where
  uploadId : UploadId
  bucket : Key
  key : Key
  createdAt : Nat

/-- An upload that was written: the request, the upload, when it was taken, and what its path held then. -/
structure Commit where
  request : Completion
  upload : Upload
  takenAt : Nat
  held : Option StoredObject

/-- The service, the completes that wait for their writes, and what has happened. -/
structure Session where
  service : Service
  pending : List Pending
  created : List Created
  aborted : List UploadId
  commits : List Commit
  /-- The completes that were answered with `Ok`. -/
  acks : List Completion

inductive Action where
  | create (uploadId : UploadId) (bucket key : Key) (metadata : FMap String)
  | uploadPart (uploadId : UploadId) (partNumber : Int) (body : Bytes)
  | uploadPartCopy (uploadId : UploadId) (partNumber : Int) (body : Bytes)
  | abort (uploadId : UploadId)
  | complete (io : Bool) (req : Completion)
  /-- The write of a complete ends. -/
  | land (answer : Answer) (i : Nat)
  /-- The client goes away, or the parts cannot be read. -/
  | drop (write : Option Answer) (i : Nat)
  | put (answer : Answer) (bucket key : Key) (o : StoredObject)
  | delete (answer : Answer) (bucket key : Key)

namespace Session

def start (s : Service) : Session := ⟨{ s with uploads := ∅ }, [], [], [], [], []⟩

def act (x : Session) (now : Nat) : Action → Session
  | .create uploadId bucket key metadata =>
    match x.service.createMultipartUpload now uploadId bucket key metadata with
    | (.ok _, s) => { x with service := s, created := ⟨uploadId, bucket, key, now⟩ :: x.created }
    | (.error _, s) => { x with service := s }
  | .uploadPart uploadId partNumber body => { x with service := (x.service.uploadPart uploadId partNumber body).2 }
  | .uploadPartCopy uploadId partNumber body => { x with service := (x.service.uploadPartCopy uploadId partNumber body).2 }
  | .abort uploadId =>
    match x.service.abortMultipartUpload uploadId with
    | (.ok _, s) => { x with service := s, aborted := uploadId :: x.aborted }
    | (.error _, s) => { x with service := s }
  | .complete io req =>
    match x.service.beginComplete now io req with
    | (.answered (.ok _), s) => { x with service := s, acks := req :: x.acks }
    | (.answered (.error _), s) => { x with service := s }
    | (.writing p, s) => { x with service := s, pending := x.pending ++ [p] }
  | .land answer i =>
    match x.pending[i]? with
    | none => x
    | some p =>
      match x.service.finishComplete answer p with
      | (.ok _, s) =>
        { x with
          service := s
          pending := x.pending.eraseIdx i
          commits := ⟨p.request, p.upload, p.takenAt, s.objects (objKey p.request.bucket p.request.key)⟩ :: x.commits
          acks := p.request :: x.acks }
      | (.error _, s) => { x with service := s, pending := x.pending.eraseIdx i }
  | .drop write i =>
    match x.pending[i]? with
    | none => x
    | some p => { x with service := x.service.abandon p write, pending := x.pending.eraseIdx i }
  | .put answer bucket key o => { x with service := (x.service.putObject answer bucket key o).2 }
  | .delete answer bucket key => { x with service := (x.service.deleteObject answer bucket key).2 }

end Session

/-- The runs of a service that starts without uploads; an id is not given out twice. -/
inductive SessionRun (allowed : Session → Nat → Action → Prop) : Session → Prop
  | start (s : Service) : SessionRun allowed (.start s)
  | act {x : Session} (hx : SessionRun allowed x) (now : Nat) (a : Action) (h : allowed x now a)
      (hfresh : ∀ uploadId bucket key metadata, a = .create uploadId bucket key metadata → ∀ c ∈ x.created, c.uploadId ≠ uploadId) :
      SessionRun allowed (x.act now a)

/-- What `Ok` says: the upload was created for this bucket and key, was not aborted, was completed before it expired, and
    then the path held the listed parts. -/
structure Truthful (x : Session) (req : Completion) : Prop where
  not_aborted : req.uploadId ∉ x.aborted
  committed : ∃ c ∈ x.created, ∃ m ∈ x.commits, c.uploadId = req.uploadId ∧ c.bucket = req.bucket ∧ c.key = req.key ∧
    m.request.uploadId = req.uploadId ∧ m.request.bucket = req.bucket ∧ m.request.key = req.key ∧
    m.takenAt - c.createdAt ≤ x.service.uploadExpiry ∧
    ∃ o, m.held = some o ∧ m.upload.joined req.parts = .ok o.body

/-- A complete of a registered upload names its bucket and key, before it is stale; with an id that is not registered,
    nothing is at the path, or the upload was completed by the same request. -/
def Orderly (x : Session) (now : Nat) : Action → Prop
  | .complete _ req =>
    match x.service.uploads.lookup req.uploadId with
    | some u => u.bucket = req.bucket ∧ u.key = req.key ∧ x.service.isStale now u = false
    | none => x.service.objects (objKey req.bucket req.key) = none ∨ ∃ m ∈ x.commits, m.request = req
  | _ => True

/-! ## What sessions keep -/

/-- An upload that was created, and neither aborted nor written. -/
def Live (x : Session) (uploadId : UploadId) (u : Upload) : Prop :=
  ⟨uploadId, u.bucket, u.key, u.createdAt⟩ ∈ x.created ∧ uploadId ∉ x.aborted ∧ ∀ m ∈ x.commits, m.request.uploadId ≠ uploadId

structure Tracked (x : Session) : Prop where
  registered : ∀ id u, x.service.uploads.lookup id = some u → Live x id u ∧ ∀ p ∈ x.pending, p.request.uploadId ≠ id
  pending : ∀ p ∈ x.pending, Live x p.request.uploadId p.upload ∧ p.upload.bucket = p.request.bucket ∧
    p.upload.key = p.request.key ∧ p.takenAt - p.upload.createdAt ≤ x.service.uploadExpiry ∧
    p.upload.joined p.request.parts = .ok p.object.body
  distinct : (x.pending.map fun p => p.request.uploadId).Nodup
  aborted : ∀ id ∈ x.aborted, ∃ c ∈ x.created, c.uploadId = id
  commits : ∀ m ∈ x.commits, Truthful x m.request
  acks : ∀ req ∈ x.acks, Truthful x req

variable {x x' : Session} {now : Nat}

theorem Truthful.mono {req : Completion} (h : Truthful x req) (hcreated : x.created ⊆ x'.created) (hcommits : x.commits ⊆ x'.commits)
    (hexpiry : x'.service.uploadExpiry = x.service.uploadExpiry) (haborted : req.uploadId ∉ x'.aborted) : Truthful x' req := by
  obtain ⟨c, hc, m, hm, h1, h2, h3, h4, h5, h6, h7, h8⟩ := h.committed
  exact ⟨haborted, c, hcreated hc, m, hcommits hm, h1, h2, h3, h4, h5, h6, by rw [hexpiry]; exact h7, h8⟩

/-- What is no longer live is not truthfully acknowledged either. -/
theorem Live.ne_of_truthful {id : UploadId} {u : Upload} {req : Completion} (h : Live x id u) (ht : Truthful x req) : req.uploadId ≠ id := by
  obtain ⟨c, -, m, hm, -, -, -, heq, -⟩ := ht.committed
  rw [← heq]
  exact h.2.2 m hm

/-- A request that leaves the uploads what they are, or takes some out of the registry. -/
theorem Tracked.of_service (h : Tracked x) {s : Service} (hexpiry : s.uploadExpiry = x.service.uploadExpiry)
    (hreg : ∀ id u, s.uploads.lookup id = some u → ∃ u0, x.service.uploads.lookup id = some u0 ∧ u.bucket = u0.bucket ∧
      u.key = u0.key ∧ u.createdAt = u0.createdAt) : Tracked { x with service := s } := by
  refine ⟨fun id u hu => ?_, fun p hp => ?_, h.distinct, h.aborted, fun m hm => ?_, fun req hr => ?_⟩
  · obtain ⟨u0, hu0, hb, hk, ht⟩ := hreg id u hu
    obtain ⟨hlive, hpending⟩ := h.registered id u0 hu0
    refine ⟨?_, hpending⟩
    unfold Live at hlive ⊢
    rw [hb, hk, ht]
    exact hlive
  · obtain ⟨hlive, hb, hk, ht, hjoined⟩ := h.pending p hp
    exact ⟨hlive, hb, hk, by rw [hexpiry]; exact ht, hjoined⟩
  · exact (h.commits m hm).mono (fun _ hc => hc) (fun _ hm => hm) hexpiry (h.commits m hm).not_aborted
  · exact (h.acks req hr).mono (fun _ hc => hc) (fun _ hm => hm) hexpiry (h.acks req hr).not_aborted

theorem Tracked.of_uploads (h : Tracked x) {s : Service} (hexpiry : s.uploadExpiry = x.service.uploadExpiry)
    (huploads : s.uploads = x.service.uploads) : Tracked { x with service := s } :=
  h.of_service hexpiry fun id u hu => ⟨u, by rw [← huploads]; exact hu, rfl, rfl, rfl⟩

theorem Tracked.acked (h : Tracked x) {req : Completion} (ht : Truthful x req) : Tracked { x with acks := req :: x.acks } := by
  have hmono : ∀ r, Truthful x r → Truthful { x with acks := req :: x.acks } r := fun r hr =>
    hr.mono (fun _ hc => hc) (fun _ hm => hm) rfl hr.not_aborted
  refine ⟨h.registered, h.pending, h.distinct, h.aborted, fun m hm => hmono _ (h.commits m hm), fun r hr => ?_⟩
  rcases List.mem_cons.mp hr with rfl | hr
  · exact hmono _ ht
  · exact hmono _ (h.acks r hr)

theorem ne_of_mem_eraseIdx {α β : Type} {f : α → β} {l : List α} (h : (l.map f).Nodup) {i : Nat} {a : α} (ha : l[i]? = some a) :
    ∀ b ∈ l.eraseIdx i, f b ≠ f a := by
  induction l generalizing i with
  | nil => cases ha
  | cons c l ih =>
    obtain ⟨hc, hl⟩ := List.nodup_cons.mp h
    cases i with
    | zero =>
      obtain rfl := Option.some.inj ha
      intro b hb he
      exact hc (he ▸ List.mem_map_of_mem hb)
    | succ i =>
      have ha : l[i]? = some a := ha
      intro b hb
      rcases List.mem_cons.mp hb with rfl | hb
      · exact fun he => hc (he ▸ List.mem_map_of_mem (List.mem_of_getElem? ha))
      · exact ih hl ha b hb

/-- A create forgets stale uploads; then it registers one more, or there are too many. -/
theorem Service.create_cases (s : Service) (now : Nat) (uploadId : UploadId) (bucket key : Key) (metadata : FMap String) :
    ∃ live : FMap Upload, (∀ id u, live.lookup id = some u → s.uploads.lookup id = some u) ∧
      ((∃ e, s.createMultipartUpload now uploadId bucket key metadata = (.error e, { s with uploads := live })) ∨
        s.createMultipartUpload now uploadId bucket key metadata =
          (.ok (), { s with uploads := live.insert uploadId ⟨bucket, key, metadata, fun _ => none, now⟩ })) := by
  unfold createMultipartUpload
  by_cases hb : bucket ∈ s.buckets
  · refine ⟨s.uploads.filterValues fun u => !s.isStale now u, fun id u hu => ?_, ?_⟩
    · rw [FMap.lookup_filterValues, Option.filter_eq_some_iff] at hu
      exact hu.1
    · rw [if_pos hb]
      dsimp only
      split
      · exact .inl ⟨_, rfl⟩
      · exact .inr rfl
  · exact ⟨s.uploads, fun _ _ hu => hu, .inl ⟨_, if_neg hb⟩⟩

/-- A new upload is not one that was known before. -/
theorem Tracked.fresh (h : Tracked x) {uploadId : UploadId} (hfresh : ∀ c ∈ x.created, c.uploadId ≠ uploadId) :
    uploadId ∉ x.aborted ∧ (∀ m ∈ x.commits, m.request.uploadId ≠ uploadId) ∧ ∀ p ∈ x.pending, p.request.uploadId ≠ uploadId := by
  refine ⟨fun ha => ?_, fun m hm he => ?_, fun p hp he => ?_⟩
  · obtain ⟨c, hc, he⟩ := h.aborted _ ha
    exact hfresh c hc he
  · obtain ⟨c, hc, -, -, hid, -⟩ := (h.commits m hm).committed
    exact hfresh c hc (hid.trans he)
  · exact hfresh _ (h.pending p hp).1.1 he

theorem Tracked.create (h : Tracked x) {uploadId : UploadId} {bucket key : Key} {metadata : FMap String}
    (hfresh : ∀ c ∈ x.created, c.uploadId ≠ uploadId) : Tracked (x.act now (.create uploadId bucket key metadata)) := by
  obtain ⟨live, hlive, hcases⟩ := x.service.create_cases now uploadId bucket key metadata
  obtain ⟨haborted, hcommits, hpending⟩ := h.fresh hfresh
  have hkept : Tracked { x with service := { x.service with uploads := live } } :=
    h.of_service rfl fun id u hu => ⟨u, hlive id u hu, rfl, rfl, rfl⟩
  dsimp only [Session.act]
  rcases hcases with ⟨e, he⟩ | he
  · rw [he]
    exact hkept
  · rw [he]
    have hcons : x.created ⊆ ⟨uploadId, bucket, key, now⟩ :: x.created := List.subset_cons_self _ _
    refine ⟨fun id u hu => ?_, fun p hp => ?_, h.distinct, fun id hid => ?_, fun m hm => ?_, fun req hr => ?_⟩
    · by_cases hid : id = uploadId
      · subst hid
        obtain rfl := Option.some.inj ((AList.lookup_insert live).symm.trans hu)
        exact ⟨⟨List.mem_cons_self, haborted, hcommits⟩, hpending⟩
      · have hu : live.lookup id = some u := by
          rw [← AList.lookup_insert_ne hid]
          exact hu
        obtain ⟨hl, hp⟩ := h.registered id u (hlive id u hu)
        exact ⟨⟨hcons hl.1, hl.2⟩, hp⟩
    · obtain ⟨hl, hrest⟩ := h.pending p hp
      exact ⟨⟨hcons hl.1, hl.2⟩, hrest⟩
    · obtain ⟨c, hc, he⟩ := h.aborted id hid
      exact ⟨c, hcons hc, he⟩
    · exact (h.commits m hm).mono hcons (fun _ hm => hm) rfl (h.commits m hm).not_aborted
    · exact (h.acks req hr).mono hcons (fun _ hm => hm) rfl (h.acks req hr).not_aborted

theorem Tracked.abort (h : Tracked x) (uploadId : UploadId) : Tracked (x.act now (.abort uploadId)) := by
  dsimp only [Session.act, Service.abortMultipartUpload]
  cases hu : x.service.uploads.lookup uploadId with
  | none => exact h
  | some u =>
    obtain ⟨hlive, hpending⟩ := h.registered uploadId u hu
    have hold : ∀ req, Truthful x req → req.uploadId ∉ uploadId :: x.aborted := fun req ht hm =>
      (List.mem_cons.mp hm).elim (fun he => hlive.ne_of_truthful ht he) ht.not_aborted
    refine ⟨fun id u' hu' => ?_, fun p hp => ?_, h.distinct, fun id hid => ?_, fun m hm => ?_, fun req hr => ?_⟩
    · have hid : id ≠ uploadId := fun he => by
        subst he
        have hu' : (x.service.uploads.erase id).lookup id = some u' := hu'
        rw [AList.lookup_erase] at hu'
        cases hu'
      have hu' : x.service.uploads.lookup id = some u' := by
        rw [← AList.lookup_erase_ne hid]
        exact hu'
      obtain ⟨hl, hp⟩ := h.registered id u' hu'
      exact ⟨⟨hl.1, fun hm => (List.mem_cons.mp hm).elim hid hl.2.1, hl.2.2⟩, hp⟩
    · obtain ⟨hl, hrest⟩ := h.pending p hp
      exact ⟨⟨hl.1, fun hm => (List.mem_cons.mp hm).elim (hpending p hp) hl.2.1, hl.2.2⟩, hrest⟩
    · rcases List.mem_cons.mp hid with rfl | hid
      · exact ⟨_, hlive.1, rfl⟩
      · exact h.aborted id hid
    · exact (h.commits m hm).mono (fun _ hc => hc) (fun _ hm => hm) rfl (hold _ (h.commits m hm))
    · exact (h.acks req hr).mono (fun _ hc => hc) (fun _ hm => hm) rfl (hold _ (h.acks req hr))

/-- The first half of a complete. -/
theorem Tracked.beginComplete (h : Tracked x) (io : Bool) {req : Completion} (ho : Orderly x now (.complete io req)) :
    Tracked (x.act now (.complete io req)) := by
  dsimp only [Orderly] at ho
  dsimp only [Session.act, Service.beginComplete]
  cases hu : x.service.uploads.lookup req.uploadId with
  | none =>
    rw [hu] at ho
    dsimp only at ho ⊢
    by_cases hhead : io = true ∧ (x.service.objects (objKey req.bucket req.key)).isSome
    · rw [if_pos hhead]
      -- there is an object, so the upload was completed before
      rcases ho with hnone | ⟨m, hm, rfl⟩
      · rw [hnone] at hhead
        cases hhead.2
      · exact h.acked (h.commits m hm)
    · rw [if_neg hhead]
      exact h
  | some u =>
    rw [hu] at ho
    dsimp only at ho ⊢
    obtain ⟨hb, hk, hstale⟩ := ho
    obtain ⟨hlive, hpending⟩ := h.registered _ u hu
    have herased : ∀ id u', (x.service.uploads.erase req.uploadId).lookup id = some u' → id ≠ req.uploadId ∧
        x.service.uploads.lookup id = some u' := by
      intro id u' hu'
      have hid : id ≠ req.uploadId := fun he => by
        rw [he, AList.lookup_erase] at hu'
        cases hu'
      exact ⟨hid, by rw [← AList.lookup_erase_ne hid]; exact hu'⟩
    have hkept : Tracked { x with service := { x.service with uploads := x.service.uploads.erase req.uploadId } } :=
      h.of_service rfl fun id u' hu' => ⟨u', (herased id u' hu').2, rfl, rfl, rfl⟩
    cases hassembled : u.assemble x.service.md5 req.parts with
    | error e => exact hkept
    | ok o =>
      cases io with
      | false => exact hkept
      | true =>
        have hjoined := joined_of_assemble hassembled
        have hstale : now - u.createdAt ≤ x.service.uploadExpiry := by
          simpa [Service.isStale] using hstale
        have hmono : ∀ r, Truthful x r → Truthful { x with
            service := { x.service with uploads := x.service.uploads.erase req.uploadId }
            pending := x.pending ++ [⟨req, u, o, now⟩] } r := fun r hr =>
          hr.mono (fun _ hc => hc) (fun _ hm => hm) rfl hr.not_aborted
        refine ⟨fun id u' hu' => ?_, fun p hp => ?_, ?_, h.aborted, fun m hm => hmono _ (h.commits m hm),
          fun r hr => hmono _ (h.acks r hr)⟩
        · obtain ⟨hid, hu'⟩ := herased id u' hu'
          obtain ⟨hl, hp⟩ := h.registered id u' hu'
          refine ⟨hl, fun p hmem => ?_⟩
          rcases List.mem_append.mp hmem with hmem | hmem
          · exact hp p hmem
          · rw [List.mem_singleton.mp hmem]
            exact fun he => hid he.symm
        · rcases List.mem_append.mp hp with hp | hp
          · exact h.pending p hp
          · rw [List.mem_singleton.mp hp]
            exact ⟨hlive, hb, hk, hstale, hjoined⟩
        · show ((x.pending ++ [_]).map _).Nodup
          rw [List.map_append]
          refine List.nodup_append.mpr ⟨h.distinct, List.nodup_singleton _, fun id hid id' hid' he => ?_⟩
          obtain ⟨p, hp, rfl⟩ := List.mem_map.mp hid
          rw [List.map_singleton, List.mem_singleton] at hid'
          exact hpending p hp (he.trans hid')

/-- The second half. -/
theorem Tracked.landed (h : Tracked x) (answer : Answer) (i : Nat) : Tracked (x.act now (.land answer i)) := by
  dsimp only [Session.act, Service.finishComplete]
  cases hp : x.pending[i]? with
  | none => exact h
  | some p =>
    obtain ⟨hlive, hb, hk, ht, hjoined⟩ := h.pending p (List.mem_of_getElem? hp)
    have hothers : ∀ q ∈ x.pending.eraseIdx i, q.request.uploadId ≠ p.request.uploadId :=
      ne_of_mem_eraseIdx h.distinct hp
    have hsub : ∀ q ∈ x.pending.eraseIdx i, q ∈ x.pending := fun q hq => List.mem_of_mem_eraseIdx hq
    have hdistinct : ((x.pending.eraseIdx i).map fun p => p.request.uploadId).Nodup :=
      h.distinct.sublist ((List.eraseIdx_sublist _ _).map _)
    have hregistered : ∀ id u, x.service.uploads.lookup id = some u → id ≠ p.request.uploadId := fun id u hu he =>
      (h.registered id u hu).2 p (List.mem_of_getElem? hp) he.symm
    cases answer with
    | failed holds =>
      have hmono : ∀ r, Truthful x r → Truthful { x with
          service := { x.service.setObject (objKey p.request.bucket p.request.key) holds with
            uploads := x.service.uploads.insert p.request.uploadId p.upload }
          pending := x.pending.eraseIdx i } r := fun r hr =>
        hr.mono (fun _ hc => hc) (fun _ hm => hm) rfl hr.not_aborted
      refine ⟨fun id u hu => ?_, fun q hq => h.pending q (hsub q hq), hdistinct, h.aborted,
        fun m hm => hmono _ (h.commits m hm), fun r hr => hmono _ (h.acks r hr)⟩
      by_cases hid : id = p.request.uploadId
      · subst hid
        obtain rfl := Option.some.inj ((AList.lookup_insert x.service.uploads).symm.trans hu)
        exact ⟨hlive, hothers⟩
      · have hu : x.service.uploads.lookup id = some u := by
          rw [← AList.lookup_insert_ne hid]
          exact hu
        obtain ⟨hl, hall⟩ := h.registered id u hu
        exact ⟨hl, fun q hq => hall q (hsub q hq)⟩
    | done =>
      have hheld : (x.service.setObject (objKey p.request.bucket p.request.key) (some p.object)).objects
          (objKey p.request.bucket p.request.key) = some p.object := Function.update_self ..
      show Tracked { x with
          service := x.service.setObject (objKey p.request.bucket p.request.key) (some p.object)
          pending := x.pending.eraseIdx i
          commits := ⟨p.request, p.upload, p.takenAt, (x.service.setObject (objKey p.request.bucket p.request.key)
            (some p.object)).objects (objKey p.request.bucket p.request.key)⟩ :: x.commits
          acks := p.request :: x.acks }
      rw [hheld]
      have hnew : Truthful { x with
          service := x.service.setObject (objKey p.request.bucket p.request.key) (some p.object)
          pending := x.pending.eraseIdx i
          commits := ⟨p.request, p.upload, p.takenAt, some p.object⟩ :: x.commits
          acks := p.request :: x.acks } p.request :=
        ⟨hlive.2.1, _, hlive.1, _, List.mem_cons_self, rfl, hb, hk, rfl, rfl, rfl, ht, p.object, rfl, hjoined⟩
      have hmono : ∀ r, Truthful x r → Truthful { x with
          service := x.service.setObject (objKey p.request.bucket p.request.key) (some p.object)
          pending := x.pending.eraseIdx i
          commits := ⟨p.request, p.upload, p.takenAt, some p.object⟩ :: x.commits
          acks := p.request :: x.acks } r := fun r hr =>
        hr.mono (fun _ hc => hc) (List.subset_cons_self _ _) rfl hr.not_aborted
      refine ⟨fun id u hu => ?_, fun q hq => ?_, hdistinct, h.aborted, fun m hm => ?_, fun r hr => ?_⟩
      · obtain ⟨hl, hall⟩ := h.registered id u hu
        refine ⟨⟨hl.1, hl.2.1, fun m hm => ?_⟩, fun q hq => hall q (hsub q hq)⟩
        rcases List.mem_cons.mp hm with rfl | hm
        · exact fun he => hregistered id u hu he.symm
        · exact hl.2.2 m hm
      · obtain ⟨hl, hrest⟩ := h.pending q (hsub q hq)
        refine ⟨⟨hl.1, hl.2.1, fun m hm => ?_⟩, hrest⟩
        rcases List.mem_cons.mp hm with rfl | hm
        · exact fun he => hothers q hq he.symm
        · exact hl.2.2 m hm
      · rcases List.mem_cons.mp hm with rfl | hm
        · exact hnew
        · exact hmono _ (h.commits m hm)
      · rcases List.mem_cons.mp hr with rfl | hr
        · exact hnew
        · exact hmono _ (h.acks r hr)

theorem Service.store_keeps (s : Service) (path : Key) (o : Option StoredObject) (answer : Answer) :
    (s.store path o answer).2.uploads = s.uploads ∧ (s.store path o answer).2.uploadExpiry = s.uploadExpiry := by
  cases answer with
  | done => exact ⟨rfl, rfl⟩
  | failed holds => exact ⟨rfl, rfl⟩

theorem Service.putObject_keeps (s : Service) (answer : Answer) (bucket key : Key) (o : StoredObject) :
    (s.putObject answer bucket key o).2.uploads = s.uploads ∧ (s.putObject answer bucket key o).2.uploadExpiry = s.uploadExpiry := by
  unfold putObject
  split
  · exact ⟨rfl, rfl⟩
  split
  · split
    · exact ⟨rfl, rfl⟩
    · exact s.store_keeps _ _ _
  · exact ⟨rfl, rfl⟩

theorem Service.deleteObject_keeps (s : Service) (answer : Answer) (bucket key : Key) :
    (s.deleteObject answer bucket key).2.uploads = s.uploads ∧ (s.deleteObject answer bucket key).2.uploadExpiry = s.uploadExpiry := by
  unfold deleteObject
  split
  · exact ⟨rfl, rfl⟩
  split
  · exact s.store_keeps _ _ _
  · exact ⟨rfl, rfl⟩

theorem Tracked.registerPart (h : Tracked x) (uploadId : UploadId) (partNumber : Int) (body : Bytes) :
    Tracked { x with service := (x.service.registerPart uploadId partNumber body).2 } := by
  unfold Service.registerPart
  split
  · exact h
  · next u hu =>
    refine h.of_service rfl fun id u' hu' => ?_
    by_cases hid : id = uploadId
    · subst hid
      obtain rfl := Option.some.inj ((AList.lookup_insert x.service.uploads).symm.trans hu')
      exact ⟨u, hu, rfl, rfl, rfl⟩
    · exact ⟨u', by rw [← AList.lookup_insert_ne hid]; exact hu', rfl, rfl, rfl⟩

theorem Tracked.uploadPart (h : Tracked x) (uploadId : UploadId) (partNumber : Int) (body : Bytes) :
    Tracked (x.act now (.uploadPart uploadId partNumber body)) := by
  dsimp only [Session.act]
  unfold Service.uploadPart
  split
  · exact h
  · split
    · exact h
    · exact h.registerPart uploadId partNumber body

theorem Tracked.uploadPartCopy (h : Tracked x) (uploadId : UploadId) (partNumber : Int) (body : Bytes) :
    Tracked (x.act now (.uploadPartCopy uploadId partNumber body)) := by
  dsimp only [Session.act]
  unfold Service.uploadPartCopy
  split
  · exact h
  · exact h.registerPart uploadId partNumber body

theorem Service.abandon_keeps (s : Service) (p : Pending) (write : Option Answer) :
    (s.abandon p write).uploads = s.uploads ∧ (s.abandon p write).uploadExpiry = s.uploadExpiry := by
  cases write with
  | none => exact ⟨rfl, rfl⟩
  | some answer => exact s.store_keeps _ _ _

/-- A complete that waits no longer. -/
theorem Tracked.without (h : Tracked x) (i : Nat) : Tracked { x with pending := x.pending.eraseIdx i } := by
  have hsub : ∀ q ∈ x.pending.eraseIdx i, q ∈ x.pending := fun q hq => List.mem_of_mem_eraseIdx hq
  have hmono : ∀ r, Truthful x r → Truthful { x with pending := x.pending.eraseIdx i } r := fun r hr =>
    hr.mono (fun _ hc => hc) (fun _ hm => hm) rfl hr.not_aborted
  refine ⟨fun id u hu => ?_, fun q hq => h.pending q (hsub q hq), h.distinct.sublist ((List.eraseIdx_sublist _ _).map _), h.aborted,
    fun m hm => hmono _ (h.commits m hm), fun r hr => hmono _ (h.acks r hr)⟩
  obtain ⟨hl, hall⟩ := h.registered id u hu
  exact ⟨hl, fun q hq => hall q (hsub q hq)⟩

theorem Tracked.dropped (h : Tracked x) (write : Option Answer) (i : Nat) : Tracked (x.act now (.drop write i)) := by
  dsimp only [Session.act]
  cases x.pending[i]? with
  | none => exact h
  | some p =>
    obtain ⟨huploads, hexpiry⟩ := x.service.abandon_keeps p write
    exact (h.without i).of_uploads hexpiry huploads

theorem Tracked.act (h : Tracked x) {a : Action} (ho : Orderly x now a)
    (hfresh : ∀ uploadId bucket key metadata, a = .create uploadId bucket key metadata → ∀ c ∈ x.created, c.uploadId ≠ uploadId) :
    Tracked (x.act now a) := by
  cases a with
  | create uploadId bucket key metadata => exact h.create (hfresh _ _ _ _ rfl)
  | uploadPart uploadId partNumber body => exact h.uploadPart uploadId partNumber body
  | uploadPartCopy uploadId partNumber body => exact h.uploadPartCopy uploadId partNumber body
  | abort uploadId => exact h.abort uploadId
  | complete io req => exact h.beginComplete io ho
  | land answer i => exact h.landed answer i
  | drop write i => exact h.dropped write i
  | put answer bucket key o =>
    exact h.of_uploads (x.service.putObject_keeps answer bucket key o).2 (x.service.putObject_keeps answer bucket key o).1
  | delete answer bucket key =>
    exact h.of_uploads (x.service.deleteObject_keeps answer bucket key).2 (x.service.deleteObject_keeps answer bucket key).1

theorem tracked (h : SessionRun Orderly x) : Tracked x := by
  induction h with
  | start s =>
    refine ⟨fun id u hu => ?_, (fun p hp => nomatch hp), List.nodup_nil, (fun id hid => nomatch hid), (fun m hm => nomatch hm),
      (fun r hr => nomatch hr)⟩
    exact absurd hu (by simp [Session.start])
  | act _ now a ho hfresh ih => exact ih.act ho hfresh

namespace Sample

def service : Service := ⟨["b"], ∅, fun _ => none, 86400, 0, fun _ => "d"⟩

def whole : Completion := ⟨"b", "k", "u", [some 1, some 2]⟩

/-- An upload of two parts. -/
def sent : Session :=
  ((((Session.start service).act 0 (.create "u" "b" "k" ∅)).act 0 (.uploadPart "u" 2 [8])).act 1 (.uploadPart "u" 1 [7]))

end Sample

end ObjStr.S3
