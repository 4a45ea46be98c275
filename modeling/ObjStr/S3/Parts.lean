/-
  ObjStr.S3.Parts — multipart uploads of the S3 adapter, with the temp files of their parts (`objstrd/src/adapter.rs`).

  A part is written to a temp file that no longer removes itself; its upload owns the file, and removes it when it is dropped
  (`Drop for Upload`). The requests are cut into the stretches between which others run:
  - `upload_part` and `upload_part_copy` create the file (`beginPart`, `beginCopy`), write what they read (`readChunk`), and
    register the part (`finishPart`);
  - `complete_multipart_upload` takes the upload out of the registry (`beginComplete`), joins the listed parts in one file with
    the metadata behind them (`Upload.assemble`), and has the backend store it; if that fails, the upload is registered again.

  The error of a `remove_file` is not looked at: `unlink` says of which files the removal succeeds. `Uploads` has the same requests
  without the files, and `PartContents` relates the two.
-/

import ObjStr.S3.Uploads

namespace ObjStr.S3.Temp

open ObjStr.Lib ObjStr.Raw ObjStr.Sharded

/-! ## Parts and uploads -/

abbrev TempPath := String

structure PartMeta where
  size : Nat
  etag : String
  tempPath : TempPath

structure Upload where
  bucket : Key
  key : Key
  metadata : FMap String
  parts : AList fun _ : Int => PartMeta
  createdAt : Nat

def Upload.tempPaths (u : Upload) : List TempPath := u.parts.entries.map fun e => e.2.tempPath

inductive PartError where
  | s3 (e : S3Error)
  | invalidRange (message : String)
  | notImplemented (message : String)
  deriving DecidableEq, Repr

structure Server where
  buckets : List Key
  uploads : FMap Upload
  /-- The part files, by their paths. -/
  files : FMap Bytes
  uploadExpiry : Nat
  maxBodySize : Nat
  md5 : Bytes → String

namespace Server

variable (s : Server) (unlink : TempPath → Bool)

def isStale (now : Nat) (u : Upload) : Bool := decide (s.uploadExpiry < now - u.createdAt)

/-- `remove_file` of each of the paths. -/
def removeFiles (paths : List TempPath) : Server :=
  { s with files := s.files.filterKeys fun p => !(decide (p ∈ paths) && unlink p) }

/-- `uploads.insert`; the upload that had the id is dropped. -/
def register (uploadId : UploadId) (u : Upload) : Server :=
  let replaced := ((s.uploads.lookup uploadId).map Upload.tempPaths).getD []
  { s with uploads := s.uploads.insert uploadId u }.removeFiles unlink replaced

def createMultipartUpload (now : Nat) (uploadId : UploadId) (bucket key : Key) (metadata : FMap String) :
    Except S3Error Unit × Server :=
  if bucket ∈ s.buckets then
    let stale := s.uploads.filterValues (s.isStale now)
    let live := s.uploads.filterValues fun u => !s.isStale now u
    let s := { s with uploads := live }.removeFiles unlink (stale.values.flatMap Upload.tempPaths)
    if maxConcurrentUploads ≤ live.entries.length then (.error .slowDown, s)
    else (.ok (), s.register unlink uploadId ⟨bucket, key, metadata, ∅, now⟩)
  else (.error .noSuchBucket, s)

def abortMultipartUpload (uploadId : UploadId) : Except S3Error Unit × Server :=
  match s.uploads.lookup uploadId with
  | none => (.error .noSuchUpload, s)
  | some u => (.ok (), { s with uploads := s.uploads.erase uploadId }.removeFiles unlink u.tempPaths)

/-- `NamedTempFile::new` and `keep`: a path at which there is no file, or an error. -/
def newTemp (path : Option TempPath) : Except S3Error TempPath × Server :=
  match path with
  | some p => if p ∈ s.files then (.error .internalError, s) else (.ok p, { s with files := s.files.insert p [] })
  | none => (.error .internalError, s)

end Server

/-! ## Uploading a part -/

/-- An `upload_part`, or an `upload_part_copy`, that has its temp file. -/
structure Spool where
  copies : Bool
  uploadId : UploadId
  partNumber : Int
  tempPath : TempPath
  /-- What `md5_ctx` has consumed, and `size` counted. -/
  consumed : Bytes
  /-- There is a stream to read from. -/
  reading : Bool

def checkPartNumber (partNumber : Int) : Except S3Error Unit :=
  if partNumber < 1 ∨ 10000 < partNumber then .error (.invalidArgument "part number must be between 1 and 10000") else .ok ()

def Server.beginPart (s : Server) (uploadId : UploadId) (partNumber : Int) (temp : Option TempPath) :
    Except PartError Spool × Server :=
  match checkPartNumber partNumber with
  | .error e => (.error (.s3 e), s)
  | .ok () =>
    match s.newTemp temp with
    | (.error e, s) => (.error (.s3 e), s)
    | (.ok p, s) => (.ok ⟨false, uploadId, partNumber, p, [], true⟩, s)

/-! ## Copying a part -/

inductive CopySource where
  | bucket (bucket key : Key)
  | accessPoint

structure CopyPartRequest where
  source : CopySource
  uploadId : UploadId
  partNumber : Int
  range : Option String

/-- How the backend fails to read. -/
inductive ReadError where
  | notFound
  | other

def ReadError.toS3 : ReadError → S3Error
  | .notFound => .noSuchKey
  | .other => .internalError

/-- What `str::trim` takes off. -/
def isWhiteSpace (c : Char) : Bool :=
  let n := c.toNat
  (9 ≤ n && n ≤ 13) || n == 0x20 || n == 0x85 || n == 0xa0 || n == 0x1680 || (0x2000 ≤ n && n ≤ 0x200a) || n == 0x2028 ||
    n == 0x2029 || n == 0x202f || n == 0x205f || n == 0x3000

def trim (l : List Char) : List Char := ((l.dropWhile isWhiteSpace).reverse.dropWhile isWhiteSpace).reverse

def splitOnce (sep : Char) (l : List Char) : Option (List Char × List Char) :=
  if sep ∈ l then some (l.takeWhile (· ≠ sep), (l.dropWhile (· ≠ sep)).tail) else none

/-- `parse::<u64>` of digits. -/
def parseU64 (l : List Char) : Option Nat :=
  let n := l.foldl (fun n c => 10 * n + (c.toNat - 48)) 0
  if l ≠ [] ∧ n < 2 ^ 64 then some n else none

/-- `bytes=start-end`, within a body of this size: the first byte, and the one behind the last. -/
def copyRange (range : String) (bodySize : Nat) : Except PartError (Nat × Nat) :=
  let malformed : PartError := .s3 (.invalidArgument "Invalid CopySourceRange format")
  match ("bytes=".toList.isPrefixOf? (trim range.toList)).bind (splitOnce '-') with
  | none => .error malformed
  | some (first, last) =>
    if first.any (fun c => !c.isDigit) || last.any (fun c => !c.isDigit) then .error malformed
    else
      match parseU64 first, parseU64 last with
      | some start, some stop =>
        if stop < start then .error (.invalidRange "CopySourceRange start > end")
        else if bodySize ≤ start ∨ bodySize ≤ stop then .error (.invalidRange "CopySourceRange out of bounds")
        else .ok (start, stop + 1)
      | _, _ => .error (.s3 (.invalidArgument "Invalid CopySourceRange"))

/-- The bytes that are copied, of an object that `head_with_meta` found to have a body of this size. -/
def CopyPartRequest.bytes (req : CopyPartRequest) (maxBodySize : Nat) (head : Except ReadError Nat) :
    Except PartError (Nat × Nat) := do
  match checkPartNumber req.partNumber with
  | .error e => throw (.s3 e)
  | .ok () => pure ()
  match req.source with
  | .accessPoint => throw (.notImplemented "AccessPoint CopySource not supported")
  | .bucket _ _ => pure ()
  let bodySize ← head.mapError fun e => .s3 e.toS3
  let (start, stop) ←
    match req.range with
    | some range => copyRange range bodySize
    | none => pure (0, bodySize)
  if 0 < maxBodySize ∧ maxBodySize < stop - start then throw (.s3 (.entityTooLarge "Copy source size exceeds server limit"))
  pure (start, stop)

def Server.beginCopy (s : Server) (req : CopyPartRequest) (head : Except ReadError Nat) (temp : Option TempPath) :
    Except PartError (Spool × (Nat × Nat)) × Server :=
  match req.bytes s.maxBodySize head with
  | .error e => (.error e, s)
  | .ok range =>
    match s.newTemp temp with
    | (.error e, s) => (.error (.s3 e), s)
    | (.ok p, s) => (.ok (⟨true, req.uploadId, req.partNumber, p, [], false⟩, range), s)

/-! ## Writing a part -/

/-- Write behind what is in the file; a file that has been removed is written to no more. -/
def Server.append (s : Server) (path : TempPath) (data : Bytes) : Server :=
  match s.files.lookup path with
  | some old => { s with files := s.files.insert path (old ++ data) }
  | none => s

/-- A chunk of the stream, or its error. Only `upload_part` counts against the limit. -/
def Server.readChunk (s : Server) (t : Spool) (chunk : Option Bytes) (written : Bool) : Except S3Error Spool × Server :=
  match chunk with
  | none => (.error .internalError, s)
  | some data =>
    let t := { t with consumed := t.consumed ++ data }
    if !t.copies ∧ 0 < s.maxBodySize ∧ s.maxBodySize < t.consumed.length then
      (.error (.entityTooLarge "Part size exceeds server limit"), s)
    else if written then (.ok t, s.append t.tempPath data)
    else (.error .internalError, s)

/-- At the end of the stream the part is registered, with its MD5. -/
def Server.finishPart (s : Server) (t : Spool) (flushed : Bool) : Except S3Error String × Server :=
  if flushed then
    match s.uploads.lookup t.uploadId with
    | none => (.error .noSuchUpload, s)
    | some u =>
      let part : PartMeta := ⟨t.consumed.length, s.md5 t.consumed, t.tempPath⟩
      (.ok part.etag, { s with uploads := s.uploads.insert t.uploadId { u with parts := u.parts.insert t.partNumber part } })
  else (.error .internalError, s)

/-- `upload_part` removes its file if it fails; `upload_part_copy` does not. -/
def Server.failPart (s : Server) (unlink : TempPath → Bool) (t : Spool) : Server :=
  if t.copies then s else s.removeFiles unlink [t.tempPath]

/-! ## Completing an upload -/

/-- The file that the backend is given: the body, and then the metadata. -/
structure Assembly where
  file : Bytes
  metaLen : UInt16
  etag : String

def Upload.joined (u : Upload) (files : FMap Bytes) : List (Option Int) → Except S3Error Bytes
  | [] => .ok []
  | none :: _ => .error (.invalidRequest "missing part number")
  | some n :: rest =>
    match u.parts.lookup n with
    | none => .error (.invalidPart "")
    | some part =>
      match files.lookup part.tempPath with
      | none => .error .internalError
      | some content => (u.joined files rest).map (content ++ ·)

/-- `io` is false if a file cannot be created, read or written on the way. -/
def Upload.assemble (u : Upload) (files : FMap Bytes) (md5 : Bytes → String) (io : Bool) (listed : List (Option Int)) :
    Except S3Error Assembly :=
  if listed = [] then .error (.invalidPart "multipart upload must contain at least one part")
  else if io then do
    let body ← u.joined files listed
    let etag := md5 body
    match Tlv.encodeMetadata (u.metadata.insert "etag" etag) with
    | .ok metaBytes => pure ⟨body ++ metaBytes, UInt16.ofNat metaBytes.length, etag⟩
    | .error _ => throw (.invalidArgument "")
  else .error .internalError

structure CompleteRequest where
  bucket : Key
  key : Key
  uploadId : UploadId
  /-- `multipart_upload.parts`, if the request has a body. -/
  multipartUpload : Option (List (Option Int))

inductive Begun where
  | answered (r : Except S3Error Unit)
  | taken (u : Upload) (listed : List (Option Int))

/-- The registry gives the upload away; for an id that it does not have, `head` says if there is an object at the key. -/
def Server.beginComplete (s : Server) (req : CompleteRequest) (head : Bool) : Begun × Server :=
  match req.multipartUpload with
  | none => (.answered (.error (.invalidRequest "missing multipart upload body")), s)
  | some listed =>
    match s.uploads.lookup req.uploadId with
    | none => (.answered (if head then .ok () else .error .noSuchUpload), s)
    | some u => (.taken u listed, { s with uploads := s.uploads.erase req.uploadId })

/-- The backend has stored the object, and the upload is dropped, or it has failed, and the upload is registered again. -/
def Server.finishComplete (s : Server) (unlink : TempPath → Bool) (uploadId : UploadId) (u : Upload) (stored : Bool) :
    Except S3Error Unit × Server :=
  if stored then (.ok (), s.removeFiles unlink u.tempPaths)
  else (.error .internalError, s.register unlink uploadId u)

end ObjStr.S3.Temp
