/-
  ObjStr.S3.Retries — `complete_multipart_upload` from its request to its answer, and what a failure leaves to try again with.

  The upload is taken out of the registry before anything is checked. If the backend fails the write, it is registered again;
  on every other way out it is dropped, and its destructor removes the files of its parts.
  - `failed_complete_is_retriable_iff`: a complete that fails leaves the upload, its files and what is stored at the key if and
    only if the request has no body, or it can be assembled and the write of the backend spares the key.
  - `StillThere.assemble_eq`: then the same request assembles the same object again.
  - `an_unknown_part_drops_the_upload`: a request that names a part too many.
-/

import ObjStr.S3.Backend
import ObjStr.S3.PartFiles
import ObjStr.Sharded.TlvRoundtrip

namespace ObjStr.S3.Temp

open ObjStr.Lib ObjStr.Raw ObjStr.Sharded

/-! ## The handler -/

/-- How files and the backend answer while a complete runs. -/
structure CompleteIo where
  now : DateTime
  /-- No file operation fails while the parts are joined. -/
  temp : Bool
  /-- How the joined file is read back. -/
  file : FileIo
  unlink : TempPath → Bool
  /-- There is an object at the key of an upload that is not registered. -/
  head : Bool

section Complete

variable [Crates]

def Server.completeMultipartUpload (s : Server) (b : StoreBackend) (io : CompleteIo) (req : CompleteRequest) :
    Except S3Error Unit × Server × StoreBackend :=
  match s.beginComplete req io.head with
  | (.answered r, s) => (r, s, b)
  | (.taken u listed, s) =>
    match u.assemble s.files s.md5 io.temp listed with
    | .error e => (.error e, s.removeFiles io.unlink u.tempPaths, b)
    | .ok o =>
      match b.putWithMetaFromFile io.now io.file (objKey req.bucket req.key) o.file o.metaLen with
      | (stored, b) =>
        match s.finishComplete io.unlink req.uploadId u stored with
        | (r, s) => (r, s, b)

/-- The upload is registered, and its files are what they were. -/
structure StillThere (s s' : Server) (uploadId : UploadId) (u : Upload) : Prop where
  registered : s'.uploads.lookup uploadId = some u
  files : ∀ p ∈ u.tempPaths, s'.files.lookup p = s.files.lookup p

/-- If the request fails, its upload is still there, and the object at the key is unchanged. -/
def Retriable (s : Server) (b : StoreBackend) (io : CompleteIo) (req : CompleteRequest) (u : Upload) : Prop :=
  ∀ e, (s.completeMultipartUpload b io req).1 = .error e →
    StillThere s (s.completeMultipartUpload b io req).2.1 req.uploadId u ∧
      b.Unchanged (objKey req.bucket req.key) (s.completeMultipartUpload b io req).2.2

end Complete

/-! ## Assembling -/

def Upload.content (u : Upload) (files : FMap Bytes) (listed : List (Option Int)) : Bytes :=
  listed.flatMap fun n => ((n.bind fun number => u.parts.lookup number).bind fun part => files.lookup part.tempPath).getD []

def Upload.HasParts (u : Upload) (files : FMap Bytes) (listed : List (Option Int)) : Prop :=
  ∀ n ∈ listed, ∃ number part content,
    n = some number ∧ u.parts.lookup number = some part ∧ files.lookup part.tempPath = some content

/-- The request lists parts, all of them are there, no file operation fails, and the metadata can be encoded: this is what is
    then handed to the backend. -/
structure Upload.Assembles (u : Upload) (files : FMap Bytes) (md5 : Bytes → String) (temp : Bool) (listed : List (Option Int))
    (o : Assembly) : Prop where
  listed_ne : listed ≠ []
  temp : temp = true
  parts : u.HasParts files listed
  encodes : ∃ metaBytes, Tlv.encodeMetadata (u.metadata.insert "etag" (md5 (u.content files listed))) = .ok metaBytes ∧
    o = ⟨u.content files listed ++ metaBytes, UInt16.ofNat metaBytes.length, md5 (u.content files listed)⟩

variable {u : Upload} {files : FMap Bytes} {md5 : Bytes → String} {temp : Bool} {listed : List (Option Int)} {o : Assembly}

theorem Upload.joined_of_hasParts (h : u.HasParts files listed) : u.joined files listed = .ok (u.content files listed) := by
  induction listed with
  | nil => rfl
  | cons n rest ih =>
    obtain ⟨number, part, content, rfl, hpart, hfile⟩ := h n List.mem_cons_self
    have hrest := ih fun m hm => h m (List.mem_cons_of_mem _ hm)
    unfold joined
    simp only [hpart, hfile, hrest]
    simp [Upload.content, hpart, hfile, Except.map]

theorem Upload.hasParts_of_joined {body : Bytes} (h : u.joined files listed = .ok body) : u.HasParts files listed := by
  induction listed generalizing body with
  | nil => exact fun n hn => nomatch hn
  | cons n rest ih =>
    cases n with
    | none => cases h
    | some number =>
      unfold joined at h
      cases hpart : u.parts.lookup number with
      | none => simp only [hpart, reduceCtorEq] at h
      | some part =>
        cases hfile : files.lookup part.tempPath with
        | none => simp only [hpart, hfile, reduceCtorEq] at h
        | some content =>
          simp only [hpart, hfile] at h
          cases hrest : u.joined files rest with
          | error e => simp only [hrest, Except.map, reduceCtorEq] at h
          | ok body' =>
            intro m hm
            rcases List.mem_cons.mp hm with rfl | hm
            · exact ⟨number, part, content, rfl, hpart, hfile⟩
            · exact ih hrest m hm

theorem Upload.assemble_eq_ok_iff : u.assemble files md5 temp listed = .ok o ↔ u.Assembles files md5 temp listed o := by
  unfold assemble
  constructor
  · intro h
    split at h
    · cases h
    next hne =>
    split at h
    · next htemp =>
      cases hjoined : u.joined files listed with
      | error e =>
        rw [hjoined] at h
        cases h
      | ok body =>
        have hparts := hasParts_of_joined hjoined
        obtain rfl := Except.ok.inj ((joined_of_hasParts hparts).symm.trans hjoined)
        rw [hjoined] at h
        dsimp only [bind, Except.bind] at h
        split at h
        · next metaBytes hencode => exact ⟨hne, htemp, hparts, metaBytes, hencode, (Except.ok.inj h).symm⟩
        · cases h
    · cases h
  · intro h
    obtain ⟨hne, htemp, hparts, metaBytes, hencode, rfl⟩ := h
    rw [if_neg hne, if_pos htemp, joined_of_hasParts hparts]
    dsimp only [bind, Except.bind]
    rw [hencode]
    rfl

/-! ## Trying again -/

theorem StillThere.refl {s : Server} {uploadId : UploadId} (h : s.uploads.lookup uploadId = some u) : StillThere s s uploadId u :=
  ⟨h, fun _ _ => rfl⟩

/-- What is assembled depends on the files of the parts alone. -/
theorem Upload.joined_congr {files' : FMap Bytes} (h : ∀ p ∈ u.tempPaths, files'.lookup p = files.lookup p) :
    u.joined files' listed = u.joined files listed := by
  induction listed with
  | nil => rfl
  | cons n rest ih =>
    cases n with
    | none => rfl
    | some number =>
      unfold joined
      cases hpart : u.parts.lookup number with
      | none => rfl
      | some part =>
        have hmem : part.tempPath ∈ u.tempPaths := List.mem_map.mpr ⟨⟨number, part⟩, AList.mem_lookup_iff.mp hpart, rfl⟩
        simp only [h _ hmem, ih]

/-- The same request finds the same upload, and assembles the same object. -/
theorem StillThere.assemble_eq {s s' : Server} {uploadId : UploadId} (h : StillThere s s' uploadId u) (md5 : Bytes → String)
    (temp : Bool) (listed : List (Option Int)) :
    s'.uploads.lookup uploadId = some u ∧
      u.assemble s'.files md5 temp listed = u.assemble s.files md5 temp listed := by
  refine ⟨h.registered, ?_⟩
  unfold Upload.assemble
  rw [Upload.joined_congr h.files]

section Complete

variable [Crates] {s : Server} {b : StoreBackend} {io : CompleteIo} {req : CompleteRequest}

/-- A complete that fails with what it needs to be tried again: without a body, or in the write of the backend, if that spares
    the object at the key. -/
def SafeToFail (s : Server) (b : StoreBackend) (io : CompleteIo) (req : CompleteRequest) (u : Upload) : Prop :=
  ∀ listed, req.multipartUpload = some listed →
    ∃ o, u.Assembles s.files s.md5 io.temp listed o ∧ b.Spares io.file (objKey req.bucket req.key) o.file o.metaLen

omit [Crates] in
theorem Upload.Assembles.metaLen_le (h : u.Assembles files md5 temp listed o) : o.metaLen.toNat ≤ o.file.length := by
  obtain ⟨-, -, -, metaBytes, -, rfl⟩ := h
  have hmod : (UInt16.ofNat metaBytes.length).toNat = metaBytes.length % 2 ^ 16 := UInt16.toNat_ofNat'
  have hle := Nat.mod_le metaBytes.length (2 ^ 16)
  simp only [hmod, List.length_append]
  omega

omit [Crates] in
/-- An upload that is registered again under its id. -/
theorem stillThere_register (unlink : TempPath → Bool) (uploadId : UploadId) :
    StillThere s (Server.register { s with uploads := s.uploads.erase uploadId } unlink uploadId u) uploadId u := by
  refine ⟨AList.lookup_insert _, fun p _ => ?_⟩
  have hnone : ({ s with uploads := s.uploads.erase uploadId } : Server).uploads.lookup uploadId = none := AList.lookup_erase _ _
  unfold Server.register
  rw [hnone]
  show (s.files.filterKeys _).lookup p = _
  rw [FMap.lookup_filterKeys]
  simp

/-- A complete that fails leaves its upload with its files, and the object at the key, if and only if it is safe to fail. -/
theorem failed_complete_is_retriable_iff (hb : b.Valid) (hu : s.uploads.lookup req.uploadId = some u) :
    Retriable s b io req u ↔ SafeToFail s b io req u := by
  unfold Retriable SafeToFail Server.completeMultipartUpload Server.beginComplete
  cases hreq : req.multipartUpload with
  | none =>
    refine iff_of_true (fun _ _ => ⟨.refl hu, .refl _ b⟩) fun _ h => ?_
    cases h
  | some listed =>
    simp only [hu, Option.some.injEq, forall_eq']
    cases hassemble : u.assemble s.files s.md5 io.temp listed with
    | error e =>
      refine iff_of_false (fun h => ?_) fun h => ?_
      · have hgone : (s.uploads.erase req.uploadId).lookup req.uploadId = some u := (h e rfl).1.registered
        rw [AList.lookup_erase] at hgone
        cases hgone
      · obtain ⟨o, ho, -⟩ := h
        rw [Upload.assemble_eq_ok_iff.mpr ho] at hassemble
        cases hassemble
    | ok o =>
      have ho := Upload.assemble_eq_ok_iff.mp hassemble
      have hspares := StoreBackend.unchanged_of_failed_iff hb io.now io.file (objKey req.bucket req.key) ho.metaLen_le
      have honly : (∃ o', u.Assembles s.files s.md5 io.temp listed o' ∧
          b.Spares io.file (objKey req.bucket req.key) o'.file o'.metaLen) ↔
          b.Spares io.file (objKey req.bucket req.key) o.file o.metaLen := by
        constructor
        · intro ⟨o', ho', hspared⟩
          obtain rfl := Except.ok.inj (hassemble.symm.trans (Upload.assemble_eq_ok_iff.mpr ho'))
          exact hspared
        · exact fun hspared => ⟨o, ho, hspared⟩
      rw [honly, ← hspares]
      dsimp only
      cases hstored : (b.putWithMetaFromFile io.now io.file (objKey req.bucket req.key) o.file o.metaLen).1 with
      | true => exact iff_of_true (fun e he => nomatch he) fun h => nomatch h
      | false =>
        constructor
        · exact fun h _ => (h _ rfl).2
        · exact fun h e _ => ⟨stillThere_register io.unlink req.uploadId, h rfl⟩

end Complete

/-! ### A part too many -/

section Sample

open Raw.Sample Sharded.Sample

def onePart : Upload := ⟨"b", "k", ∅, (∅ : AList fun _ : Int => PartMeta).insert 1 ⟨1, "d41d8cd98f00b204e9800998ecf8427e", "t1"⟩, 0⟩

def oneUpload : Server := { smallServer with
  uploads := (∅ : FMap Upload).insert "u" onePart
  files := (∅ : FMap Bytes).insert "t1" [1] }

/-- Two raw shards that both have an object; their stores fail the next put or not. -/
def twoShards (fails : List (Option StoreError)) : StoreBackend :=
  .sharded (raws 2) ⟨fun _ => Store.failing (Store.holding fresh "b/k" [0]) .put fails,
    { cluster 2 (config 2 1) with catalog := ⟨(∅ : FMap PlacementEntry).insert "b/k" ⟨[0, 1], 1, none, 0, 0⟩, false⟩ }, []⟩

theorem twoShards_valid (fails : List (Option StoreError)) : (twoShards fails).Valid := ⟨raws_match.raw, raws_match.only⟩

def readWhole : FileIo where
  read file := ⟨file.length, [file], false, fun _ => by simp⟩
  len _ := rfl
  whole file _ := by simp

def calmly : CompleteIo := ⟨0, true, readWhole, fun _ => true, false⟩

theorem onePart_assembles : ∃ o, onePart.Assembles oneUpload.files oneUpload.md5 true [some 1] o := by
  have hencodes : ∃ metaBytes, Tlv.encodeMetadata (onePart.metadata.insert "etag"
      (oneUpload.md5 (onePart.content oneUpload.files [some 1]))) = .ok metaBytes := by
    refine (Tlv.encodes_iff _).mpr fun k v hv => ?_
    by_cases hk : k = "etag"
    · subst hk
      rw [AList.lookup_insert] at hv
      obtain rfl := Option.some.inj hv
      exact ⟨_, rfl⟩
    · rw [AList.lookup_insert_ne hk] at hv
      cases hv
  obtain ⟨metaBytes, hmeta⟩ := hencodes
  refine ⟨_, by simp, rfl, fun n hn => ?_, metaBytes, hmeta, rfl⟩
  obtain rfl := List.mem_singleton.mp hn
  exact ⟨1, _, [1], rfl, rfl, rfl⟩

/-- The shards fail the write of an upload that can be assembled. -/
theorem a_failed_write_is_retriable :
    Retriable oneUpload (twoShards [broken]) calmly ⟨"b", "k", "u", some [some 1]⟩ onePart := by
  refine (failed_complete_is_retriable_iff (twoShards_valid _) rfl).mpr fun listed hlisted => ?_
  obtain rfl := Option.some.inj hlisted
  obtain ⟨o, ho⟩ := onePart_assembles
  refine ⟨o, ho, .inr (.inr fun x _ st _ => ?_)⟩
  rw [if_neg fun h => by cases h.1]
  exact .inl fun h => by cases h

/-- Part 2 was never sent: the upload is dropped with part 1. -/
theorem an_unknown_part_drops_the_upload :
    ¬ ∀ (s : Server) (b : StoreBackend) (io : CompleteIo) (req : CompleteRequest) (u : Upload),
      b.Valid → s.uploads.lookup req.uploadId = some u → Retriable s b io req u := by
  intro h
  have hkept := h oneUpload (twoShards []) calmly ⟨"b", "k", "u", some [some 1, some 2]⟩ onePart
    (twoShards_valid _) rfl (.invalidPart "") rfl
  have hgone : (none : Option Upload) = some onePart := hkept.1.registered
  cases hgone

end Sample

end ObjStr.S3.Temp
