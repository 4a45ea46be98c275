/-
  ObjStr.S3.GetObject — `get_object` of the S3 adapter (`objstrd/src/adapter.rs`).

  A request is refused for its key and bucket, for an object that is not there, for a range that begins behind the body, or
  for its conditions; then the range is computed in `u64` arithmetic and read. A build with overflow checks unwinds where an
  addition or a subtraction does not fit, one without them wraps.
  - `range_is_served_iff`: every build answers a range with its bytes, or with `InvalidRange`, if and only if the range is
    not one of those that the check at the front leaves out (`Range.Safe`).
  - `a_suffix_of_nothing_unwinds`: the last byte of an empty object.
-/

import ObjStr.Raw.Ranges
import ObjStr.S3.Keys
import ObjStr.Sharded.Tlv

namespace ObjStr.S3

open ObjStr.Lib ObjStr.Raw ObjStr.Sharded

/-! ## Requests -/

inductive Range where
  | int (first : UInt64) (last : Option UInt64)
  | suffix (length : UInt64)
  deriving DecidableEq, Repr

inductive ETag where
  | strong (value : String)
  | weak (value : String)
  deriving DecidableEq, Repr

def ETag.quoted : ETag → String
  | .strong value => "\"" ++ value ++ "\""
  | .weak value => "W/\"" ++ value ++ "\""

inductive ETagCondition where
  | any
  | eTag (tag : ETag)

def ETagCondition.matches (c : ETagCondition) (tag : ETag) : Bool :=
  match c with
  | .any => true
  | .eTag wanted => wanted = tag

structure GetRequest where
  bucket : Key
  key : Key
  range : Option Range := none
  ifModifiedSince : Option DateTime := none
  ifUnmodifiedSince : Option DateTime := none
  ifMatch : Option ETagCondition := none
  ifNoneMatch : Option ETagCondition := none

structure GetOutput where
  body : Bytes
  contentLength : Int
  contentRange : Option String
  contentType : Option String
  cacheControl : Option String
  contentEncoding : Option String
  contentDisposition : Option String
  contentLanguage : Option String
  lastModified : DateTime
  eTag : ETag
  acceptRanges : String
  /-- The `x-amz-meta-` headers of the response; the output itself has no user metadata. -/
  headers : FMap Bytes

inductive GetError where
  | s3 (e : S3Error)
  | invalidRange
  /-- With the `ETag` header, if there is one. -/
  | notModified (eTag : Option String)
  | preconditionFailed
  /-- An addition or a subtraction does not fit: the request unwinds. -/
  | panic

/-! ## The backend -/

/-- What the index has of an object: the size of the body, and its time. -/
structure ObjectHead where
  size : UInt64
  lastModified : DateTime

structure ObjectReads where
  head : Key → Except RawStoreError ObjectHead
  metadata : Key → Except RawStoreError Bytes
  /-- `get_opts` with a bounded range. -/
  range : Key → Nat → Nat → Except RawStoreError Bytes
  /-- `get_opts`, read to the end. -/
  body : Key → Except RawStoreError Bytes

def ObjectReads.raw [Crates] (s : Raw.Store) : ObjectReads where
  head path := ((Raw.headWithMeta path).exec s).1.map fun r =>
    ⟨UInt64.ofNat r.1, ((s.files.lookup path).map ExtentInfo.lastModified).getD 0⟩
  metadata path := ((Raw.getMetadata path).exec s).1
  range path start stop := ((getRanged path (.bounded start stop)).exec s).1.map (·.1)
  body path := ((getFull path).exec s).1

/-! ## Headers -/

/-- What the `http` crate takes for a header: `HeaderValue::from_str`, `HeaderName::from_bytes` with the name it makes of the
    bytes, and `HeaderValue::from_bytes`. -/
structure Http where
  isHeaderValue : String → Bool
  headerName : Key → Option Key
  isHeaderBytes : Bytes → Bool

/-- The metadata of the user, without the prefix of its names. -/
def extractUserMetadata (metadata : FMap String) : Option (List (Key × String)) :=
  let user := metadata.entries.filterMap fun e => (stripPrefix e.1 Tlv.customPrefix).map fun name => (name, e.2)
  if user = [] then none else some user

/-- Each character as one byte; a value with one behind U+00FF has none. -/
def latin1 (val : String) : Option Bytes :=
  if val.toList.any fun c => 0xFF < c.toNat then none else some (val.toList.map fun c => UInt8.ofNat c.toNat)

/-- A name or a value that is none of a header is skipped. -/
def addUserMetaHeader (http : Http) (headers : FMap Bytes) (e : Key × String) : FMap Bytes :=
  match http.headerName (Tlv.customPrefix ++ e.1), latin1 e.2 with
  | some name, some value => if http.isHeaderBytes value then headers.insert name value else headers
  | _, _ => headers

def addUserMetaHeaders (http : Http) (headers : FMap Bytes) (userMetadata : Option (List (Key × String))) : FMap Bytes :=
  (userMetadata.getD []).foldl (addUserMetaHeader http) headers

structure IsUserHeader (http : Http) (metadata : FMap String) (name : Key) (value : Bytes) : Prop where
  stored : ∃ attr val, ⟨Tlv.customPrefix ++ attr, val⟩ ∈ metadata.entries ∧
    http.headerName (Tlv.customPrefix ++ attr) = some name ∧ latin1 val = some value
  valid : http.isHeaderBytes value = true

/-- Every header that is sent for the metadata of the user is that of a stored attribute, under the name it is stored by. -/
theorem user_headers_are_stored {http : Http} {metadata : FMap String} {name : Key} {value : Bytes}
    (h : (addUserMetaHeaders http ∅ (extractUserMetadata metadata)).lookup name = some value) :
    IsUserHeader http metadata name value := by
  have hstored : ∀ e ∈ (extractUserMetadata metadata).getD [], ⟨Tlv.customPrefix ++ e.1, e.2⟩ ∈ metadata.entries := by
    intro e he
    unfold extractUserMetadata at he
    dsimp only at he
    split at he
    · cases he
    · obtain ⟨a, ha, hname⟩ := List.mem_filterMap.mp he
      obtain ⟨attr, hattr, rfl⟩ := Option.map_eq_some_iff.mp hname
      obtain ⟨key, val⟩ := a
      obtain rfl : key = Tlv.customPrefix ++ attr := stripPrefix_eq_some.mp hattr
      exact ha
  unfold addUserMetaHeaders at h
  generalize (extractUserMetadata metadata).getD [] = user at h hstored
  have hempty : ∀ name value, (∅ : FMap Bytes).lookup name = some value → IsUserHeader http metadata name value := by
    intro name value he
    rw [AList.lookup_empty] at he
    cases he
  generalize (∅ : FMap Bytes) = headers at h hempty
  induction user generalizing headers with
  | nil => exact hempty name value h
  | cons e rest ih =>
    refine ih (fun e' he' => hstored e' (List.mem_cons_of_mem _ he')) (addUserMetaHeader http headers e) h ?_
    intro name' value' hlookup
    unfold addUserMetaHeader at hlookup
    split at hlookup
    · rename_i sent bytes hsent hbytes
      split at hlookup
      · rename_i hvalid
        by_cases hname : name' = sent
        · subst hname
          rw [AList.lookup_insert] at hlookup
          cases hlookup
          exact ⟨⟨e.1, e.2, hstored e List.mem_cons_self, hsent, hbytes⟩, hvalid⟩
        · rw [AList.lookup_insert_ne hname] at hlookup
          exact hempty name' value' hlookup
      · exact hempty name' value' hlookup
    · exact hempty name' value' hlookup

/-! ## Arithmetic -/

/-- `a + b`. -/
def addU64 (checks : Bool) (a b : Nat) : Except GetError Nat :=
  if a + b ≤ u64Max then .ok (a + b) else if checks then .error .panic else .ok (a + b - (u64Max + 1))

/-- `a - b`. -/
def subU64 (checks : Bool) (a b : Nat) : Except GetError Nat :=
  if b ≤ a then .ok (a - b) else if checks then .error .panic else .ok (a + (u64Max + 1) - b)

/-- `as i64`. -/
def toI64 (n : Nat) : Int := if n < 9223372036854775808 then n else n - 18446744073709551616

def rangeText (start last size : Nat) : String := "bytes " ++ toString start ++ "-" ++ toString last ++ "/" ++ toString size

def Range.bounds (checks : Bool) (size : Nat) : Range → Except GetError (Nat × Nat)
  | .int first none => .ok (first.toNat, size)
  | .int first (some last) => do
    let stop ← addU64 checks last.toNat 1
    pure (first.toNat, min stop size)
  | .suffix length => do
    let start ← subU64 checks size (min length.toNat size)
    pure (start, size)

/-- What is to be read, how long it is said to be, and the `Content-Range`. -/
def computeRange (checks : Bool) (size : Nat) : Option Range → Except GetError (Nat × Nat × Int × Option String)
  | none => .ok (0, size, toI64 size, none)
  | some range => do
    let (start, stop) ← range.bounds checks size
    let last ← subU64 checks stop 1
    let length ← subU64 checks stop start
    pure (start, stop, toI64 length, some (rangeText start last size))

/-! ## The handler -/

/-- The object's metadata; none if there is none. -/
def readMeta (r : Except RawStoreError Bytes) : Except GetError (FMap String) :=
  match r with
  | .ok data => .ok (if data = [] then ∅ else Tlv.decodeMetadata data)
  | .error (.notFound _) => .ok ∅
  | .error _ => .error (.s3 .internalError)

def checkRange (size : Nat) : Option Range → Except GetError Unit
  | some (.int first _) => if size ≤ first.toNat then .error .invalidRange else .ok ()
  | _ => .ok ()

/-- The tag of an object without one is that of an empty body. -/
def eTagOf (metadata : FMap String) : ETag := .strong ((metadata.lookup "etag").getD "d41d8cd98f00b204e9800998ecf8427e")

/-- The conditions of a request; times are compared in whole seconds. -/
def checkConditions (http : Http) (req : GetRequest) (mtime : DateTime) (metadata : FMap String) :
    Except GetError Unit := do
  let seconds := mtime / 1000000000 * 1000000000
  if req.ifModifiedSince.any fun since => seconds ≤ since then
    throw (.notModified (((metadata.lookup "etag").map fun value => (ETag.strong value).quoted).filter fun value => http.isHeaderValue value))
  if req.ifUnmodifiedSince.any fun since => since < seconds then throw .preconditionFailed
  if req.ifMatch.any fun c => !c.matches (eTagOf metadata) then throw .preconditionFailed
  if req.ifNoneMatch.any fun c => c.matches (eTagOf metadata) then
    throw (.notModified ((some (eTagOf metadata).quoted).filter fun value => http.isHeaderValue value))

def getOutput (http : Http) (head : ObjectHead) (metadata : FMap String) (body : Bytes) (contentLength : Int)
    (contentRange : Option String) : GetOutput where
  body := body
  contentLength := contentLength
  contentRange := contentRange
  contentType := metadata.lookup "content-type"
  cacheControl := metadata.lookup "cache-control"
  contentEncoding := metadata.lookup "content-encoding"
  contentDisposition := metadata.lookup "content-disposition"
  contentLanguage := metadata.lookup "content-language"
  lastModified := head.lastModified
  eTag := eTagOf metadata
  acceptRanges := "bytes"
  headers := addUserMetaHeaders http ∅ (extractUserMetadata metadata)

/-- The bytes of the answer: those of the range, or the whole body. -/
def readBody (b : ObjectReads) (path : Key) (start stop : Nat) (isRange : Bool) : Except GetError Bytes :=
  let r := if isRange then (if start < stop then b.range path start stop else .ok []) else b.body path
  match r with
  | .ok data => .ok data
  | .error _ => .error (.s3 .internalError)

def getObject (checks : Bool) (http : Http) (buckets : List Key) (b : ObjectReads) (req : GetRequest) :
    Except GetError GetOutput := do
  match validateKey req.key with
  | .error e => throw (.s3 e)
  | .ok () => pure ()
  if req.bucket ∉ buckets then throw (.s3 .noSuchBucket)
  let path := objKey req.bucket req.key
  let head ← match b.head path with
    | .ok head => pure head
    | .error (.notFound _) => throw (.s3 .noSuchKey)
    | .error _ => throw (.s3 .internalError)
  let metadata ← readMeta (b.metadata path)
  checkRange head.size.toNat req.range
  checkConditions http req head.lastModified metadata
  let (start, stop, contentLength, contentRange) ← computeRange checks head.size.toNat req.range
  let body ← readBody b path start stop contentRange.isSome
  pure (getOutput http head metadata body contentLength contentRange)

/-! ## What is served -/

/-- The range is answered with its bytes, or refused as one that cannot be satisfied. -/
def ServesRange (body : Bytes) (r : Except GetError GetOutput) : Prop :=
  (∃ e, r = .error e ∧ e = .invalidRange) ∨ ∃ o start last, r = .ok o ∧ start ≤ last ∧ last < body.length ∧
    o.contentRange = some (rangeText start last body.length) ∧ o.contentLength = (last - start + 1 : Nat) ∧
    o.body = slice body start (last + 1)

def Range.count (size : Nat) : Range → Nat
  | .int first none => size - first.toNat
  | .int first (some last) => min (last.toNat + 1) size - first.toNat
  | .suffix length => min length.toNat size

/-- A range that begins behind the body; or one that has a byte of it, whose last byte has a successor, and whose length is
    an `i64`. -/
def Range.Safe (size : Nat) (range : Range) : Prop :=
  (∃ first last, range = .int first last ∧ size ≤ first.toNat) ∨
    (∀ first last, range = .int first (some last) → first ≤ last ∧ last.toNat < u64Max) ∧
      0 < range.count size ∧ range.count size < 9223372036854775808

/-- The backend has this body at the path, and gives out its ranges. -/
structure ObjectReads.Serves (b : ObjectReads) (path : Key) (body : Bytes) : Prop where
  head : ∃ head, b.head path = .ok head ∧ head.size.toNat = body.length
  metadata : ∃ metadata, readMeta (b.metadata path) = .ok metadata
  range : ∀ start stop, start < stop → stop ≤ body.length → b.range path start stop = .ok (slice body start stop)

/-- Nothing but its range speaks against the request. -/
structure Admitted (http : Http) (buckets : List Key) (b : ObjectReads) (req : GetRequest) (body : Bytes) :
    Prop where
  key : validateKey req.key = .ok ()
  bucket : req.bucket ∈ buckets
  serves : b.Serves (objKey req.bucket req.key) body
  conditions : ∀ head metadata, b.head (objKey req.bucket req.key) = .ok head →
    readMeta (b.metadata (objKey req.bucket req.key)) = .ok metadata →
      checkConditions http req head.lastModified metadata = .ok ()

variable {http : Http} {buckets : List Key} {b : ObjectReads} {req : GetRequest} {body : Bytes}

/-- What is left of such a request is its range. -/
theorem Admitted.getObject_eq (h : Admitted http buckets b req body) (checks : Bool) :
    ∃ head metadata, head.size.toNat = body.length ∧ getObject checks http buckets b req = (do
      checkRange body.length req.range
      let (start, stop, contentLength, contentRange) ← computeRange checks body.length req.range
      let data ← readBody b (objKey req.bucket req.key) start stop contentRange.isSome
      pure (getOutput http head metadata data contentLength contentRange)) := by
  obtain ⟨head, hhead, hsize⟩ := h.serves.head
  obtain ⟨metadata, hmeta⟩ := h.serves.metadata
  have hcond := h.conditions head metadata hhead hmeta
  refine ⟨head, metadata, hsize, ?_⟩
  unfold getObject
  simp only [h.key, hhead, hmeta, hsize, if_neg (not_not.mpr h.bucket), pure_bind]
  change (checkRange body.length req.range >>= fun _ => checkConditions http req head.lastModified metadata >>= fun _ => _) = _
  rw [hcond]
  rfl

/-! ## Ranges -/

def Range.start (size : Nat) : Range → Nat
  | .int first _ => first.toNat
  | .suffix length => size - min length.toNat size

theorem addU64_ok (checks : Bool) {a b : Nat} (h : a + b ≤ u64Max) : addU64 checks a b = .ok (a + b) := if_pos h

theorem subU64_ok (checks : Bool) {a b : Nat} (h : b ≤ a) : subU64 checks a b = .ok (a - b) := if_pos h

theorem toI64_ok {n : Nat} (h : n < 9223372036854775808) : toI64 n = n := if_pos h

/-- A length that is positive as an `i64`. -/
theorem toI64_pos {n : Nat} (hn : n ≤ u64Max) (h : 0 < toI64 n) : 0 < n ∧ n < 9223372036854775808 := by
  unfold toI64 at h
  unfold u64Max at hn
  split at h
  · omega
  · omega

/-- A range that has a byte of the body, and whose last byte has a successor. -/
theorem Range.bounds_ok (checks : Bool) {size : Nat} {range : Range}
    (hlast : ∀ first last, range = .int first (some last) → first ≤ last ∧ last.toNat < u64Max) (hcount : 0 < range.count size) :
    range.bounds checks size = .ok (range.start size, range.start size + range.count size) := by
  cases range with
  | int first last =>
    cases last with
    | none =>
      simp only [Range.count] at hcount
      simp only [Range.bounds, Range.start, Range.count]
      rw [Nat.add_sub_cancel' (by omega)]
    | some last =>
      obtain ⟨-, hmax⟩ := hlast first last rfl
      simp only [Range.count] at hcount
      simp only [Range.bounds, Range.start, Range.count]
      rw [addU64_ok checks (by omega), Nat.add_sub_cancel' (by omega)]
      rfl
  | suffix length =>
    simp only [Range.bounds, Range.start, Range.count]
    rw [subU64_ok checks (Nat.min_le_right _ _), Nat.sub_add_cancel (Nat.min_le_right _ _)]
    rfl

theorem Range.end_le {size : Nat} {range : Range} (hcount : 0 < range.count size) : range.start size + range.count size ≤ size := by
  cases range with
  | int first last =>
    cases last with
    | none =>
      simp only [Range.count, Range.start] at *
      omega
    | some last =>
      simp only [Range.count, Range.start] at *
      omega
  | suffix length =>
    simp only [Range.count, Range.start] at *
    omega

/-- What is computed for it. -/
theorem computeRange_ok (checks : Bool) {size : Nat} {range : Range}
    (hlast : ∀ first last, range = .int first (some last) → first ≤ last ∧ last.toNat < u64Max) (hcount : 0 < range.count size) :
    computeRange checks size (some range) = .ok (range.start size, range.start size + range.count size, toI64 (range.count size),
      some (rangeText (range.start size) (range.start size + range.count size - 1) size)) := by
  unfold computeRange
  dsimp only
  rw [range.bounds_ok checks hlast hcount]
  show (subU64 checks (range.start size + range.count size) 1 >>= fun last =>
    subU64 checks (range.start size + range.count size) (range.start size) >>= fun length => _) = _
  rw [subU64_ok checks (by omega), subU64_ok checks (by omega), Nat.add_sub_cancel_left]
  rfl

/-- What a build with overflow checks computes, if it does not unwind. -/
theorem computeRange_checked {size : Nat} {range : Range} {r : Nat × Nat × Int × Option String}
    (h : computeRange true size (some range) = .ok r) :
    ∃ start stop, range.bounds true size = .ok (start, stop) ∧ start ≤ stop ∧ 1 ≤ stop ∧ r.2.2.1 = toI64 (stop - start) := by
  unfold computeRange at h
  dsimp only at h
  cases hbounds : range.bounds true size with
  | error e =>
    rw [hbounds] at h
    cases h
  | ok p =>
    obtain ⟨start, stop⟩ := p
    rw [hbounds] at h
    change (subU64 true stop 1 >>= fun last => subU64 true stop start >>= fun length =>
      pure (start, stop, toI64 length, some (rangeText start last size))) = .ok r at h
    by_cases hstop : 1 ≤ stop
    · rw [subU64_ok true hstop] at h
      change (subU64 true stop start >>= fun length => pure (start, stop, toI64 length, some (rangeText start (stop - 1) size))) = .ok r at h
      by_cases hle : start ≤ stop
      · rw [subU64_ok true hle] at h
        cases h
        exact ⟨start, stop, rfl, hle, hstop, rfl⟩
      · unfold subU64 at h
        rw [if_neg hle] at h
        cases h
    · rw [show subU64 true stop 1 = .error .panic from if_neg hstop] at h
      cases h

/-- Then, if its length is positive, the range has a byte, and its last byte a successor. -/
theorem safe_of_checked {size : Nat} {range : Range} (hsize : size ≤ u64Max) {r : Nat × Nat × Int × Option String}
    (h : computeRange true size (some range) = .ok r) (hpos : 0 < r.2.2.1) : range.Safe size := by
  obtain ⟨start, stop, hbounds, hle, hstop, hlength⟩ := computeRange_checked h
  rw [hlength] at hpos
  right
  cases range with
  | int first last =>
    cases last with
    | none =>
      simp only [Range.bounds] at hbounds
      cases hbounds
      have hcount := toI64_pos (n := size - first.toNat) (by omega) hpos
      exact ⟨(fun first last he => by cases he), hcount⟩
    | some last =>
      simp only [Range.bounds] at hbounds
      by_cases hmax : last.toNat + 1 ≤ u64Max
      · rw [addU64_ok true hmax] at hbounds
        cases hbounds
        have hcount := toI64_pos (by omega) hpos
        refine ⟨fun first' last' he => ?_, hcount⟩
        cases he
        refine ⟨?_, by omega⟩
        rw [UInt64.le_iff_toNat_le]
        omega
      · unfold addU64 at hbounds
        rw [if_neg hmax] at hbounds
        cases hbounds
  | suffix length =>
    simp only [Range.bounds] at hbounds
    rw [subU64_ok true (Nat.min_le_right _ _)] at hbounds
    cases hbounds
    have hcount := toI64_pos (by omega) hpos
    rw [Nat.sub_sub_self (Nat.min_le_right _ _)] at hcount
    exact ⟨(fun first last he => by cases he), hcount⟩

theorem addU64_error {checks : Bool} {a b : Nat} {e : GetError} (h : addU64 checks a b = .error e) : e = .panic := by
  unfold addU64 at h
  split at h
  · cases h
  · split at h
    · cases h
      rfl
    · cases h

theorem subU64_error {checks : Bool} {a b : Nat} {e : GetError} (h : subU64 checks a b = .error e) : e = .panic := by
  unfold subU64 at h
  split at h
  · cases h
  · split at h
    · cases h
      rfl
    · cases h

/-- A computation that fails first, or what follows it. -/
theorem bind_error {α β : Type} {p : Except GetError α} {f : α → Except GetError β} {e : GetError} (h : (p >>= f) = .error e) :
    p = .error e ∨ ∃ a, p = .ok a ∧ f a = .error e := by
  cases p with
  | error e' =>
    cases h
    exact .inl rfl
  | ok a => exact .inr ⟨a, rfl, h⟩

theorem computeRange_error {checks : Bool} {size : Nat} {range : Range} {e : GetError}
    (h : computeRange checks size (some range) = .error e) : e = .panic := by
  unfold computeRange at h
  rcases bind_error h with hbounds | ⟨p, -, h⟩
  · cases range with
    | int first last =>
      cases last with
      | none => cases hbounds
      | some last =>
        rcases bind_error hbounds with hadd | ⟨_, -, hpure⟩
        · exact addU64_error hadd
        · cases hpure
    | suffix length =>
      rcases bind_error hbounds with hsub | ⟨_, -, hpure⟩
      · exact subU64_error hsub
      · cases hpure
  · rcases bind_error h with hsub | ⟨_, -, h⟩
    · exact subU64_error hsub
    · rcases bind_error h with hsub | ⟨_, -, hpure⟩
      · exact subU64_error hsub
      · cases hpure

/-- The check at the front refuses what begins behind the body, and nothing else. -/
theorem checkRange_cases (size : Nat) (range : Range) :
    (∃ first last, range = .int first last ∧ size ≤ first.toNat) ∧ checkRange size (some range) = .error .invalidRange ∨
      checkRange size (some range) = .ok () := by
  cases range with
  | int first last =>
    by_cases hle : size ≤ first.toNat
    · exact .inl ⟨⟨first, last, rfl, hle⟩, if_pos hle⟩
    · exact .inr (if_neg hle)
  | suffix length => exact .inr rfl

/-- Every build answers a range as it should exactly if the range is safe. -/
theorem range_is_served_iff (h : Admitted http buckets b req body) {range : Range} (hrange : req.range = some range) :
    (∀ checks, ServesRange body (getObject checks http buckets b req)) ↔ range.Safe body.length := by
  constructor
  · intro hserves
    obtain ⟨head, metadata, hsize, heq⟩ := h.getObject_eq true
    have hmax : body.length ≤ u64Max := by
      have hlt := head.size.toNat_lt
      unfold u64Max
      omega
    have htrue := hserves true
    rw [heq, hrange] at htrue
    rcases checkRange_cases body.length range with ⟨hbehind, -⟩ | hcheck
    · exact .inl hbehind
    rw [hcheck] at htrue
    cases hcompute : computeRange true body.length (some range) with
    | error e =>
      rw [hcompute] at htrue
      obtain ⟨e', he, hinvalid⟩ | ⟨o, start, last, hok, -⟩ := htrue
      · have hpanic := computeRange_error hcompute
        cases he
        rw [hpanic] at hinvalid
        cases hinvalid
      · cases hok
    | ok r =>
      rw [hcompute] at htrue
      change ServesRange body (readBody b _ r.1 r.2.1 r.2.2.2.isSome >>= fun data => pure (getOutput http head metadata data r.2.2.1 r.2.2.2))
        at htrue
      refine safe_of_checked hmax hcompute ?_
      obtain ⟨e', he, hinvalid⟩ | ⟨o, start, last, hok, hle, -, -, hlength, -⟩ := htrue
      · rcases bind_error he with hread | ⟨_, -, hpure⟩
        · unfold readBody at hread
          dsimp only at hread
          split at hread
          · cases hread
          · cases hread
            cases hinvalid
        · cases hpure
      · cases hread : readBody b (objKey req.bucket req.key) r.1 r.2.1 r.2.2.2.isSome with
        | error e =>
          rw [hread] at hok
          cases hok
        | ok data =>
          rw [hread] at hok
          cases hok
          change r.2.2.1 = _ at hlength
          omega
  · intro hsafe checks
    obtain ⟨head, metadata, hsize, heq⟩ := h.getObject_eq checks
    rw [heq, hrange]
    rcases checkRange_cases body.length range with ⟨-, hcheck⟩ | hcheck
    · rw [hcheck]
      exact .inl ⟨_, rfl, rfl⟩
    rw [hcheck]
    have hcounted : (∀ first last, range = .int first (some last) → first ≤ last ∧ last.toNat < u64Max) ∧
        0 < range.count body.length ∧ range.count body.length < 9223372036854775808 := by
      rcases hsafe with ⟨first, last, rfl, hbehind⟩ | hcounted
      · simp [checkRange, hbehind] at hcheck
      · exact hcounted
    obtain ⟨hlast, hpos, hfit⟩ := hcounted
    have hend := Range.end_le hpos
    right
    refine ⟨getOutput http head metadata (slice body (range.start body.length) (range.start body.length + range.count body.length))
        (toI64 (range.count body.length))
        (some (rangeText (range.start body.length) (range.start body.length + range.count body.length - 1) body.length)),
      range.start body.length, range.start body.length + range.count body.length - 1, ?_, by omega, by omega, rfl, ?_, ?_⟩
    · show (computeRange checks body.length (some range) >>= fun r => _) = _
      rw [computeRange_ok checks hlast hpos]
      show (readBody b _ (range.start body.length) (range.start body.length + range.count body.length) true >>= fun data => _) = _
      unfold readBody
      rw [if_pos rfl, if_pos (by omega), h.serves.range _ _ (by omega) hend]
      rfl
    · show toI64 (range.count body.length) = _
      rw [toI64_ok hfit]
      congr 1
      omega
    · show slice body _ _ = slice body _ _
      congr 1
      omega

/-! ## Over a raw store -/

section Raw

variable [Crates] {s : Raw.Store} {key : Key} {info : ExtentInfo} {payload : Bytes}

omit [Crates] in
theorem ExtentInfo.logicalSize_pos (hsize : 0 < info.size) : 0 < info.logicalSize := by
  unfold ExtentInfo.logicalSize
  split
  · assumption
  · exact hsize

/-- Objects that are not compressed, or not to more than the range reads of the store allow. -/
theorem raw_serves (h : IsObject s key info payload) (hmax : info.uncompressedSize ≤ compressedRangeReadMax) :
    (ObjectReads.raw s).Serves key (payload.take info.bodySize) := by
  have hlen := h.stored.length
  have hbody := h.length_body
  have hle : info.bodySize ≤ info.logicalSize := Nat.sub_le _ _
  refine ⟨⟨⟨UInt64.ofNat info.bodySize, info.lastModified⟩, ?_, ?_⟩, ?_, ?_⟩
  · have hhead : (Raw.headWithMeta key).exec s = (.ok (info.bodySize, info.metaLen), s) := by
      unfold Raw.headWithMeta
      rw [Prog.exec_bind, exec_getFile_listed h.listed]
      rfl
    simp only [ObjectReads.raw, hhead, h.listed]
    rfl
  · have hinside := h.inside
    have hblocks : info.size ≤ numBlocks info.size * blockAlignment := by
      unfold numBlocks blockDataSize blockAlignment blockCrcSize
      split <;> omega
    have hlogical : info.logicalSize ≤ u64Max := by
      unfold ExtentInfo.logicalSize
      split
      · exact Nat.le_trans hmax (by decide)
      · omega
    rw [hbody]
    show (UInt64.ofNat info.bodySize).toNat = _
    exact UInt64.toNat_ofNat_of_lt' (by unfold u64Max at hlogical; simp only [UInt64.size]; omega)
  · have hmeta : ∃ data, (Raw.getMetadata key).exec s = (.ok data, s) := by
      unfold Raw.getMetadata
      rw [Prog.exec_bind, exec_getFile_listed h.listed]
      dsimp only
      by_cases hnone : info.metaLen = 0
      · rw [if_pos hnone]
        exact ⟨[], rfl⟩
      · have hpos : 0 < info.metaLen.toNat := by
          rw [Nat.pos_iff_ne_zero]
          intro hzero
          exact hnone (UInt16.toNat_inj.mp hzero)
        have hlogical := ExtentInfo.logicalSize_pos h.sized
        rw [if_neg hnone, Prog.exec_bind, h.exec_doGetRange hmax (by omega) (by omega)]
        exact ⟨_, rfl⟩
    obtain ⟨data, hdata⟩ := hmeta
    simp only [ObjectReads.raw, hdata]
    exact ⟨_, rfl⟩
  · intro start stop hlt hstop
    rw [hbody] at hstop
    have hranged : (getRanged key (.bounded start stop)).exec s = (.ok (slice payload start stop, (start, stop)), s) := by
      rw [h.exec_getRanged]
      have hresolve : (GetRange.bounded start stop).resolve info.bodySize = (start, stop) := by
        simp only [GetRange.resolve]
        rw [Nat.min_eq_left hstop, Nat.min_eq_left (by omega : start ≤ info.bodySize), Nat.min_eq_left (Nat.le_of_lt hlt)]
      rw [hresolve, h.exec_doGetRange hmax hlt (by omega)]
    simp only [ObjectReads.raw, hranged]
    rw [slice_take payload hstop]
    rfl

end Raw

/-! ## Small objects -/

open Raw.Sample

/-- A store that holds one object, the last `metaLen` bytes of which are its metadata. -/
def Sample.objectInfo (payload : Bytes) (metaLen : UInt16) : ExtentInfo := { Raw.Sample.plainInfo payload with metaLen := metaLen }

def Sample.objectStore (path : Key) (payload : Bytes) (metaLen : UInt16) : Raw.Store :=
  { Raw.Sample.plainStore payload with files := (∅ : FMap ExtentInfo).insert path (objectInfo payload metaLen) }

open Sample

theorem Sample.objectStore_isObject (path : Key) {payload : Bytes} (metaLen : UInt16) (h : numBlocks payload.length = 1)
    (hpos : 0 < payload.length) : IsObject (objectStore path payload metaLen) path (objectInfo payload metaLen) payload := by
  have hplain := plainStore_isObject h hpos
  exact ⟨AList.lookup_insert _, hplain.stored, hplain.sized, hplain.inside, hplain.calm⟩

def Sample.anyHeader : Http := ⟨fun _ => true, some, fun _ => true⟩

/-- A request for a range of it. -/
theorem Sample.admitted (payload : Bytes) (metaLen : UInt16) (h : numBlocks payload.length = 1) (hpos : 0 < payload.length)
    (range : Range) : Admitted anyHeader ["b"] (.raw (objectStore (objKey "b" "k") payload metaLen))
      { bucket := "b", key := "k", range := range } (payload.take (objectInfo payload metaLen).bodySize) where
  key := (by decide : validateKey "k" = .ok ())
  bucket := List.mem_cons_self
  serves := raw_serves (objectStore_isObject _ metaLen h hpos) (Nat.zero_le _)
  conditions _ _ _ _ := rfl

/-- A byte from the middle of an object. -/
theorem a_range_of_an_object_is_served :
    ServesRange [1, 2, 3] (getObject true anyHeader ["b"] (.raw (objectStore (objKey "b" "k") [1, 2, 3] 0))
      { bucket := "b", key := "k", range := some (.int 1 (some 1)) }) :=
  (range_is_served_iff (admitted [1, 2, 3] 0 (by decide) (by decide) (.int 1 (some 1))) rfl).mpr
    (.inr ⟨(fun first last he => by cases he; decide), by decide, by decide⟩) true

/-- The last byte of an empty object. -/
theorem a_suffix_of_nothing_unwinds :
    ¬ ∀ (http : Http) (buckets : List Key) (b : ObjectReads) (req : GetRequest) (body : Bytes) (range : Range),
      Admitted http buckets b req body → req.range = some range →
        ∀ checks, ServesRange body (getObject checks http buckets b req) := by
  intro h
  have hserves := h _ _ _ _ _ _ (admitted [0] 1 (by decide) (by decide) (.suffix 1)) rfl true
  obtain ⟨head, metadata, -, heq⟩ := (admitted [0] 1 (by decide) (by decide) (.suffix 1)).getObject_eq true
  rw [heq] at hserves
  obtain ⟨e, he, hinvalid⟩ | ⟨o, start, last, hok, -⟩ := hserves
  · cases he
    cases hinvalid
  · cases hok

end ObjStr.S3
