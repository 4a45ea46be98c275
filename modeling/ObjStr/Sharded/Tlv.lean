/-
  ObjStr.Sharded.Tlv — the variable-length encoding of an object's metadata
  (`shardedobjstr/src/tlv.rs`), and its conversion to and from S3 attributes
  (`metadata.rs`).

  An attribute is named by its header, as the conversion names it.
-/

import ObjStr.Sharded.Basic

namespace ObjStr.Sharded.Tlv

open ObjStr.Lib ObjStr.Raw

/-! ## Fields -/

def lookupBit : UInt8 := 0x80
def tagCustom : UInt8 := 128
def customPrefix : Key := "x-amz-meta-"
def maxFieldLen : Nat := 65535

def fields : List (Key × UInt8) :=
  [("content-type", 1), ("cache-control", 2), ("content-disposition", 3), ("content-encoding", 4),
   ("content-language", 5), ("expires", 6), ("etag", 7)]

def fieldNameToTag (name : Key) : Option UInt8 := (fields.find? (·.1 = name)).map (·.2)

def tagToFieldName (tag : UInt8) : Option Key := (fields.find? (·.2 = tag)).map (·.1)

def ctValues : List String :=
  ["application/octet-stream", "text/plain", "text/html", "text/css", "text/csv", "application/json", "application/xml",
   "image/png", "image/jpeg", "image/gif", "image/webp", "image/svg+xml", "application/pdf", "application/zip", "video/mp4",
   "audio/mpeg", "application/javascript", "text/xml", "application/x-www-form-urlencoded", "multipart/form-data",
   "application/gzip", "application/x-tar", "image/tiff", "audio/wav", "video/webm", "application/wasm", "font/woff2",
   "font/woff", "text/plain; charset=utf-8", "application/json; charset=utf-8", "text/html; charset=utf-8",
   "binary/octet-stream"]

def ccValues : List String :=
  ["no-cache", "no-store", "no-cache, no-store", "private", "public", "must-revalidate", "max-age=0", "max-age=60",
   "max-age=300", "max-age=3600", "max-age=86400", "max-age=604800", "max-age=2592000", "max-age=31536000",
   "public, max-age=3600", "public, max-age=86400", "public, max-age=31536000", "public, max-age=31536000, immutable",
   "private, no-cache", "no-store, must-revalidate"]

def ceValues : List String := ["gzip", "br", "deflate", "identity", "zstd", "compress"]

/-- The well-known values of a field; only three fields have any. -/
def table (tag : UInt8) : List String :=
  match tag.toNat with
  | 1 => ctValues
  | 2 => ccValues
  | 4 => ceValues
  | _ => []

def valueLookup (tag : UInt8) (value : String) : Option UInt8 := ((table tag).findIdx? (· = value)).map UInt8.ofNat

def valueFromLookup (tag idx : UInt8) : Option String := (table tag)[idx.toNat]?

/-! ## Encoding -/

/-- `(len as u16).to_le_bytes()`. -/
def u16Bytes (len : Nat) : Bytes := [UInt8.ofNat len, UInt8.ofNat (len / 256)]

def customSuffix (name : Key) : Option (List Char) :=
  if customPrefix.toList.isPrefixOf name.toList then some (name.toList.drop customPrefix.toList.length) else none

structure MetadataTooLarge where
  field : Key
  len : Nat
  max : Nat
  deriving DecidableEq, Repr

def encodeField (name : Key) (value : String) : Except MetadataTooLarge Bytes :=
  match fieldNameToTag name with
  | some tag =>
    match valueLookup tag value with
    | some idx => .ok [tag ||| lookupBit, idx]
    | none =>
      if maxFieldLen < keyLen value then .error ⟨name, keyLen value, maxFieldLen⟩
      else .ok (tag :: u16Bytes (keyLen value) ++ keyBytes value)
  | none =>
    match customSuffix name with
    | none => .ok []
    | some suffix =>
      let sb := keyBytes (String.ofList suffix)
      if maxFieldLen < sb.length then .error ⟨name, sb.length, maxFieldLen⟩
      else if maxFieldLen < keyLen value then .error ⟨name, keyLen value, maxFieldLen⟩
      else .ok (tagCustom :: u16Bytes sb.length ++ sb ++ u16Bytes (keyLen value) ++ keyBytes value)

def encodeMetadata (m : FMap String) : Except MetadataTooLarge Bytes := do
  let sorted := m.entries.mergeSort fun a b => decide (keyBytes a.1 ≤ keyBytes b.1)
  let parts ← sorted.mapM fun e => encodeField e.1 e.2
  pure parts.flatten

/-! ## Decoding -/

/-- `str::from_utf8(..).unwrap_or_default()`. -/
def textOf (b : Bytes) : String := (String.fromUTF8? ⟨b.toArray⟩).getD ""

/-- A length in two bytes, then as many bytes: they and the rest, if they are all there. -/
def takeField (data : Bytes) : Option (Bytes × Bytes) :=
  match data with
  | lo :: hi :: rest =>
    let len := lo.toNat + 256 * hi.toNat
    if len ≤ rest.length then some (rest.take len, rest.drop len) else none
  | _ => none

/-- One field: what it adds to the map, and the rest; `none` when the data is cut short. -/
def decodeField (tagByte : UInt8) (data : Bytes) : Option (Option (Key × String) × Bytes) :=
  if tagByte = tagCustom then do
    let (suffix, data) ← takeField data
    let (value, data) ← takeField data
    pure (some (customPrefix ++ textOf suffix, textOf value), data)
  else if tagByte &&& lookupBit ≠ 0 then
    match data with
    | [] => none
    | idx :: data =>
      let tag := tagByte &&& 0x7F
      pure (do pure (← tagToFieldName tag, ← valueFromLookup tag idx), data)
  else do
    let (value, data) ← takeField data
    pure ((tagToFieldName tagByte).map fun name => (name, textOf value), data)

/-- Field by field; each one takes at least its tag. -/
def decodeLoop : (rounds : Nat) → Bytes → FMap String → FMap String
  | rounds + 1, tagByte :: data, m =>
    match decodeField tagByte data with
    | none => m
    | some (field, data) => decodeLoop rounds data ((field.map fun f => m.insert f.1 f.2).getD m)
  | _, _, m => m

def decodeMetadata (data : Bytes) : FMap String := decodeLoop data.length data ∅

/-! ## Attributes -/

/-- The headers that are S3 attributes. -/
def isAttribute (name : Key) : Bool :=
  ["content-type", "cache-control", "content-disposition", "content-encoding", "content-language"].contains name ||
    (customSuffix name).isSome

def metaToAttributes (m : FMap String) : FMap String := m.filterKeys isAttribute

def attributesToMeta (attrs : FMap String) : FMap String := attrs.filterKeys isAttribute

end ObjStr.Sharded.Tlv
