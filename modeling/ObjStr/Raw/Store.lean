/-
  ObjStr.Raw.Store — the raw object store: its state and the calls that read and write objects
  (`store.rs`).

  The state is what `Inner` and `RawObjectStore` hold, in one record. A call is a program
  over it: it takes the lock for its whole duration, except a full GET, which looks the
  extent up under the lock and returns a stream that reads its batches later (`GetStream`). `Utc::now()` is an
  argument of the calls that stamp an entry.

  A call that allocates follows one pattern (`allocWrite`): allocate, write, and free the
  extent again if a device call failed. `replaceFile` is what follows a write: the extent the
  key had is freed and the new entry put in its place.
-/

import ObjStr.Raw.Allocator
import ObjStr.Raw.Extent
import ObjStr.Raw.Superblock

namespace ObjStr.Raw

open ObjStr.Lib

structure Store where
  io : DeviceIo
  files : FMap ExtentInfo
  tombstones : FMap TombstoneInfo
  /-- `none` when opened in read-only mode. -/
  allocator : Option ExtentAllocator
  superblock : Superblock
  dirty : Bool
  readOnly : Bool
  shardDirty : Fin numShards → Bool
  /-- Bytes written by the last `flush_index`. -/
  lastFlushBytes : Nat
  maxKeyLength : Nat
  compression : Compression
  indexRegionA : Nat
  indexRegionB : Nat
  indexSlotCapacity : Nat
  shardSlotSize : Nat
  nextUploadId : Nat

abbrev StoreM := Prog Store RawStoreError

/-- `data_end`: the data area ends where the index begins. -/
def Store.dataEnd (s : Store) : Nat := s.indexRegionA

def Store.withIo (io : DeviceIo) (s : Store) : Store := { s with io := io }

def onDevice {α : Type} (p : IoM α) : StoreM α := Prog.zoom Store.io Store.withIo p

/-! ## Index and allocator -/

/-- `allocator_mut()?.alloc(needed)?`. -/
def allocExtent (needed : Nat) : StoreM Nat := fun s =>
  match s.allocator with
  | none => (.error .readOnly, s)
  | some a =>
    match a.alloc needed with
    | .ok (offset, a') => (.ok offset, { s with allocator := some a' })
    | .error e => (.error e, s)

def Store.freeExtent (s : Store) (offset paddedSize : Nat) : Store :=
  { s with allocator := s.allocator.map (·.free offset paddedSize) }

def Store.removeFile (s : Store) (key : Key) : Store :=
  match s.files.lookup key with
  | some old => { s.freeExtent old.offset old.paddedSize with files := s.files.erase key }
  | none => s

def getFile (key : Key) : StoreM ExtentInfo := fun s =>
  match s.files.lookup key with
  | some info => (.ok info, s)
  | none => (.error (.notFound key), s)

/-- Allocate, write, and free the extent again if the write failed. -/
def allocWrite {α : Type} (padded : Nat) (body : Nat → IoM α) : StoreM (Nat × α) := do
  let offset ← allocExtent padded
  let r ← (onDevice (body offset)).onError fun _ s => s.freeExtent offset padded
  pure (offset, r)

variable [Crates]

def Store.markShardDirty (s : Store) (key : Key) : Store :=
  { s with shardDirty := Function.update s.shardDirty (shardForKey key) true }

def Store.insertFile (s : Store) (key : Key) (info : ExtentInfo) : Store :=
  { s.markShardDirty key with files := s.files.insert key info, dirty := true }

def Store.replaceFile (s : Store) (key : Key) (info : ExtentInfo) : Store :=
  let s := s.removeFile key
  { s with tombstones := s.tombstones.erase key }.insertFile key info

/-! ## Put -/

/-- Payloads of this size and above are written in chunks. -/
def streamingPutThreshold : Nat := 8 * 1024 * 1024
def chunkSize : Nat := 1024 * 1024

/-- The chunks a loop of `chunk_size` steps cuts the data into. -/
def chunksOf (data : Bytes) : List Bytes :=
  (List.range ((data.length + chunkSize - 1) / chunkSize)).map fun i => (data.drop (i * chunkSize)).take chunkSize

def writeRound (st : StreamingBlockWriter × UInt32) (chunk : Bytes) : IoM (StreamingBlockWriter × UInt32) := do
  let w ← st.1.writeChunk chunk
  pure (w, crc32cAppend st.2 chunk)

def writeStream (offset : Nat) (chunks : List Bytes) : IoM UInt32 := do
  let st ← chunks.foldlM writeRound (.new offset, 0)
  let _ ← st.1.finish
  pure st.2

/-- What is written for a payload, and its `uncompressed_size`. -/
def compressPayload (c : Compression) (payload : Bytes) : Bytes × Nat :=
  if c ≠ .none ∧ 4096 ≤ payload.length then
    match c.compress payload with
    | some compressed => if compressed.length < payload.length then (compressed, payload.length) else (payload, 0)
    | none => (payload, 0)
  else (payload, 0)

def writePayload (offset : Nat) (data : Bytes) : IoM UInt32 :=
  if streamingPutThreshold ≤ data.length then writeStream offset (chunksOf data)
  else do
    encodeAndWriteBatched offset data
    pure (crc32c data)

/-- Write payload (body and metadata already concatenated) and index it with `meta_len`. -/
def doPutWithMeta (now : DateTime) (key : Key) (payload : Bytes) (metaLen : UInt16) : StoreM Unit := do
  let s ← get
  Prog.failIf (s.readOnly = true) .readOnly
  Prog.failIf (payload = []) .emptyPayload
  Prog.failIf (s.maxKeyLength < keyLen key) (.keyTooLong (keyLen key) s.maxKeyLength)
  let (data, uncompressedSize) := compressPayload s.compression payload
  let padded ← ofExcept (paddedExtentSize data.length)
  let (offset, crc) ← allocWrite padded fun offset => writePayload offset data
  modify fun s => s.replaceFile key
    { offset := offset, size := data.length, paddedSize := padded, crc32c := crc, createdTxn := s.superblock.txnId,
      lastModified := now, metaLen := metaLen, uncompressedSize := uncompressedSize }

def doPut (now : DateTime) (key : Key) (payload : Bytes) : StoreM Unit := doPutWithMeta now key payload 0

/-- `PutMode`, with whether an `Update` carries an e_tag or a version. -/
inductive PutMode where
  | create
  | overwrite
  | update (conditional : Bool)

def putOpts (now : DateTime) (key : Key) (payload : Bytes) (mode : PutMode) : StoreM Unit := do
  let s ← get
  match mode with
  | .create =>
    Prog.failIf ((s.files.lookup key).isSome = true) (.alreadyExists key)
    doPut now key payload
  | .overwrite => doPut now key payload
  | .update conditional =>
    Prog.failIf (conditional = true) (.precondition key)
    doPut now key payload

def putWithMeta (now : DateTime) (key : Key) (body metadata : Bytes) : StoreM Unit := do
  Prog.failIf (u16Max < metadata.length) (.metadataTooLarge metadata.length u16Max)
  doPutWithMeta now key (body ++ metadata) (UInt16.ofNat metadata.length)

/-- A file handed to `put_with_meta_from_file`: its length, what reading it from its position on returns, and
    whether the last read fails instead of ending. It has no more bytes than its length. -/
structure SourceFile where
  len : Nat
  reads : List Bytes
  fails : Bool
  fits : len ≠ 0 → reads.flatten.length ≤ len

/-- Stream what a source returns; if its last read fails, so does the write. -/
def writeSource (offset : Nat) (reads : List Bytes) (fails : Bool) : IoM UInt32 := do
  let st ← reads.foldlM writeRound (.new offset, 0)
  Prog.failIf (fails = true) (.io "source read failed")
  let _ ← st.1.finish
  pure st.2

def putWithMetaFromFile (now : DateTime) (key : Key) (file : SourceFile) (metaLen : UInt16) : StoreM Unit := do
  let s ← get
  if s.compression ≠ .none then
    Prog.failIf (file.fails = true) (.io "source read failed")
    doPutWithMeta now key file.reads.flatten metaLen
  else
    Prog.failIf (s.readOnly = true) .readOnly
    Prog.failIf (file.len = 0) .emptyPayload
    Prog.failIf (s.maxKeyLength < keyLen key) (.keyTooLong (keyLen key) s.maxKeyLength)
    let padded ← ofExcept (paddedExtentSize file.len)
    let (offset, crc) ← allocWrite padded fun offset => writeSource offset file.reads file.fails
    modify fun s => s.replaceFile key
      { offset := offset, size := file.len, paddedSize := padded, crc32c := crc, createdTxn := s.superblock.txnId,
        lastModified := now, metaLen := metaLen, uncompressedSize := 0 }

/-! ## Get -/

/-- Size of the payload as the client wrote it. -/
def ExtentInfo.logicalSize (info : ExtentInfo) : Nat := if 0 < info.uncompressedSize then info.uncompressedSize else info.size

/-- Size of the body: the payload without the metadata at its end. -/
def ExtentInfo.bodySize (info : ExtentInfo) : Nat := info.logicalSize - info.metaLen.toNat

def nameCorruption {α : Type} (key : Key) (p : IoM α) : IoM α := fun io =>
  match p io with
  | (.error (.dataCorruption _ expected actual), io') => (.error (.dataCorruption key expected actual), io')
  | r => r

def readPayload (c : Compression) (info : ExtentInfo) : IoM Bytes := do
  let content ← readAndDecodeBatched info.offset info.size
  if 0 < info.uncompressedSize then ofExcept (c.decompress content) else pure content

def doGet (key : Key) : StoreM (Bytes × ExtentInfo) := do
  let info ← getFile key
  let s ← get
  let data ← onDevice (nameCorruption key (readPayload s.compression info))
  pure (data, info)

/-- The blocks that cover `[start, stop)` of an uncompressed payload, on the device. -/
def ExtentInfo.rangeSpan (info : ExtentInfo) (start stop : Nat) : Span :=
  let firstBlock := start / blockDataSize
  let lastBlock := (stop - 1) / blockDataSize
  (info.offset + firstBlock * blockAlignment, (lastBlock + 1 - firstBlock) * blockAlignment)

/-- Read the blocks that cover `[start, stop)` of an uncompressed payload. A build with overflow checks unwinds when
    `last_block - first_block` does not fit; one without them wraps, and reads no block. -/
def readRange (info : ExtentInfo) (start stop : Nat) : IoM Bytes := do
  let firstBlock := start / blockDataSize
  let lastBlock := (stop - 1) / blockDataSize
  let span := info.rangeSpan start stop
  Prog.failIf (u64Max < firstBlock * blockAlignment) (.extentInvalid "range read: block offset overflow")
  Prog.failIf (u64Max < span.1) (.extentInvalid "range read: disk offset overflow")
  Prog.failIf (lastBlock < firstBlock) (.panic "attempt to subtract with overflow")
  Prog.failIf (u64Max < span.2) (.extentInvalid "range read: disk length overflow")
  let raw ← DeviceIo.pread span.1 span.2
  ofExcept (decodeBlockRange raw firstBlock start stop)

/-- Read a range of the payload. A compressed extent is decompressed whole, up to 1 GB. -/
def doGetRange (key : Key) (start stop : Nat) : StoreM (Bytes × ExtentInfo) := do
  let info ← getFile key
  if 0 < info.uncompressedSize then
    Prog.failIf (compressedRangeReadMax < info.uncompressedSize) (.io "range read on compressed object rejected")
    let (data, info) ← doGet key
    let stop := min stop data.length
    let start := min start stop
    pure ((data.drop start).take (stop - start), info)
  else
    let data ← onDevice (nameCorruption key (readRange info start stop))
    pure (data, info)

/-- Size and `meta_len` of an object, from the index. -/
def headWithMeta (key : Key) : StoreM (Nat × UInt16) := do
  let info ← getFile key
  pure (info.bodySize, info.metaLen)

def getMetadata (key : Key) : StoreM Bytes := do
  let info ← getFile key
  if info.metaLen = 0 then pure []
  else
    let (data, _) ← doGetRange key (info.logicalSize - info.metaLen.toNat) info.logicalSize
    pure data

inductive GetRange where
  | bounded (start stop : Nat)
  | offset (start : Nat)
  | suffix (len : Nat)

def GetRange.resolve (r : GetRange) (total : Nat) : Nat × Nat :=
  match r with
  | .bounded start stop => (min (min start total) (min stop total), min stop total)
  | .offset start => (min start total, total)
  | .suffix len => (total - len, total)

/-- A ranged GET, under the lock: the bytes and the range they are. -/
def getRanged (key : Key) (range : GetRange) : StoreM (Bytes × Nat × Nat) := do
  let info ← getFile key
  let r := range.resolve info.bodySize
  let (data, _) ← doGetRange key r.1 r.2
  pure (data, r)

structure DecoderStream where
  compression : Compression
  reader : StreamingBlockReader
  /-- The payload read so far. -/
  content : Bytes
  /-- A read that failed fails again. -/
  failed : Option RawStoreError
  ended : Bool
  bodySize : Nat

/-- Read the next batch for the decoder; a panic unwinds through it. -/
def DecoderStream.fill (d : DecoderStream) : IoM DecoderStream := do
  match ← Prog.attempt d.reader.nextChunk with
  | .ok (some chunk, reader) => pure { d with reader, content := d.content ++ chunk }
  | .ok (none, reader) => pure { d with reader, ended := true }
  | .error (.panic reason) => throw (.panic reason)
  | .error _ => pure { d with failed := some (.io "block reader") }

inductive GetStream where
  /-- A body that has been read. -/
  | once (body : Bytes)
  /-- The blocks of a plain body, and what they have given so far. -/
  | blocks (reader : StreamingBlockReader) (content : Bytes)
  | decoder (d : DecoderStream)

/-- A Snappy payload is read at once, the others as the stream is read; a gzip decoder reads the header when it is
    made. -/
def openStream (c : Compression) (key : Key) (info : ExtentInfo) : IoM GetStream :=
  if 0 < info.uncompressedSize then
    let d : DecoderStream := ⟨c, .new info.offset info.size, [], none, false, info.bodySize⟩
    match c with
    | .snappy => do
      let content ← nameCorruption key (readAndDecodeBatched info.offset info.size)
      let data ← ofExcept (Compression.snappy.decompress content)
      pure (.once (data.take info.bodySize))
    | .zstd => pure (.decoder d)
    | _ => do
      let d ← d.fill
      pure (.decoder d)
  else if info.bodySize = 0 then pure (.once [])
  else pure (.blocks (.new info.offset info.bodySize) [])

/-- A full GET: the extent is looked up under the lock, which is released then. Each `next_chunk` reads the
    device as it is at that time. -/
def getStream (key : Key) : StoreM GetStream := do
  let info ← getFile key
  let s ← get
  onDevice (openStream s.compression key info)

/-- Give out what the decoder has, or read the next batch for it. -/
def DecoderStream.next (d : DecoderStream) : IoM (DecoderStream ⊕ Bytes) :=
  if d.bodySize = 0 then pure (.inr [])
  else match Crates.pull d.compression d.content false d.bodySize with
    | some body => pure (.inr body)
    | none =>
      match d.failed with
      | some e => throw e
      | none =>
        if d.ended then
          match Crates.pull d.compression d.content true d.bodySize with
          | some body => pure (.inr body)
          | none => throw (.io "decompress failed")
        else do
          let d ← d.fill
          pure (.inl d)

/-- Read on; the body once it is complete. -/
def GetStream.next : GetStream → IoM (GetStream ⊕ Bytes)
  | once body => pure (.inr body)
  | blocks reader content => do
    match ← reader.nextChunk with
    | (some chunk, reader) => pure (.inl (.blocks reader (content ++ chunk)))
    | (none, _) => pure (.inr content)
  | decoder d => do
    match ← d.next with
    | .inl d => pure (.inl (.decoder d))
    | .inr body => pure (.inr body)

/-- Read a stream to its end; `fuel` bounds the rounds. -/
def GetStream.drain : Nat → GetStream → IoM Bytes
  | 0, _ => throw (.io "stream not finished")
  | fuel + 1, g => do
    match ← g.next with
    | .inl g => drain fuel g
    | .inr body => pure body

/-- Rounds that suffice: one for each batch, and one at each end. -/
def GetStream.rounds : GetStream → Nat
  | once _ => 1
  | blocks reader _ => batchCount reader.totalBlocks + 1
  | decoder d => batchCount d.reader.totalBlocks + 2

def GetStream.consume (g : GetStream) : IoM Bytes := g.drain g.rounds

def getFull (key : Key) : StoreM Bytes := do
  let g ← getStream key
  onDevice g.consume

/-! ## Copy, rename, delete -/

def copyBatch (src dst copied chunk : Nat) : IoM Unit := do
  Prog.failIf (u64Max < src + copied) (.extentInvalid "copy: source offset overflow")
  Prog.failIf (u64Max < dst + copied) (.extentInvalid "copy: destination offset overflow")
  let raw ← DeviceIo.pread (src + copied) chunk
  DeviceIo.pwrite (dst + copied) raw

def copyBlocks (src dst total : Nat) : IoM Unit :=
  (List.range ((total + chunkSize - 1) / chunkSize)).forM fun i =>
    copyBatch src dst (i * chunkSize) (min (total - i * chunkSize) chunkSize)

/-- A failed device call frees the new extent; the overflow checks do not. -/
def Store.freeAfterCopy (offset paddedSize : Nat) (e : RawStoreError) (s : Store) : Store :=
  match e with
  | .extentInvalid _ => s
  | _ => s.freeExtent offset paddedSize

/-- Copy an object's blocks. A tombstone at the target stays. -/
def doCopy (now : DateTime) (fromKey toKey : Key) : StoreM Unit := do
  let s ← get
  Prog.failIf (s.readOnly = true) .readOnly
  Prog.failIf (s.maxKeyLength < keyLen toKey) (.keyTooLong (keyLen toKey) s.maxKeyLength)
  let info ← getFile fromKey
  let newOffset ← allocExtent info.paddedSize
  (onDevice (copyBlocks info.offset newOffset info.paddedSize)).onError (Store.freeAfterCopy newOffset info.paddedSize)
  modify fun s => (s.removeFile toKey).insertFile toKey
    { info with offset := newOffset, createdTxn := s.superblock.txnId, lastModified := now }

def copy (now : DateTime) (fromKey toKey : Key) : StoreM Unit := doCopy now fromKey toKey

def copyIfNotExists (now : DateTime) (fromKey toKey : Key) : StoreM Unit := do
  let s ← get
  Prog.failIf ((s.files.lookup toKey).isSome = true) (.alreadyExists toKey)
  doCopy now fromKey toKey

/-- Take the entry of `fromKey` out of the index, without freeing its extent. -/
def takeFile (fromKey : Key) : StoreM ExtentInfo := do
  let info ← getFile fromKey
  modify fun s => { s with files := s.files.erase fromKey }
  pure info

/-- Move an entry in the index; no data is touched. -/
def rename (fromKey toKey : Key) : StoreM Unit := do
  let s ← get
  Prog.failIf (s.readOnly = true) .readOnly
  Prog.failIf (s.maxKeyLength < keyLen toKey) (.keyTooLong (keyLen toKey) s.maxKeyLength)
  let info ← takeFile fromKey
  modify fun s => ((s.removeFile toKey).markShardDirty fromKey).insertFile toKey info

def renameIfNotExists (fromKey toKey : Key) : StoreM Unit := do
  let s ← get
  Prog.failIf (s.readOnly = true) .readOnly
  Prog.failIf (s.maxKeyLength < keyLen toKey) (.keyTooLong (keyLen toKey) s.maxKeyLength)
  Prog.failIf ((s.files.lookup toKey).isSome = true) (.alreadyExists toKey)
  let info ← takeFile fromKey
  modify fun s => (s.markShardDirty fromKey).insertFile toKey info

def Store.dropFile (s : Store) (key : Key) : Store :=
  match s.files.lookup key with
  | some _ => (s.removeFile key).markShardDirty key
  | none => s

def delete (key : Key) : StoreM Unit := do
  let s ← get
  Prog.failIf (s.readOnly = true) .readOnly
  modify fun s => if (s.files.lookup key).isSome then { s.dropFile key with dirty := true } else s

/-! ## Metadata -/

def copyBody : Nat → StreamingBlockReader → StreamingBlockWriter × UInt32 → Nat → IoM (StreamingBlockWriter × UInt32)
  | 0, _, st, _ => pure st
  | fuel + 1, reader, st, remaining =>
    if remaining = 0 then pure st
    else do
      let (chunk, reader) ← reader.nextChunk
      match chunk with
      | none => pure st
      | some chunk => do
        let st ← writeRound st (chunk.take (min chunk.length remaining))
        copyBody fuel reader st (remaining - min chunk.length remaining)

def appendMetadata (st : StreamingBlockWriter × UInt32) (metadata : Bytes) : IoM (StreamingBlockWriter × UInt32) :=
  if metadata = [] then pure st else writeRound st metadata

def rewriteBody (info : ExtentInfo) (metadata : Bytes) (newOffset : Nat) : IoM UInt32 := do
  let st ← copyBody (batchCount (numBlocks info.size) + 1) (.new info.offset info.size) (.new newOffset, 0)
    (info.size - info.metaLen.toNat)
  let st ← appendMetadata st metadata
  let _ ← st.1.finish
  pure st.2

/-- The body of a compressed object; an empty one is not read. -/
def compressedBody (key : Key) (info : ExtentInfo) : StoreM Bytes :=
  if info.bodySize = 0 then pure []
  else do
    let (data, _) ← doGet key
    pure (data.take info.bodySize)

def updateMetadata (now : DateTime) (key : Key) (metadata : Bytes) : StoreM Unit := do
  Prog.failIf (u16Max < metadata.length) (.metadataTooLarge metadata.length u16Max)
  let info ← getFile key
  if 0 < info.uncompressedSize then
    let body ← compressedBody key info
    doPutWithMeta now key (body ++ metadata) (UInt16.ofNat metadata.length)
  else
    let s ← get
    Prog.failIf (s.readOnly = true) .readOnly
    let size := info.size - info.metaLen.toNat + metadata.length
    Prog.failIf (size = 0) .emptyPayload
    let padded ← ofExcept (paddedExtentSize size)
    let (offset, crc) ← allocWrite padded (rewriteBody info metadata)
    modify fun s => s.replaceFile key
      { offset := offset, size := size, paddedSize := padded, crc32c := crc, createdTxn := s.superblock.txnId,
        lastModified := now, metaLen := UInt16.ofNat metadata.length, uncompressedSize := 0 }

/-- Record the length of the metadata a multipart upload ends with. -/
def setMetaLen (key : Key) (metaLen : UInt16) : StoreM Unit := do
  let info ← getFile key
  modify fun s => s.insertFile key { info with metaLen := metaLen }

/-! ## Multipart uploads -/

structure RawMultipartUpload where
  location : Key
  uploadId : Nat
  partCount : Nat
  partKeys : List Key

def partKey (uploadId part : Nat) : Key := multipartTmpPrefix ++ toString uploadId ++ "/" ++ toString part

def putMultipart (location : Key) : StoreM RawMultipartUpload := fun s =>
  (.ok { location := location, uploadId := s.nextUploadId, partCount := 0, partKeys := [] },
    { s with nextUploadId := s.nextUploadId + 1 })

/-- `put_part` names the part at once; its data is written by `doPut` when the future it returns is polled. -/
def RawMultipartUpload.putPart (u : RawMultipartUpload) : Key × RawMultipartUpload :=
  (partKey u.uploadId u.partCount,
    { u with partCount := u.partCount + 1, partKeys := u.partKeys ++ [partKey u.uploadId u.partCount] })

def partInfos (partKeys : List Key) : StoreM (List ExtentInfo) := fun s =>
  match partKeys.find? fun k => (s.files.lookup k).isNone with
  | some k => (.error (.notFound k), s)
  | none => (.ok (partKeys.filterMap s.files.lookup), s)

def writePart (c : Compression) (st : StreamingBlockWriter × UInt32) (info : ExtentInfo) :
    IoM (StreamingBlockWriter × UInt32) := do
  let content ← readPayload c info
  writeRound st content

def writeParts (c : Compression) (offset : Nat) (parts : List ExtentInfo) : IoM UInt32 := do
  let st ← parts.foldlM (writePart c) (.new offset, 0)
  let _ ← st.1.finish
  pure st.2

/-- The temporary file of a compressing upload: after how many 1 MB reads reading it back fails, if it does. -/
abbrev TempFile := Option Nat

def writeTemp (tmp : TempFile) (offset : Nat) (data : Bytes) : IoM UInt32 :=
  writeSource offset ((chunksOf data).take (tmp.getD data.length)) tmp.isSome

def compressParts (c : Compression) (parts : List ExtentInfo) : IoM Bytes := do
  let contents ← parts.foldlM (fun contents info => do
    let content ← readPayload c info
    pure (contents ++ [content])) []
  ofExcept (match Crates.encodeStream c contents with
    | some data => .ok data
    | none => .error (.io "compress failed"))

/-- What an upload writes: the size, the `uncompressed_size`, and the compressed data if it is shorter. -/
def planParts (c : Compression) (parts : List ExtentInfo) : IoM (Nat × Nat × Option Bytes) :=
  let total := (parts.map ExtentInfo.logicalSize).sum
  if c ≠ .none ∧ 4096 ≤ total then do
    let data ← compressParts c parts
    pure (if data.length < total then (data.length, total, some data) else (total, 0, none))
  else pure (total, 0, none)

def Store.dropParts (s : Store) (partKeys : List Key) : Store := partKeys.foldl Store.dropFile s

def complete (now : DateTime) (tmp : TempFile) (location : Key) (partKeys : List Key) : StoreM Unit := do
  Prog.failIf (partKeys = []) .emptyPayload
  let parts ← partInfos partKeys
  let s ← get
  let (size, uncompressedSize, source) ← onDevice (planParts s.compression parts)
  let padded ← ofExcept (paddedExtentSize size)
  let (offset, crc) ← allocWrite padded fun offset =>
    match source with
    | some data => writeTemp tmp offset data
    | none => writeParts s.compression offset parts
  modify fun s => (s.replaceFile location
    { offset := offset, size := size, paddedSize := padded, crc32c := crc, createdTxn := s.superblock.txnId,
      lastModified := now, metaLen := 0, uncompressedSize := uncompressedSize }).dropParts partKeys

def abort (partKeys : List Key) : StoreM Unit :=
  modify fun s => { s.dropParts partKeys with dirty := true }

/-! ## Tombstones, scrub -/

/-- Delete a tombstone; a live file's stays. -/
def deleteTombstone (path : Key) : StoreM Bool := do
  let s ← get
  Prog.failIf (s.readOnly = true) .readOnly
  if (s.files.lookup path).isSome ∨ (s.tombstones.lookup path).isNone then pure false
  else do
    modify fun s => { s.markShardDirty path with tombstones := s.tombstones.erase path, dirty := true }
    pure true

def clearTombstones : StoreM Nat := do
  let s ← get
  Prog.failIf (s.readOnly = true) .readOnly
  if s.tombstones.entries = [] then pure 0
  else do
    modify fun s => { s.tombstones.entries.foldl (fun s e => s.markShardDirty e.1) s with tombstones := ∅, dirty := true }
    pure s.tombstones.entries.length

def scrubRegion (e : Span) : IoM Unit :=
  (List.range ((e.2 + chunkSize - 1) / chunkSize)).forM fun i =>
    DeviceIo.pwrite (e.1 + i * chunkSize) (List.replicate (min (e.2 - i * chunkSize) chunkSize) 0)

def scrubFreeSpace : StoreM Unit := do
  let s ← get
  Prog.failIf (s.readOnly = true) .readOnly
  onDevice do
    ((s.allocator.map (·.freeList)).getD []).forM scrubRegion
    DeviceIo.sync

end ObjStr.Raw
