/-
  ObjStr.S3.Backend — the backend of the S3 adapter: a raw store, or a cluster of shards (`objstrd/src/adapter.rs`).

  Objects with metadata are written from memory (`put_with_meta`) or from a file that holds the body and then the metadata
  (`put_with_meta_from_file`). What the adapter looks at is whether the write succeeded.
  - `StoreBackend.unchanged_of_failed_raw`: a raw store that fails a write keeps all it had.
  - `StoreBackend.unchanged_of_failed_sharded_iff`: a cluster that fails one keeps what it has just if every store that was
    sent the write refuses it, or for a key without an entry gives it back.
-/

import ObjStr.Raw.Failed
import ObjStr.S3.Keys
import ObjStr.Sharded.FileWrites

namespace ObjStr.S3

open ObjStr.Lib ObjStr.Raw ObjStr.Sharded

/-- How a temp file is read back: all of it, unless reading fails. -/
structure FileIo where
  read : Bytes → SourceFile
  len : ∀ file, (read file).len = file.length
  whole : ∀ file, (read file).fails = false → (read file).reads.flatten = file

inductive StoreBackend where
  | raw (s : Raw.Store)
  | sharded (refs : RawRefRegistry) (s : Sys)

namespace StoreBackend

section Writes

variable [Crates]

def putWithMeta (b : StoreBackend) (now : DateTime) (path : Key) (body metadata : Bytes) : Bool × StoreBackend :=
  match b with
  | .raw s =>
    match (Raw.putWithMeta now path body metadata).exec s with
    | (.ok _, s) => (true, .raw s)
    | (.error _, s) => (false, .raw s)
  | .sharded refs s =>
    match (Sharded.putWithMeta refs path body metadata).exec s with
    | (.ok _, s) => (true, .sharded refs s)
    | (.error _, s) => (false, .sharded refs s)

/-- A cluster looks at the file before it asks its shards. -/
def putWithMetaFromFile (b : StoreBackend) (now : DateTime) (io : FileIo) (path : Key) (file : Bytes) (metaLen : UInt16) :
    Bool × StoreBackend :=
  match b with
  | .raw s =>
    match (Raw.putWithMetaFromFile now path (io.read file) metaLen).exec s with
    | (.ok _, s) => (true, .raw s)
    | (.error _, s) => (false, .raw s)
  | .sharded refs s =>
    if (io.read file).fails then (false, .sharded refs s)
    else
      match (Sharded.putWithMetaFromFile refs path file metaLen).exec s with
      | (.ok _, s) => (true, .sharded refs s)
      | (.error _, s) => (false, .sharded refs s)

/-- A raw store as its runs leave it, and a cluster whose raw references are its raw shards. -/
def Valid : StoreBackend → Prop
  | .raw s => ∃ s0 script, Reach NoReload Committed s0 ∧ s = s0.withScript script
  | .sharded refs s => refs.Matches s.cluster

/-- What is stored under a path is what it was: on a raw store the entry and its bytes, in a cluster the entry and the copies
    on all shards, which are read whether there is an entry or not. -/
def Unchanged (path : Key) : StoreBackend → StoreBackend → Prop
  | .raw s, .raw s' => s'.files.lookup path = s.files.lookup path ∧
      ∀ info, s.files.lookup path = some info → s'.io.dev.read info.offset info.paddedSize = s.io.dev.read info.offset info.paddedSize
  | .sharded _ s, .sharded _ s' =>
      s'.cluster.catalog.get path = s.cluster.catalog.get path ∧ ∀ st, (s.stores st).SameAt path (s'.stores st)
  | _, _ => False

omit [Crates] in
theorem Unchanged.refl (path : Key) (b : StoreBackend) : b.Unchanged path b := by
  cases b with
  | raw s => exact ⟨rfl, fun _ _ => rfl⟩
  | sharded refs s => exact ⟨rfl, fun _ => ⟨rfl, rfl⟩⟩

theorem unchanged_of_failed_raw {s : Raw.Store} (hs : (StoreBackend.raw s).Valid) {now : DateTime} {io : FileIo} {path : Key}
    {file : Bytes} {metaLen : UInt16} (hfail : ((StoreBackend.raw s).putWithMetaFromFile now io path file metaLen).1 = false) :
    (StoreBackend.raw s).Unchanged path ((StoreBackend.raw s).putWithMetaFromFile now io path file metaLen).2 := by
  obtain ⟨s0, script, hreach, rfl⟩ := hs
  unfold putWithMetaFromFile at hfail ⊢
  rcases hexec : (Raw.putWithMetaFromFile now path (io.read file) metaLen).exec (s0.withScript script) with ⟨e | _, s'⟩
  · have huntouched := (reach_spaceInvariant hreach).untouched
      (show Op.Fits s0 (.putWithMetaFromFile path (io.read file) metaLen) from trivial) hexec
    simp only [hexec]
    refine ⟨?_, fun info hinfo => huntouched.bytes path info hinfo⟩
    rw [huntouched.files]
    rfl
  · simp only [hexec] at hfail
    cases hfail

/-- What a cluster makes of the file: the body, and the last bytes as the metadata. -/
def bodyOf (file : Bytes) (metaLen : UInt16) : Bytes := file.take (file.length - metaLen.toNat)

def metaOf (file : Bytes) (metaLen : UInt16) : Bytes := file.drop (file.length - metaLen.toNat)

/-- A write that changes nothing unless it succeeds: a raw store has no other. In a cluster the file cannot be read, enough
    shards take the write, or it is undone on every store that is sent it. -/
def Spares (b : StoreBackend) (io : FileIo) (path : Key) (file : Bytes) (metaLen : UInt16) : Prop :=
  match b with
  | .raw _ => True
  | .sharded refs s =>
    let rounds := s.fileRounds refs path (bodyOf file metaLen) (metaOf file metaLen)
    (io.read file).fails = true ∨ s.cluster.config.minWrites ≤ rounds.2.length ∨
      s.Undone refs path (bodyOf file metaLen) (metaOf file metaLen) rounds

theorem unchanged_of_failed_sharded_iff {refs : RawRefRegistry} {s : Sys} (hs : refs.Matches s.cluster) (now : DateTime)
    (io : FileIo) (path : Key) {file : Bytes} {metaLen : UInt16} (hlen : metaLen.toNat ≤ file.length) :
    (((StoreBackend.sharded refs s).putWithMetaFromFile now io path file metaLen).1 = false →
      (StoreBackend.sharded refs s).Unchanged path ((StoreBackend.sharded refs s).putWithMetaFromFile now io path file metaLen).2) ↔
      (StoreBackend.sharded refs s).Spares io path file metaLen := by
  have hfile : bodyOf file metaLen ++ metaOf file metaLen = file := List.take_append_drop _ _
  have hmeta : (metaOf file metaLen).length = metaLen.toNat := by
    unfold metaOf
    rw [List.length_drop]
    omega
  have hwritten : Written refs path (bodyOf file metaLen) (metaOf file metaLen) metaLen
      (s.fileRounds refs path (bodyOf file metaLen) (metaOf file metaLen)) s _ _ := written_putWithMetaFromFile hs hmeta
  rw [hfile] at hwritten
  unfold putWithMetaFromFile Spares
  dsimp only
  by_cases hfails : (io.read file).fails = true
  · rw [if_pos hfails]
    exact iff_of_true (fun _ => Unchanged.refl path _) (.inl hfails)
  rw [if_neg hfails]
  rcases hexec : (Sharded.putWithMetaFromFile refs path file metaLen).exec s with ⟨e | _, s'⟩
  · rw [hexec] at hwritten
    obtain ⟨hok, hcatalog⟩ := hwritten.ok_iff
    have hfew : ¬ s.cluster.config.minWrites ≤ (s.fileRounds refs path (bodyOf file metaLen) (metaOf file metaLen)).2.length :=
      fun hle => nomatch hok.mpr hle
    have hsame := hwritten.sameAt_iff hs (Nat.lt_of_not_le hfew)
    constructor
    · intro hkept
      exact .inr (.inr (hsame.mp (hkept rfl).2))
    · intro hspared _
      refine ⟨by rw [hcatalog (by simp)], hsame.mpr ?_⟩
      rcases hspared with h | h | h
      · exact absurd h hfails
      · exact absurd h hfew
      · exact h
  · rw [hexec] at hwritten
    exact iff_of_true (fun h => nomatch h) (.inr (.inl (hwritten.ok_iff.1.mp rfl)))

/-- A write that fails leaves the object just if the backend spares it. -/
theorem unchanged_of_failed_iff {b : StoreBackend} (hb : b.Valid) (now : DateTime) (io : FileIo) (path : Key) {file : Bytes}
    {metaLen : UInt16} (hlen : metaLen.toNat ≤ file.length) :
    ((b.putWithMetaFromFile now io path file metaLen).1 = false →
      b.Unchanged path (b.putWithMetaFromFile now io path file metaLen).2) ↔ b.Spares io path file metaLen := by
  cases b with
  | raw s => exact iff_of_true (fun hfail => unchanged_of_failed_raw hb hfail) trivial
  | sharded refs s => exact unchanged_of_failed_sharded_iff hb now io path hlen

end Writes

end StoreBackend

end ObjStr.S3
