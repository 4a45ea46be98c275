/-
  ObjStr.Raw.ReadOnly — a store that was opened read-only (`store.rs`).

  Each operation checks `read_only` itself, some after checks of their arguments, some by the allocator they lack. Two
  do not check it at all: `set_meta_len` and the abort of an upload.
  - `Op.wp_refused`: the others leave the store as it is, and fail with `ReadOnly` if and only if the checks before pass
    (`Op.Guarded`).
  - `read_only_run_iff`: in a run of a store opened read-only every mutating call is refused and nothing changes but by a
    reload, if and only if every call is guarded.
  - `a_read_only_store_is_changed`: the metadata length of an object, set on a store opened read-only.
-/

import ObjStr.Raw.Tombstones

namespace ObjStr.Raw

open ObjStr.Lib DeviceIo

section ReadOnly

variable [Crates] {s s' : Store}

/-! ## What a run of a reader should be -/

/-- What the guard of a call comes after: the checks of its arguments, and the reads it makes first. -/
def Op.Guarded (s : Store) : Op → Prop
  | .putOpts key _ .create => s.files.lookup key = none
  | .putOpts _ _ (.update conditional) => conditional = false
  | .putWithMeta _ _ metadata => metadata.length ≤ u16Max
  | .putWithMetaFromFile _ file _ => s.compression ≠ .none → file.fails = false
  | .copyIfNotExists _ toKey => s.files.lookup toKey = none
  | .updateMetadata key metadata => metadata.length ≤ u16Max ∧ ∃ info, s.files.lookup key = some info ∧
      (0 < info.uncompressedSize → ∃ body s', (compressedBody key info).exec s = (.ok body, s'))
  | .complete _ _ partKeys => partKeys ≠ [] ∧ (∀ k ∈ partKeys, (s.files.lookup k).isSome) ∧
      ∃ plan io, (planParts s.compression (partKeys.filterMap s.files.lookup)).exec s.io = (.ok plan, io) ∧
        numBlocks plan.1 * blockAlignment ≤ u64Max
  | .setMetaLen _ _ | .abort _ => False
  | _ => True

def Call.Guarded (s : Store) : Call → Prop
  | .op o => o.Guarded s
  | _ => True

/-- A new upload has nothing yet, and a reload is not refused. -/
def Call.Mutates : Call → Prop
  | .op (.putMultipart _) | .reloadIndex => False
  | _ => True

/-- What the readers of a store see: the entries, the tombstones, and what each reading call returns. -/
structure SameView (s s' : Store) : Prop where
  files : ∀ k, s'.files.lookup k = s.files.lookup k
  tombstones : ∀ k, s'.tombstones.lookup k = s.tombstones.lookup k
  get : ∀ script key, ((getFull key).exec (s'.withScript script)).1 = ((getFull key).exec (s.withScript script)).1
  getRanged : ∀ script key range, ((getRanged key range).exec (s'.withScript script)).1 =
    ((getRanged key range).exec (s.withScript script)).1
  getMetadata : ∀ script key, ((getMetadata key).exec (s'.withScript script)).1 = ((getMetadata key).exec (s.withScript script)).1
  head : ∀ script key, ((headWithMeta key).exec (s'.withScript script)).1 = ((headWithMeta key).exec (s.withScript script)).1

structure TimedCall where
  call : Call
  now : DateTime
  script : List Outcome

def TimedCall.exec (c : TimedCall) (s : Store) : Except RawStoreError Unit × Store := (c.call.run c.now).exec (s.withScript c.script)

/-- Every mutating call of the run returns `ReadOnly`, and none but a reload changes what readers see. -/
def Store.Immutable : Store → List TimedCall → Prop
  | _, [] => True
  | s, c :: rest => (c.call.Mutates → (c.exec s).1 = .error .readOnly) ∧ (c.call ≠ .reloadIndex → SameView s (c.exec s).2) ∧
      (c.exec s).2.Immutable rest

def Store.AllGuarded : Store → List TimedCall → Prop
  | _, [] => True
  | s, c :: rest => c.call.Guarded (s.withScript c.script) ∧ (c.exec s).2.AllGuarded rest

/-- As `open_readonly` leaves it. -/
structure Store.Reader (s : Store) : Prop where
  readOnly : s.readOnly = true
  allocator : s.allocator = none

/-- Only device calls were made, and uploads numbered. -/
def Unmoved (s s' : Store) : Prop := ∃ io n, Aged s.io io ∧ s' = { s with io := io, nextUploadId := n }

omit [Crates] in
theorem Unmoved.refl (s : Store) : Unmoved s s := ⟨s.io, s.nextUploadId, Aged.refl, rfl⟩

omit [Crates] in
theorem Unmoved.of_io {io : DeviceIo} (h : Aged s.io io) : Unmoved s (s.withIo io) := ⟨io, s.nextUploadId, h, rfl⟩

/-! ## Errors of reads -/

/-- A read ages the device, and does not fail with `ReadOnly`. -/
def Reads {α : Type} (p : IoM α) : Prop :=
  ∀ io, Prog.wp p (fun _ io' => Aged io io') (fun e io' => Aged io io' ∧ e ≠ .readOnly) io

omit [Crates] in
theorem reads_pure {α : Type} (a : α) : Reads (pure a : IoM α) := fun _ => Aged.refl

omit [Crates] in
theorem reads_bind {α β : Type} {p : IoM α} {f : α → IoM β} (hp : Reads p) (hf : ∀ a, Reads (f a)) : Reads (p >>= f) := by
  intro io
  rw [Prog.wp_bind]
  refine Prog.wp_mono (hp io) (fun a io1 h1 => ?_) (fun _ _ h => h)
  exact Prog.wp_mono (hf a io1) (fun _ _ h => h1.trans h) (fun _ _ h => ⟨h1.trans h.1, h.2⟩)

omit [Crates] in
theorem reads_ofExcept {α : Type} {r : Except RawStoreError α} (h : r ≠ .error .readOnly) : Reads (ofExcept r) := by
  intro io
  rw [wp_ofExcept]
  cases r with
  | ok a => exact Aged.refl
  | error e => exact ⟨Aged.refl, fun he => h (by rw [he])⟩

omit [Crates] in
theorem reads_foldlM {α β : Type} {f : β → α → IoM β} (hf : ∀ b a, Reads (f b a)) (l : List α) (b : β) :
    Reads (l.foldlM f b) := by
  induction l generalizing b with
  | nil => exact reads_pure b
  | cons a l ih =>
    rw [List.foldlM_cons]
    exact reads_bind (hf b a) ih

omit [Crates] in
theorem reads_readExactAt (offset len : Nat) : Reads (readExactAt offset len) := by
  intro io
  unfold readExactAt
  rw [Prog.wp_bind]
  refine wp_nextOutcome fun o io1 h1 _ => ?_
  cases o with
  | done =>
    dsimp only
    rw [Prog.wp_bind, Prog.wp_get]
    split
    · exact ⟨h1, nofun⟩
    · exact h1
  | failed landed => exact ⟨h1, nofun⟩

omit [Crates] in
theorem reads_pread (offset len : Nat) : Reads (pread offset len) := by
  intro io
  unfold pread
  split
  · exact Aged.refl
  · rw [Prog.wp_bind, Prog.wp_get]
    split
    · split
      · exact ⟨Aged.refl, nofun⟩
      · exact reads_bind (reads_readExactAt offset _) (fun _ => reads_pure _) io
    · exact reads_readExactAt offset len io

theorem foldlM_decodeStep_ne (raw : Bytes) (first len : Nat) (l : List Nat) (content : Bytes) :
    l.foldlM (decodeStep raw first len) content ≠ .error .readOnly :=
  fun h => foldlM_decodeStep_error h

theorem reads_readPayload (c : Compression) (info : ExtentInfo) : Reads (readPayload c info) := by
  have hread : Reads (readAndDecodeBatched info.offset info.size) :=
    reads_foldlM (fun _ _ => reads_bind (reads_pread _ _) fun _ => reads_ofExcept (foldlM_decodeStep_ne _ _ _ _ _)) _ _
  refine reads_bind hread fun content => ?_
  split
  · refine reads_ofExcept ?_
    unfold Compression.decompress
    split
    · exact nofun
    · split
      · exact nofun
      · exact nofun
  · exact reads_pure content

theorem reads_planParts (c : Compression) (parts : List ExtentInfo) : Reads (planParts c parts) := by
  unfold planParts
  dsimp only
  split
  · refine reads_bind ?_ fun _ => reads_pure _
    refine reads_bind (reads_foldlM (fun _ info => reads_bind (reads_readPayload c info) fun _ => reads_pure _) _ _) fun _ => ?_
    refine reads_ofExcept ?_
    split
    · exact nofun
    · exact nofun
  · exact reads_pure _

omit [Crates] in
theorem reads_nameCorruption {α : Type} {key : Key} {p : IoM α} (hp : Reads p) : Reads (nameCorruption key p) := by
  intro io
  have h := hp io
  unfold Prog.wp at h ⊢
  unfold nameCorruption
  cases hrun : p io with
  | mk r io' =>
    rw [hrun] at h
    cases r with
    | ok a => exact h
    | error e =>
      cases e with
      | dataCorruption path expected actual => exact ⟨h.1, nofun⟩
      | _ => exact h

/-- The body of a compressed object. -/
theorem wp_compressedBody_ne (key : Key) {info : ExtentInfo} (hk : s.files.lookup key = some info) :
    Prog.wp (compressedBody key info) (fun _ s' => ∃ io, Aged s.io io ∧ s' = s.withIo io)
      (fun e s' => e ≠ .readOnly ∧ ∃ io, Aged s.io io ∧ s' = s.withIo io) s := by
  unfold compressedBody
  split
  · exact ⟨s.io, Aged.refl, rfl⟩
  · unfold doGet
    rw [Prog.wp_bind, Prog.wp_bind]
    refine wp_getFile (fun info' hk' => ?_) (fun hnone => nomatch hk.symm.trans hnone)
    rw [Prog.wp_bind, Prog.wp_get, Prog.wp_bind, wp_onDevice]
    exact Prog.wp_mono (reads_nameCorruption (reads_readPayload s.compression info') s.io) (fun _ io h => ⟨io, h, rfl⟩)
      fun _ io h => ⟨h.2, io, h.1, rfl⟩

/-! ## Calls -/

omit [Crates] in
/-- The guard. -/
theorem wp_guard {E : RawStoreError → Store → Prop} {Q : Unit → Store → Prop} (h : s.Reader) (he : E .readOnly s) :
    Prog.wp (Prog.failIf (s.readOnly = true) .readOnly) Q E s :=
  Prog.wp_failIf _ _ |>.mpr ⟨fun _ => he, fun hw => absurd h.readOnly hw⟩

theorem wp_doPutWithMeta_refused {E : RawStoreError → Store → Prop} {Q : Unit → Store → Prop} (h : s.Reader) (now : DateTime)
    (key : Key) (payload : Bytes) (metaLen : UInt16) (he : E .readOnly s) :
    Prog.wp (doPutWithMeta now key payload metaLen) Q E s := by
  unfold doPutWithMeta
  rw [Prog.wp_bind, Prog.wp_get, Prog.wp_bind]
  exact wp_guard h he

theorem wp_doCopy_refused {E : RawStoreError → Store → Prop} {Q : Unit → Store → Prop} (h : s.Reader) (now : DateTime)
    (fromKey toKey : Key) (he : E .readOnly s) : Prog.wp (doCopy now fromKey toKey) Q E s := by
  unfold doCopy
  rw [Prog.wp_bind, Prog.wp_get, Prog.wp_bind]
  exact wp_guard h he

/-- An operation that is refused: it leaves the store, and fails with `ReadOnly` exactly if its guard is reached. -/
def Op.RefusedBy (op : Op) (s : Store) (e : RawStoreError) (s' : Store) : Prop :=
  Unmoved s s' ∧ (e = .readOnly ↔ op.Guarded s)

theorem Op.refusedBy_guard {op : Op} (hg : op.Guarded s) : op.RefusedBy s .readOnly s :=
  ⟨.refl s, iff_of_true rfl hg⟩

theorem Op.refusedBy_other {op : Op} {e : RawStoreError} (hu : Unmoved s s') (he : e ≠ .readOnly) (hg : ¬ op.Guarded s) :
    op.RefusedBy s e s' := ⟨hu, iff_of_false he hg⟩

theorem wp_updateMetadata_refused (h : s.Reader) (now : DateTime) (key : Key) (metadata : Bytes) :
    Prog.wp (updateMetadata now key metadata) (fun _ _ => False) ((Op.updateMetadata key metadata).RefusedBy s) s := by
  unfold updateMetadata
  rw [Prog.wp_bind, Prog.wp_failIf]
  refine ⟨fun hlong => Op.refusedBy_other (.refl s) nofun fun hg => absurd hlong (Nat.not_lt.mpr hg.1), fun hfits => ?_⟩
  have hfits := Nat.not_lt.mp hfits
  rw [Prog.wp_bind]
  refine wp_getFile (fun info hk => ?_) (fun hnone => ?_)
  · by_cases hcomp : 0 < info.uncompressedSize
    · rw [if_pos hcomp, Prog.wp_bind]
      have hread := wp_compressedBody_ne key hk
      cases hrun : (compressedBody key info).exec s with
      | mk r s1 =>
        cases r with
        | ok body =>
          rw [Prog.wp_of_ok hrun] at hread ⊢
          obtain ⟨io, ha, rfl⟩ := hread
          refine wp_doPutWithMeta_refused (s := s.withIo io) ⟨h.readOnly, h.allocator⟩ now key _ _ ⟨.of_io ha, ?_⟩
          exact iff_of_true rfl ⟨hfits, info, hk, fun _ => ⟨body, _, hrun⟩⟩
        | error e =>
          rw [Prog.wp_of_error hrun] at hread ⊢
          obtain ⟨he, io, ha, rfl⟩ := hread
          refine Op.refusedBy_other (.of_io ha) he fun hg => ?_
          obtain ⟨-, info', hk', hbody⟩ := hg
          obtain rfl := Option.some.inj (hk.symm.trans hk')
          obtain ⟨body, s2, hok⟩ := hbody hcomp
          rw [hrun] at hok
          cases hok
    · rw [if_neg hcomp, Prog.wp_bind, Prog.wp_get, Prog.wp_bind]
      exact wp_guard h (Op.refusedBy_guard ⟨hfits, info, hk, fun hc => absurd hc hcomp⟩)
  · refine Op.refusedBy_other (.refl s) nofun fun hg => ?_
    obtain ⟨-, info, hk, -⟩ := hg
    rw [hnone] at hk
    cases hk

theorem wp_complete_refused (h : s.Reader) (now : DateTime) (tmp : TempFile) (location : Key) (partKeys : List Key) :
    Prog.wp (complete now tmp location partKeys) (fun _ _ => False) ((Op.complete tmp location partKeys).RefusedBy s) s := by
  unfold complete
  rw [Prog.wp_bind, Prog.wp_failIf]
  refine ⟨fun hnone => Op.refusedBy_other (.refl s) nofun fun hg => hg.1 hnone, fun hsome => ?_⟩
  rw [Prog.wp_bind]
  cases hfind : partKeys.find? fun k => (s.files.lookup k).isNone with
  | some k =>
    have hrun : (partInfos partKeys).exec s = (.error (.notFound k), s) := by
      unfold Prog.exec partInfos
      simp only [hfind]
    rw [Prog.wp_of_error hrun]
    refine Op.refusedBy_other (.refl s) nofun fun hg => ?_
    have hmissing := List.find?_some hfind
    have hlisted := hg.2.1 k (List.mem_of_find?_eq_some hfind)
    rw [Option.isNone_iff_eq_none] at hmissing
    rw [hmissing] at hlisted
    cases hlisted
  | none =>
    have hrun : (partInfos partKeys).exec s = (.ok (partKeys.filterMap s.files.lookup), s) := by
      unfold Prog.exec partInfos
      simp only [hfind]
    have hall : ∀ k ∈ partKeys, (s.files.lookup k).isSome := by
      intro k hk
      have := List.find?_eq_none.mp hfind k hk
      rw [Option.isNone_iff_eq_none] at this
      exact Option.isSome_iff_ne_none.mpr this
    rw [Prog.wp_of_ok hrun, Prog.wp_bind, Prog.wp_get, Prog.wp_bind, wp_onDevice]
    have hread := reads_planParts s.compression (partKeys.filterMap s.files.lookup) s.io
    cases hplan : (planParts s.compression (partKeys.filterMap s.files.lookup)).exec s.io with
    | mk r io =>
      cases r with
      | error e =>
        rw [Prog.wp_of_error hplan] at hread ⊢
        refine Op.refusedBy_other (.of_io hread.1) hread.2 fun hg => ?_
        obtain ⟨-, -, plan, io', hok, -⟩ := hg
        rw [hplan] at hok
        cases hok
      | ok plan =>
        rw [Prog.wp_of_ok hplan] at hread ⊢
        dsimp only
        rw [Prog.wp_bind, wp_ofExcept]
        unfold paddedExtentSize
        by_cases hmax : numBlocks plan.1 * blockAlignment ≤ u64Max
        · rw [if_pos hmax]
          dsimp only
          have halloc : (allocExtent (numBlocks plan.1 * blockAlignment)).exec (s.withIo io) = (.error .readOnly, s.withIo io) := by
            unfold Prog.exec allocExtent
            have hnone : (s.withIo io).allocator = none := h.allocator
            rw [hnone]
          unfold allocWrite
          rw [Prog.wp_bind, Prog.wp_bind, Prog.wp_of_error halloc]
          exact ⟨.of_io hread, iff_of_true rfl ⟨hsome, hall, plan, io, hplan, hmax⟩⟩
        · rw [if_neg hmax]
          refine Op.refusedBy_other (.of_io hread) nofun fun hg => ?_
          obtain ⟨-, -, plan', io', hok, hfits⟩ := hg
          rw [hplan] at hok
          cases hok
          exact hmax hfits

def Op.Checked : Op → Prop
  | .setMetaLen _ _ | .abort _ | .putMultipart _ => False
  | _ => True

/-- An operation with a guard is refused. -/
theorem Op.wp_refused (h : s.Reader) (now : DateTime) (op : Op) (hop : op.Checked) :
    Prog.wp (op.run now) (fun _ _ => False) (op.RefusedBy s) s := by
  cases op with
  | putOpts key payload mode =>
    show Prog.wp (Raw.putOpts now key payload mode) _ _ _
    unfold Raw.putOpts
    rw [Prog.wp_bind, Prog.wp_get]
    cases mode with
    | create =>
      dsimp only
      rw [Prog.wp_bind, Prog.wp_failIf]
      refine ⟨fun hexists => Op.refusedBy_other (.refl s) nofun fun hg => ?_, fun hfree => ?_⟩
      · rw [show s.files.lookup key = none from hg] at hexists
        cases hexists
      · have hnone : s.files.lookup key = none := by simpa using hfree
        exact wp_doPutWithMeta_refused h now key payload 0 (Op.refusedBy_guard hnone)
    | overwrite => exact wp_doPutWithMeta_refused h now key payload 0 (Op.refusedBy_guard trivial)
    | update conditional =>
      dsimp only
      rw [Prog.wp_bind, Prog.wp_failIf]
      refine ⟨fun hcond => Op.refusedBy_other (.refl s) nofun fun hg => ?_, fun hplain => ?_⟩
      · rw [show conditional = false from hg] at hcond
        cases hcond
      · have hfalse : conditional = false := by simpa using hplain
        exact wp_doPutWithMeta_refused h now key payload 0 (Op.refusedBy_guard hfalse)
  | putWithMeta key body metadata =>
    show Prog.wp (Raw.putWithMeta now key body metadata) _ _ _
    unfold Raw.putWithMeta
    rw [Prog.wp_bind, Prog.wp_failIf]
    refine ⟨fun hlong => Op.refusedBy_other (.refl s) nofun fun hg => absurd hlong (Nat.not_lt.mpr hg), fun hfits => ?_⟩
    exact wp_doPutWithMeta_refused h now key _ _ (Op.refusedBy_guard (Nat.not_lt.mp hfits))
  | putWithMetaFromFile key file metaLen =>
    show Prog.wp (Raw.putWithMetaFromFile now key file metaLen) _ _ _
    unfold Raw.putWithMetaFromFile
    rw [Prog.wp_bind, Prog.wp_get]
    by_cases hcomp : s.compression ≠ .none
    · rw [if_pos hcomp, Prog.wp_bind, Prog.wp_failIf]
      refine ⟨fun hfails => Op.refusedBy_other (.refl s) nofun fun hg => ?_, fun hreads => ?_⟩
      · rw [show file.fails = false from hg hcomp] at hfails
        cases hfails
      · have hfalse : file.fails = false := by simpa using hreads
        exact wp_doPutWithMeta_refused h now key _ _ (Op.refusedBy_guard fun _ => hfalse)
    · rw [if_neg hcomp, Prog.wp_bind]
      exact wp_guard h (Op.refusedBy_guard fun hc => absurd hc hcomp)
  | copy fromKey toKey => exact wp_doCopy_refused h now fromKey toKey (Op.refusedBy_guard trivial)
  | copyIfNotExists fromKey toKey =>
    show Prog.wp (Raw.copyIfNotExists now fromKey toKey) _ _ _
    unfold Raw.copyIfNotExists
    rw [Prog.wp_bind, Prog.wp_get, Prog.wp_bind, Prog.wp_failIf]
    refine ⟨fun hexists => Op.refusedBy_other (.refl s) nofun fun hg => ?_, fun hfree => ?_⟩
    · rw [show s.files.lookup toKey = none from hg] at hexists
      cases hexists
    · have hnone : s.files.lookup toKey = none := by simpa using hfree
      exact wp_doCopy_refused h now fromKey toKey (Op.refusedBy_guard hnone)
  | rename fromKey toKey =>
    show Prog.wp (Raw.rename fromKey toKey) _ _ _
    unfold Raw.rename
    rw [Prog.wp_bind, Prog.wp_get, Prog.wp_bind]
    exact wp_guard h (Op.refusedBy_guard trivial)
  | renameIfNotExists fromKey toKey =>
    show Prog.wp (Raw.renameIfNotExists fromKey toKey) _ _ _
    unfold Raw.renameIfNotExists
    rw [Prog.wp_bind, Prog.wp_get, Prog.wp_bind]
    exact wp_guard h (Op.refusedBy_guard trivial)
  | delete key =>
    show Prog.wp (Raw.delete key) _ _ _
    unfold Raw.delete
    rw [Prog.wp_bind, Prog.wp_get, Prog.wp_bind]
    exact wp_guard h (Op.refusedBy_guard trivial)
  | updateMetadata key metadata => exact wp_updateMetadata_refused h now key metadata
  | putPart partKey payload => exact wp_doPutWithMeta_refused h now partKey payload 0 (Op.refusedBy_guard trivial)
  | complete tmp location partKeys => exact wp_complete_refused h now tmp location partKeys
  | deleteTombstone path =>
    show Prog.wp (Raw.deleteTombstone path >>= fun _ => pure ()) _ _ _
    unfold Raw.deleteTombstone
    rw [Prog.wp_bind, Prog.wp_bind, Prog.wp_get, Prog.wp_bind]
    exact wp_guard h (Op.refusedBy_guard trivial)
  | clearTombstones =>
    show Prog.wp (Raw.clearTombstones >>= fun _ => pure ()) _ _ _
    unfold Raw.clearTombstones
    rw [Prog.wp_bind, Prog.wp_bind, Prog.wp_get, Prog.wp_bind]
    exact wp_guard h (Op.refusedBy_guard trivial)
  | scrubFreeSpace =>
    show Prog.wp Raw.scrubFreeSpace _ _ _
    unfold Raw.scrubFreeSpace
    rw [Prog.wp_bind, Prog.wp_get, Prog.wp_bind]
    exact wp_guard h (Op.refusedBy_guard trivial)
  | setMetaLen | abort | putMultipart => exact hop.elim

/-! ## Readers -/

/-- The number of the next upload does not matter. -/
def Blind {α : Type} (p : StoreM α) : Prop :=
  ∀ s n, p.exec { s with nextUploadId := n } = ((p.exec s).1, { (p.exec s).2 with nextUploadId := n })

omit [Crates] in
theorem blind_bind {α β : Type} {p : StoreM α} {f : α → StoreM β} (hp : Blind p) (hf : ∀ a, Blind (f a)) : Blind (p >>= f) := by
  intro s n
  rw [Prog.exec_bind, Prog.exec_bind, hp s n]
  cases hrun : p.exec s with
  | mk r s1 =>
    cases r with
    | ok a => exact hf a s1 n
    | error e => rfl

omit [Crates] in
theorem blind_get {β : Type} {f : Store → StoreM β} (hsame : ∀ s n, f { s with nextUploadId := n } = f s)
    (hf : ∀ s, Blind (f s)) : Blind (get >>= f) := by
  intro s n
  rw [Prog.exec_bind, Prog.exec_bind, Prog.exec_get, Prog.exec_get]
  dsimp only
  rw [hsame]
  exact hf s s n

omit [Crates] in
theorem blind_pure {α : Type} (a : α) : Blind (pure a : StoreM α) := fun _ _ => rfl

omit [Crates] in
theorem blind_failIf (c : Prop) [Decidable c] (e : RawStoreError) : Blind (Prog.failIf c e : StoreM Unit) := by
  intro s n
  rw [Prog.exec_failIf, Prog.exec_failIf]
  split
  · rfl
  · rfl

omit [Crates] in
theorem blind_onDevice {α : Type} (p : IoM α) : Blind (onDevice p) := fun _ _ => rfl

omit [Crates] in
theorem blind_getFile (key : Key) : Blind (getFile key) := by
  intro s n
  unfold Prog.exec getFile
  dsimp only
  cases s.files.lookup key with
  | none => rfl
  | some info => rfl

theorem blind_doGet (key : Key) : Blind (doGet key) :=
  blind_bind (blind_getFile key) fun _ => blind_get (fun _ _ => rfl) fun _ => blind_bind (blind_onDevice _) fun _ => blind_pure _

theorem blind_doGetRange (key : Key) (start stop : Nat) : Blind (doGetRange key start stop) := by
  refine blind_bind (blind_getFile key) fun info => ?_
  split
  · exact blind_bind (blind_failIf _ _) fun _ => blind_bind (blind_doGet key) fun _ => blind_pure _
  · exact blind_bind (blind_onDevice _) fun _ => blind_pure _

theorem blind_getMetadata (key : Key) : Blind (getMetadata key) := by
  refine blind_bind (blind_getFile key) fun info => ?_
  split
  · exact blind_pure _
  · exact blind_bind (blind_doGetRange key _ _) fun _ => blind_pure _

theorem blind_getRanged (key : Key) (range : GetRange) : Blind (getRanged key range) :=
  blind_bind (blind_getFile key) fun _ => blind_bind (blind_doGetRange key _ _) fun _ => blind_pure _

theorem blind_getFull (key : Key) : Blind (getFull key) :=
  blind_bind (blind_bind (blind_getFile key) fun _ => blind_get (fun _ _ => rfl) fun _ => blind_onDevice _) fun _ => blind_onDevice _

omit [Crates] in
theorem blind_headWithMeta (key : Key) : Blind (headWithMeta key) := blind_bind (blind_getFile key) fun _ => blind_pure _

omit [Crates] in
theorem Unmoved.withScript (h : Unmoved s s') (script : List Outcome) :
    ∃ n, s'.withScript script = { s.withScript script with nextUploadId := n } := by
  obtain ⟨io, n, ha, rfl⟩ := h
  refine ⟨n, ?_⟩
  have hio : { io with script := script } = { s.io with script := script } := by
    cases io
    cases hs : s.io
    obtain ⟨hdev, hlog, hdirect, hro, -⟩ := ha
    rw [hs] at hdev hlog hdirect hro
    simp only at hdev hlog hdirect hro
    rw [hdev, hlog, hdirect, hro]
  unfold Store.withScript Store.withIo
  rw [hio]

theorem Unmoved.sameView (h : Unmoved s s') : SameView s s' := by
  have hblind : ∀ {α : Type} {p : StoreM α}, Blind p → ∀ script, (p.exec (s'.withScript script)).1 = (p.exec (s.withScript script)).1 := by
    intro α p hp script
    obtain ⟨n, hn⟩ := h.withScript script
    rw [hn, hp]
  refine ⟨?_, ?_, fun script key => hblind (blind_getFull key) script, fun script key range => hblind (blind_getRanged key range) script,
    fun script key => hblind (blind_getMetadata key) script, fun script key => hblind (blind_headWithMeta key) script⟩
  · obtain ⟨io, n, -, rfl⟩ := h
    exact fun _ => rfl
  · obtain ⟨io, n, -, rfl⟩ := h
    exact fun _ => rfl

omit [Crates] in
theorem Unmoved.reader (h : Unmoved s s') (hr : s.Reader) : s'.Reader := by
  obtain ⟨io, n, -, rfl⟩ := h
  exact ⟨hr.readOnly, hr.allocator⟩

/-! ## Runs -/

omit [Crates] in
theorem Store.Reader.withScript (h : s.Reader) (script : List Outcome) : (s.withScript script).Reader := ⟨h.readOnly, h.allocator⟩

theorem SameView.of_script {script : List Outcome} (h : SameView (s.withScript script) s') : SameView s s' :=
  ⟨h.files, h.tombstones, h.get, h.getRanged, h.getMetadata, h.head⟩

theorem reader_dropFile (h : s.Reader) (key : Key) : (s.dropFile key).Reader := by
  unfold Store.dropFile
  split
  · refine ⟨?_, ?_⟩
    · show (s.removeFile key).readOnly = true
      unfold Store.removeFile
      split
      · exact h.readOnly
      · exact h.readOnly
    · show (s.removeFile key).allocator = none
      unfold Store.removeFile
      split
      · show s.allocator.map _ = none
        rw [h.allocator]
        rfl
      · exact h.allocator
  · exact h

theorem reader_dropParts (h : s.Reader) (ks : List Key) : (s.dropParts ks).Reader := by
  induction ks generalizing s with
  | nil => exact h
  | cons k ks ih => exact ih (reader_dropFile h k)

theorem wp_reloadIndex_reader (h : s.Reader) :
    Prog.wp reloadIndex (fun _ s' => s'.Reader) (fun _ s' => s'.Reader) s := by
  have hio : ∀ {α : Type} (p : IoM α) (t : Store), t.Reader →
      Prog.wp (onDevice p) (fun _ t' => t'.Reader) (fun _ t' => t'.Reader) t := fun p t ht =>
    wp_onDevice.mpr (Prog.wp_mono (wp_any p t.io) (fun _ _ _ => ⟨ht.readOnly, ht.allocator⟩) fun _ _ _ => ⟨ht.readOnly, ht.allocator⟩)
  unfold reloadIndex
  rw [Prog.wp_bind]
  refine Prog.wp_mono (hio _ s h) (fun newSb s1 h1 => ?_) (fun _ _ h => h)
  rw [Prog.wp_bind, Prog.wp_get]
  split
  · exact h1
  · rw [Prog.wp_bind]
    refine Prog.wp_mono (Prog.wp_forM (fun _ t => t.Reader) _ h1 fun i _ t ht => ?_) (fun _ s2 h2 => ?_) (fun _ _ h => h)
    · unfold reloadShard
      rw [Prog.wp_bind, Prog.wp_get]
      split
      · exact ht
      · rw [Prog.wp_bind, Prog.wp_modify, Prog.wp_bind]
        refine Prog.wp_mono (hio _ _ ⟨ht.readOnly, ht.allocator⟩) (fun d t1 h1 => ?_) (fun _ _ h => h)
        exact ⟨h1.readOnly, h1.allocator⟩
    · rw [Prog.wp_bind, Prog.wp_modify]
      refine ⟨h2.readOnly, ?_⟩
      show (if s2.readOnly = true then s2.allocator else _) = none
      rw [if_pos h2.readOnly]
      exact h2.allocator

/-- What a call does to a store that was opened read-only, between reloads. -/
theorem Call.wp_reader (h : s.Reader) (now : DateTime) (c : Call) (hc : c ≠ .reloadIndex) :
    Prog.wp (c.run now) (fun _ s' => s'.Reader ∧ ¬ (c.Mutates ∧ c.Guarded s) ∧ (c.Guarded s → Unmoved s s'))
      (fun e s' => s'.Reader ∧ (c.Mutates → (e = .readOnly ↔ c.Guarded s)) ∧ (c.Guarded s → Unmoved s s')) s := by
  cases c with
  | op o =>
    by_cases hop : o.Checked
    · refine Prog.wp_mono (o.wp_refused h now hop) (fun _ _ h => h.elim) (fun e s' he => ?_)
      exact ⟨he.1.reader h, fun _ => he.2, fun _ => he.1⟩
    · cases o with
      | setMetaLen key metaLen =>
        show Prog.wp (setMetaLen key metaLen) _ _ s
        unfold setMetaLen
        rw [Prog.wp_bind]
        refine wp_getFile (fun info _ => ?_) fun _ => ⟨h, fun _ => iff_of_false nofun id, fun hg => hg.elim⟩
        exact ⟨⟨h.readOnly, h.allocator⟩, fun hg => hg.2, fun hg => hg.elim⟩
      | abort partKeys =>
        have hdrop := reader_dropParts h partKeys
        exact ⟨⟨hdrop.readOnly, hdrop.allocator⟩, fun hg => hg.2, fun hg => hg.elim⟩
      | putMultipart location =>
        exact ⟨⟨h.readOnly, h.allocator⟩, fun hg => hg.1, fun _ => ⟨s.io, s.nextUploadId + 1, Aged.refl, rfl⟩⟩
      | _ => exact absurd trivial hop
  | flushIndex =>
    show Prog.wp Raw.flushIndex _ _ s
    unfold Raw.flushIndex
    rw [Prog.wp_bind, Prog.wp_get, Prog.wp_bind]
    exact wp_guard h ⟨h, fun _ => iff_of_true rfl trivial, fun _ => .refl s⟩
  | repair =>
    show Prog.wp Raw.repair _ _ s
    unfold Raw.repair
    rw [Prog.wp_bind, Prog.wp_get, Prog.wp_bind]
    exact wp_guard h ⟨h, fun _ => iff_of_true rfl trivial, fun _ => .refl s⟩
  | reloadIndex => exact absurd rfl hc

theorem reader_exec (h : s.Reader) (c : TimedCall) : (c.exec s).2.Reader := by
  have hs := h.withScript c.script
  by_cases hc : c.call = .reloadIndex
  · unfold TimedCall.exec
    rw [hc]
    show (Prog.exec (reloadIndex >>= fun _ => pure ()) (s.withScript c.script)).2.Reader
    refine Prog.wp_state ?_
    rw [Prog.wp_bind]
    exact wp_reloadIndex_reader hs
  · exact Prog.wp_state (Prog.wp_mono (c.call.wp_reader hs c.now hc) (fun _ _ h => h.1) (fun _ _ h => h.1))

theorem Call.mutates_of_not_guarded {c : Call} (h : ¬ c.Guarded s) : c.Mutates := by
  cases c with
  | op o =>
    cases o with
    | putMultipart location => exact absurd trivial h
    | _ => trivial
  | flushIndex => trivial
  | repair => trivial
  | reloadIndex => exact absurd trivial h

/-- A call is refused and changes nothing, exactly if it reaches its guard. -/
theorem call_immutable_iff (h : s.Reader) (c : TimedCall) :
    ((c.call.Mutates → (c.exec s).1 = .error .readOnly) ∧ (c.call ≠ .reloadIndex → SameView s (c.exec s).2)) ↔
      c.call.Guarded (s.withScript c.script) := by
  by_cases hc : c.call = .reloadIndex
  · rw [hc]
    exact iff_of_true ⟨fun hm => hm.elim, fun hne => absurd rfl hne⟩ trivial
  have hwp := c.call.wp_reader (h.withScript c.script) c.now hc
  unfold TimedCall.exec
  cases hrun : (c.call.run c.now).exec (s.withScript c.script) with
  | mk r s1 =>
    cases r with
    | ok u =>
      obtain ⟨-, hnot, hsame⟩ := (Prog.wp_of_ok hrun).mp hwp
      constructor
      · intro him
        by_contra hg
        cases him.1 (Call.mutates_of_not_guarded hg)
      · intro hg
        exact ⟨fun hm => absurd ⟨hm, hg⟩ hnot, fun _ => (hsame hg).sameView.of_script⟩
    | error e =>
      obtain ⟨-, hiff, hsame⟩ := (Prog.wp_of_error hrun).mp hwp
      constructor
      · intro him
        by_contra hg
        have hmutates := Call.mutates_of_not_guarded hg
        exact hg ((hiff hmutates).mp (Except.error.inj (him.1 hmutates)))
      · intro hg
        exact ⟨fun hm => congrArg Except.error ((hiff hm).mpr hg), fun _ => (hsame hg).sameView.of_script⟩

theorem immutable_iff (h : s.Reader) (calls : List TimedCall) : s.Immutable calls ↔ s.AllGuarded calls := by
  induction calls generalizing s with
  | nil => exact Iff.rfl
  | cons c rest ih =>
    unfold Store.Immutable Store.AllGuarded
    rw [← ih (reader_exec h c), ← call_immutable_iff h c, and_assoc]

/-- In a run of a store opened read-only, every mutating call is refused and what readers see changes by a reload alone, if
    and only if every call reaches its guard. -/
theorem read_only_run_iff {d : Disk} {mode : OpenMode} {script : List Outcome} {io : DeviceIo}
    (hopen : (openImpl mode true).exec (.onDisk d true script) = (.ok s, io)) (calls : List TimedCall) :
    s.Immutable calls ↔ s.AllGuarded calls := by
  obtain ⟨sb, l, loaded, stale, hopened⟩ := Prog.wp_ok (wp_openImpl mode true) hopen
  obtain ⟨c, io', -, -, rfl⟩ := hopened.store
  exact immutable_iff ⟨rfl, rfl⟩ calls

end ReadOnly

/-! ### An object on a read-only store -/

section Sample

open Sample

/-- A device with one object, opened read-only without a scan. -/
theorem Sample.opened_read_only : ∃ (d : Disk) (s : Store) (io : DeviceIo) (info : ExtentInfo),
    (openImpl .skipVerify true).exec (.onDisk d true []) = (.ok s, io) ∧ s.files.lookup "k" = some info := by
  obtain ⟨io, io', hs, heasy⟩ := oneObject_reached
  have hsane := orderly_sane hs
  obtain ⟨index, his, hvalid, hopens⟩ := image_opens hsane.laid hsane.space (oneObject_fits io io') (fun _ => 0) .skipVerify true
  obtain ⟨s, io2, stale, io3, hopen, hstale, hfiles, -⟩ := hopens (fun stale _ => stale = []) rfl
  have hk : (oneObject io io').files.lookup "k" = some ((options.newStore io).byteInfo dataStart 0) := AList.lookup_insert _
  have hkept : s.files = index.files := by
    rw [hfiles, hstale]
    unfold DeviceIndex.recover
    rw [hvalid]
    rfl
  refine ⟨_, s, io2, (options.newStore io).byteInfo dataStart 0, hopen, ?_⟩
  rw [hkept, his.files, hk]

theorem a_delete_is_refused : ∃ (d : Disk) (s : Store) (io : DeviceIo),
    (openImpl .skipVerify true).exec (.onDisk d true []) = (.ok s, io) ∧ s.Immutable [⟨.op (.delete "k"), 0, []⟩] := by
  obtain ⟨d, s, io, info, hopen, -⟩ := opened_read_only
  exact ⟨d, s, io, hopen, (read_only_run_iff hopen _).mpr ⟨trivial, trivial⟩⟩

/-- `set_meta_len` returns `Ok` on a store opened read-only. -/
theorem a_read_only_store_is_changed : ¬ ∀ (d : Disk) (mode : OpenMode) (script : List Outcome) (s : Store) (io : DeviceIo)
    (calls : List TimedCall), (openImpl mode true).exec (.onDisk d true script) = (.ok s, io) → s.Immutable calls := by
  intro h
  obtain ⟨d, s, io, info, hopen, hk⟩ := opened_read_only
  have himmutable := h d .skipVerify [] s io [⟨.op (.setMetaLen "k" 1), 0, []⟩] hopen
  have hresult : (TimedCall.exec ⟨.op (.setMetaLen "k" 1), 0, []⟩ s).1 = .ok () := by
    show ((setMetaLen "k" 1).exec (s.withScript [])).1 = .ok ()
    have hget : (getFile "k").exec (s.withScript []) = (.ok info, s.withScript []) := by
      unfold Prog.exec getFile
      rw [show (s.withScript []).files.lookup "k" = some info from hk]
    unfold setMetaLen
    rw [Prog.exec_bind, hget]
    rfl
  rw [himmutable.1 trivial] at hresult
  cases hresult

end Sample

end ObjStr.Raw
