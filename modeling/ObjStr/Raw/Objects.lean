/-
  ObjStr.Raw.Objects — the raw store as a map from keys to objects (`store.rs`).

  To its clients the store is a map: a key has no object, or one with a body and metadata. `Op.does` says what each call
  does to that map, and `Op.Admits` which maps a call does not refuse. Neither names an extent, a block, a checksum or the
  device.
  - `Op.serves`: a call that returns does that to the map, one that fails, wherever it fails, does nothing.
  - `a_store_is_a_map`: along every run of calls, flushes and repairs, with device calls that fail as scripted, the store
    holds what the calls that returned have made of the empty map, and every read that no device call fails returns it.
-/

import ObjStr.Raw.ReadOnly
import ObjStr.Raw.Splits

namespace ObjStr.Raw

open ObjStr.Lib DeviceIo

/-! ## Objects -/

structure Object where
  body : Bytes
  metadata : Bytes

def Object.payload (o : Object) : Bytes := o.body ++ o.metadata

/-- A payload that ends with `metaLen` bytes of metadata, as far as it has them. -/
def Object.split (payload : Bytes) (metaLen : Nat) : Object :=
  ⟨payload.take (payload.length - metaLen), payload.drop (payload.length - metaLen)⟩

@[simp] theorem Object.payload_split (payload : Bytes) (metaLen : Nat) : (Object.split payload metaLen).payload = payload :=
  List.take_append_drop _ _

theorem Object.split_append (body metadata : Bytes) : Object.split (body ++ metadata) metadata.length = ⟨body, metadata⟩ := by
  unfold Object.split
  rw [List.length_append, Nat.add_sub_cancel, List.take_left, List.drop_left]

abbrev Objects := Key → Option Object

namespace Objects

def empty : Objects := fun _ => none

def put (m : Objects) (key : Key) (o : Object) : Objects := Function.update m key (some o)

def drop (m : Objects) (keys : List Key) : Objects := fun k => if k ∈ keys then none else m k

def joined (m : Objects) (keys : List Key) : Bytes := (keys.map fun k => ((m k).map Object.payload).getD []).flatten

end Objects

def Op.does (m : Objects) : Op → Objects
  | .putOpts key payload _ => m.put key ⟨payload, []⟩
  | .putWithMeta key body metadata => m.put key ⟨body, metadata⟩
  | .putWithMetaFromFile key file metaLen => m.put key (.split file.reads.flatten metaLen.toNat)
  | .copy fromKey toKey | .copyIfNotExists fromKey toKey => Function.update m toKey (m fromKey)
  | .rename fromKey toKey | .renameIfNotExists fromKey toKey =>
    Function.update (Function.update m fromKey none) toKey (m fromKey)
  | .delete key => m.drop [key]
  | .updateMetadata key metadata => Function.update m key ((m key).map fun o => ⟨o.body, metadata⟩)
  | .setMetaLen key metaLen => Function.update m key ((m key).map fun o => .split o.payload metaLen.toNat)
  | .putMultipart _ => m
  | .putPart partKey payload => m.put partKey ⟨payload, []⟩
  | .complete _ location partKeys => (m.put location ⟨m.joined partKeys, []⟩).drop partKeys
  | .abort partKeys => m.drop partKeys
  | .deleteTombstone _ => m
  | .clearTombstones => m
  | .scrubFreeSpace => m

def Op.Admits (m : Objects) : Op → Prop
  | .putOpts key _ .create => m key = none
  | .putOpts _ _ (.update conditional) => conditional = false
  | .putWithMeta _ _ metadata => metadata.length ≤ u16Max
  | .copy fromKey _ | .rename fromKey _ => m fromKey ≠ none
  | .copyIfNotExists fromKey toKey | .renameIfNotExists fromKey toKey => m fromKey ≠ none ∧ m toKey = none
  | .updateMetadata key metadata => m key ≠ none ∧ metadata.length ≤ u16Max
  | .setMetaLen key _ => m key ≠ none
  | .complete _ _ partKeys => partKeys ≠ [] ∧ ∀ k ∈ partKeys, m k ≠ none
  | _ => True

section Objects

variable [Crates] {s s' s1 : Store} {m m' : Objects} {key : Key} {info : ExtentInfo} {o : Object} {payload : Bytes}

/-! ## What the store holds -/

structure ExtentInfo.Keeps (c : Compression) (d : Disk) (info : ExtentInfo) (o : Object) : Prop where
  stored : Stores c d info o.payload
  split : o.body.length = info.bodySize

/-- A store whose compression is off has no compressed entries. -/
def Store.Plain (s : Store) : Prop := s.compression = .none → ∀ k info, s.files.lookup k = some info → info.uncompressedSize = 0

/-- The store has an entry for every object of the map, and no others. -/
structure Serves (s : Store) (m : Objects) : Prop where
  laid : Laid s
  space : SpaceInv s []
  padded : ContentInv .index s
  plain : s.Plain
  holds : ∀ k, Option.Rel (ExtentInfo.Keeps s.compression s.io.dev) (s.files.lookup k) (m k)

theorem keeps_split (h : Stores s.compression s.io.dev info payload) :
    info.Keeps s.compression s.io.dev (.split payload info.metaLen.toNat) := by
  refine ⟨by rwa [Object.payload_split], ?_⟩
  rw [Object.split, List.length_take, h.length, ExtentInfo.bodySize]
  omega

/-- The object is what the entry's payload splits into. -/
theorem ExtentInfo.Keeps.split_eq {c : Compression} {d : Disk} (h : info.Keeps c d o) :
    o.body = o.payload.take info.bodySize ∧ o.metadata = o.payload.drop info.bodySize := by
  rw [← h.split]
  exact ⟨List.take_left.symm, List.drop_left.symm⟩

theorem ExtentInfo.Keeps.congr {c : Compression} {d e : Disk} (h : info.Keeps c d o)
    (hr : e.read info.offset (numBlocks info.size * blockAlignment) = d.read info.offset (numBlocks info.size * blockAlignment)) :
    info.Keeps c e o := ⟨h.stored.congr hr, h.split⟩

theorem Serves.listed (h : Serves s m) (hk : s.files.lookup key = some info) :
    ∃ o, m key = some o ∧ info.Keeps s.compression s.io.dev o := by
  have hrel := h.holds key
  rw [hk] at hrel
  cases hm : m key with
  | none =>
    rw [hm] at hrel
    cases hrel
  | some o =>
    rw [hm] at hrel
    cases hrel with
    | some hkeeps => exact ⟨o, rfl, hkeeps⟩

theorem Serves.content (h : Serves s m) : ContentInv .content s := fun k info hk =>
  ⟨(h.padded k info hk).padded, fun _ => (h.listed hk).elim fun o ho => ⟨o.payload, ho.2.stored⟩⟩

theorem Serves.lookup_none (h : Serves s m) : s.files.lookup key = none ↔ m key = none := by
  have hrel := h.holds key
  cases hk : s.files.lookup key with
  | none =>
    rw [hk] at hrel
    cases hm : m key with
    | none => simp
    | some o =>
      rw [hm] at hrel
      cases hrel
  | some info =>
    obtain ⟨o, hm, -⟩ := h.listed hk
    simp [hm]

theorem Serves.withScript (h : Serves s m) (script : List Outcome) : Serves (s.withScript script) m :=
  ⟨h.laid.of_frame h.laid.superblock rfl rfl rfl rfl rfl rfl rfl, h.space.congr rfl rfl rfl, h.padded, h.plain, h.holds⟩

/-! ## Entries that are not compressed -/

omit [Crates] in
theorem Store.Plain.congr {t : Store} (h : s.Plain) (hc : t.compression = s.compression) (hf : t.files = s.files) : t.Plain := by
  unfold Store.Plain
  rw [hc, hf]
  exact h

omit [Crates] in
theorem Prep.plain {care : Care} {held : List Span} (hp : Prep care s held s1) (h : s.Plain) : s1.Plain :=
  h.congr hp.compression_eq hp.files_eq

omit [Crates] in
/-- One entry is new, and some are gone. -/
theorem Store.Plain.one {t : Store} (h : s.Plain) (hc : t.compression = s.compression)
    (hnew : s.compression = .none → info.uncompressedSize = 0)
    (hf : ∀ k info', t.files.lookup k = some info' → info' = info ∨ s.files.lookup k = some info') : t.Plain := by
  intro hnone k info' hk
  rw [hc] at hnone
  rcases hf k info' hk with rfl | hk
  · exact hnew hnone
  · exact h hnone k info' hk

theorem Store.Plain.replaceFile (h : s.Plain) (key : Key) (hnew : s.compression = .none → info.uncompressedSize = 0) :
    (s.replaceFile key info).Plain := by
  refine h.one (by rw [framed_replaceFile s key info]) hnew fun k info' hk => ?_
  rw [lookup_replaceFile] at hk
  split at hk
  · exact .inl (Option.some.inj hk).symm
  · exact .inr hk

theorem Store.Plain.insertFile (h : s.Plain) (key : Key) (hnew : s.compression = .none → info.uncompressedSize = 0) :
    (s.insertFile key info).Plain := by
  refine h.one rfl hnew fun k info' hk => ?_
  rcases lookup_insertFile_some hk with ⟨-, rfl⟩ | ⟨-, hk⟩
  · exact .inl rfl
  · exact .inr hk

omit [Crates] in
theorem Store.Plain.fewer {t : Store} (h : s.Plain) (hc : t.compression = s.compression)
    (hf : ∀ k info, t.files.lookup k = some info → s.files.lookup k = some info) : t.Plain := by
  intro hnone k info hk
  rw [hc] at hnone
  exact h hnone k info (hf k info hk)

theorem Store.Plain.dropParts (h : s.Plain) (keys : List Key) : (s.dropParts keys).Plain := by
  refine h.fewer (by rw [framed_dropParts s keys]) fun k info hk => ?_
  rw [lookup_dropParts] at hk
  split at hk
  · cases hk
  · exact hk

omit [Crates] in
theorem Store.Plain.removeFile (h : s.Plain) (key : Key) : (s.removeFile key).Plain :=
  h.fewer (by rw [framed_removeFile s key]) fun _ _ hk => lookup_removeFile_some hk

theorem IndexedAs.plain {care : Care} {metaLen : UInt16} {whole : Prop} (h : IndexedAs care s key payload metaLen whole s')
    (hs : s.Plain) : s'.Plain := by
  obtain ⟨s1, info, hp, rfl, -, -, -, hnone, -⟩ := h.done
  refine (hp.plain hs).replaceFile key fun hc => hnone ?_
  rwa [hp.compression_eq] at hc

theorem CopyDone.plain {care : Care} {fromKey toKey : Key} (h : CopyDone care s fromKey toKey s') (hs : s.Plain) : s'.Plain := by
  obtain ⟨s1, info, off, now, hk, hp, rfl, -⟩ := h.done
  refine ((hp.plain hs).removeFile toKey).insertFile toKey fun hc => ?_
  rw [framed_removeFile s1 toKey] at hc
  exact hs (hp.compression_eq.symm.trans hc) fromKey info hk

theorem Store.Plain.moved (h : s.Plain) {fromKey : Key} (toKey : Key) (hk : s.files.lookup fromKey = some info) :
    (s.moved fromKey toKey info).Plain := by
  have herase : Store.Plain { s with files := s.files.erase fromKey } := by
    refine h.fewer rfl fun k info' hk' => ?_
    change (s.files.erase fromKey).lookup k = some info' at hk'
    by_cases hf : k = fromKey
    · subst hf
      rw [AList.lookup_erase] at hk'
      cases hk'
    · rwa [AList.lookup_erase_ne hf] at hk'
  have hremoved := (herase.removeFile toKey).congr (t := (Store.removeFile _ toKey).markShardDirty fromKey) rfl rfl
  refine hremoved.insertFile toKey fun hc => h ?_ fromKey info hk
  have hframe := framed_removeFile { s with files := s.files.erase fromKey } toKey
  change (Store.removeFile { s with files := s.files.erase fromKey } toKey).compression = .none at hc
  rwa [hframe] at hc

/-- The parts of an upload are joined as they are, when compression is off. -/
theorem wp_complete_plain (hs : SpaceInv s []) (h : s.Plain) (now : DateTime) (tmp : TempFile) (location : Key) (partKeys : List Key) :
    Prog.wp (complete now tmp location partKeys) (fun _ s' => s'.Plain) (fun _ _ => True) s := by
  unfold complete
  rw [Prog.wp_bind, Prog.wp_failIf]
  refine ⟨fun _ => trivial, fun hne => ?_⟩
  rw [Prog.wp_bind]
  refine Prog.wp_mono (wp_partInfos partKeys) ?_ (fun _ _ _ => trivial)
  rintro parts s0 ⟨rfl, hparts⟩
  have hpne : parts ≠ [] := by
    rintro rfl
    cases hparts
    exact hne rfl
  rw [Prog.wp_bind, Prog.wp_get, Prog.wp_bind, wp_onDevice]
  refine Prog.wp_mono wp_planParts ?_ (fun _ _ _ => trivial)
  rintro plan io ⟨-, hplan, -⟩
  have hpos : 0 < plan.1 := hplan.size_pos hpne fun info hi => by
    obtain ⟨k, -, hk⟩ := hparts.mem info hi
    exact hs.sized info (mem_values hk)
  have hnone : s0.compression = .none → plan.2.1 = 0 := by
    intro hc
    rcases hplan with rfl | ⟨-, -, -, -, hne, -, -⟩
    · rfl
    · exact absurd hc hne
  rw [Prog.wp_bind]
  refine wp_padded (fun _ padded _ hal hppos => ?_) hpos (fun _ => trivial)
  rw [Prog.wp_bind]
  refine Prog.wp_mono (wp_allocWrite .index (s := s0.withIo io) (Q := fun _ _ _ => True) (hs.congr rfl rfl rfl) hal hppos
    fun h => absurd rfl h) ?_ (fun _ _ _ => trivial)
  rintro ⟨off, crc⟩ s1 ⟨hp, -⟩
  rw [Prog.wp_modify]
  refine ((hp.plain (h.congr rfl rfl)).replaceFile location fun hc => hnone ?_).dropParts partKeys
  exact hp.compression_eq.symm.trans hc

theorem wp_updateMetadata_plain (hs : SpaceInv s []) (h : s.Plain) (now : DateTime) (key : Key) (metadata : Bytes) :
    Prog.wp (updateMetadata now key metadata) (fun _ s' => s'.Plain) (fun _ _ => True) s := by
  unfold updateMetadata
  rw [Prog.wp_bind, Prog.wp_failIf]
  refine ⟨fun _ => trivial, fun _ => ?_⟩
  rw [Prog.wp_bind]
  refine wp_getFile (fun info hk => ?_) (fun _ => trivial)
  split
  · rw [Prog.wp_bind]
    refine Prog.wp_mono (wp_compressedBody hk) ?_ (fun _ _ _ => trivial)
    rintro body s1 ⟨⟨io, -, rfl⟩, -⟩
    exact Prog.wp_mono (wp_doPutWithMeta_as .index (s := s.withIo io) (hs.congr rfl rfl rfl) now key _ _)
      (fun _ _ hput => hput.plain (h.congr rfl rfl)) (fun _ _ _ => trivial)
  · rw [Prog.wp_bind, Prog.wp_get, Prog.wp_bind, Prog.wp_failIf]
    refine ⟨fun _ => trivial, fun _ => ?_⟩
    rw [Prog.wp_bind, Prog.wp_failIf]
    refine ⟨fun _ => trivial, fun hne => ?_⟩
    rw [Prog.wp_bind]
    refine wp_padded (fun _ padded _ hal hppos => ?_) (Nat.pos_of_ne_zero hne) (fun _ => trivial)
    rw [Prog.wp_bind]
    refine Prog.wp_mono (wp_allocWrite .index (Q := fun _ _ _ => True) hs hal hppos fun h => absurd rfl h) ?_ (fun _ _ _ => trivial)
    rintro ⟨off, crc⟩ s1 ⟨hp, -⟩
    rw [Prog.wp_modify]
    exact (hp.plain h).replaceFile key fun _ => rfl

/-! ## Changes of the map -/

omit [Crates] in
theorem rel_mono {α β : Type} {R R' : α → β → Prop} {a : Option α} {b : Option β} (h : Option.Rel R a b)
    (hmono : ∀ x y, a = some x → R x y → R' x y) : Option.Rel R' a b := by
  cases h with
  | none => exact .none
  | some h => exact .some (hmono _ _ rfl h)

/-- Writes to free space leave the objects. -/
theorem Serves.off_free {care : Care} {held : List Span} (h : Serves s m) (hcare : care ≠ .index) (hp : Prep care s held s1)
    (k : Key) : Option.Rel (ExtentInfo.Keeps s1.compression s1.io.dev) (s1.files.lookup k) (m k) := by
  rw [hp.files_eq, hp.compression_eq]
  refine rel_mono (h.holds k) fun info o hk hkeeps => hkeeps.congr ?_
  rw [← (h.padded k info hk).padded]
  exact h.space.read_eq (hp.wrote hcare) hk

/-- A call that fails has written to free space at most. -/
theorem Serves.failed {care : Care} (h : Serves s m) (hcare : care ≠ .index) (hp : Prep care s [] s') : Serves s' m :=
  ⟨hp.step.laid hcare h.laid, hp.space, hp.step.index.content h.space h.padded, hp.plain h.plain, h.off_free hcare hp⟩

theorem Serves.updated {held : List Span} (h : Serves s m) (hp : Prep .content s held s1) (hu : Update .content s1 held s')
    (hplain : s'.Plain)
    (hholds : ∀ k, Option.Rel (ExtentInfo.Keeps s1.compression s1.io.dev) (s'.files.lookup k) (m' k)) : Serves s' m' := by
  have hstep : Step .content s s' := ⟨s1, held, hp, hu⟩
  have hcompression : s'.compression = s1.compression := by rw [hu.framed]
  refine ⟨hstep.laid (by decide) h.laid, hstep.space, (hstep.content h.space h.content).index, hplain, fun k => ?_⟩
  rw [hcompression, hu.io_eq]
  exact hholds k

/-- An object is put, and the parts it was made of are dropped. -/
theorem Serves.put {metaLen : UInt16} {parts : List Key} (h : Serves s m) (hput : PutDone .content s key payload metaLen parts s')
    (hplain : s'.Plain) (ho : o = .split payload metaLen.toNat) : Serves s' ((m.put key o).drop parts) := by
  obtain ⟨s1, info, hp, rfl, hsize, rfl, hpad, hstores⟩ := hput.done
  have hstored : Stores s1.compression s1.io.dev info payload := by
    rw [hp.compression_eq]
    exact hstores (by decide)
  refine h.updated hp (.put key info parts hsize ⟨hpad, fun _ => ⟨payload, hstored⟩⟩) hplain fun k => ?_
  rw [lookup_dropParts, lookup_replaceFile]
  by_cases hk : k ∈ parts
  · simp [Objects.drop, hk]
  · by_cases hkey : k = key
    · subst hkey
      simp only [Objects.drop, Objects.put, hk, if_false, if_true, Function.update_self]
      exact .some (ho ▸ keeps_split hstored)
    · simp only [Objects.drop, Objects.put, hk, hkey, if_false, ne_eq, not_false_eq_true, Function.update_of_ne]
      exact h.off_free (by decide) hp k

omit [Crates] in
theorem Objects.drop_nil (m : Objects) : m.drop [] = m := by
  funext k
  simp [Objects.drop]

theorem Serves.put_only {metaLen : UInt16} (h : Serves s m) (hput : PutDone .content s key payload metaLen [] s') (hplain : s'.Plain)
    (ho : o = .split payload metaLen.toNat) : Serves s' (m.put key o) := by
  have := h.put hput hplain ho
  rwa [Objects.drop_nil] at this

theorem Serves.copied {fromKey toKey : Key} (h : Serves s m) (hcopy : CopyDone .content s fromKey toKey s') (hplain : s'.Plain) :
    m fromKey ≠ none ∧ Serves s' (Function.update m toKey (m fromKey)) := by
  obtain ⟨s1, info, off, now, hfrom, hp, rfl, hread⟩ := hcopy.done
  obtain ⟨o, hm, hkeeps⟩ := h.listed hfrom
  obtain ⟨hpad, -⟩ := h.padded fromKey info hfrom
  have hstored : Stores s1.compression s1.io.dev { info with offset := off, createdTxn := s1.superblock.txnId, lastModified := now }
      o.payload := by
    rw [hp.compression_eq]
    exact hkeeps.stored.copied hpad hread
  have hupdate : Update .content s1 [(off, info.paddedSize)] ((s1.removeFile toKey).insertFile toKey
      { info with offset := off, createdTxn := s1.superblock.txnId, lastModified := now }) :=
    .copy toKey { info with offset := off, createdTxn := s1.superblock.txnId, lastModified := now }
      (h.space.sized info (mem_values hfrom)) ⟨hpad, fun _ => ⟨_, hstored⟩⟩
  refine ⟨by simp [hm], h.updated hp hupdate hplain fun k => ?_⟩
  show Option.Rel _ ((s1.removeFile toKey).files.insert toKey _ |>.lookup k) _
  by_cases hk : k = toKey
  · subst hk
    rw [AList.lookup_insert, Function.update_self, hm]
    exact .some ⟨hstored, hkeeps.split⟩
  · rw [AList.lookup_insert_ne hk, lookup_removeFile_ne _ hk, Function.update_of_ne hk]
    exact h.off_free (by decide) hp k

theorem lookup_moved (s : Store) (fromKey toKey : Key) (info : ExtentInfo) (k : Key) :
    (s.moved fromKey toKey info).files.lookup k =
      if k = toKey then some info else if k = fromKey then none else s.files.lookup k := by
  show (((Store.removeFile { s with files := s.files.erase fromKey } toKey).files).insert toKey info).lookup k = _
  by_cases hto : k = toKey
  · subst hto
    rw [if_pos rfl, AList.lookup_insert]
  · rw [if_neg hto, AList.lookup_insert_ne hto, lookup_removeFile_ne _ hto]
    show (s.files.erase fromKey).lookup k = _
    by_cases hfrom : k = fromKey
    · subst hfrom
      rw [if_pos rfl, AList.lookup_erase]
    · rw [if_neg hfrom, AList.lookup_erase_ne hfrom]

theorem Serves.moved {fromKey : Key} (h : Serves s m) (toKey : Key) (hfrom : s.files.lookup fromKey = some info) :
    m fromKey ≠ none ∧ Serves (s.moved fromKey toKey info)
      (Function.update (Function.update m fromKey none) toKey (m fromKey)) := by
  obtain ⟨o, hm, hkeeps⟩ := h.listed hfrom
  refine ⟨by simp [hm], h.updated (Prep.refl h.space) (.move fromKey toKey info hfrom (h.content fromKey info hfrom))
    (h.plain.moved toKey hfrom) fun k => ?_⟩
  show Option.Rel _ ((s.moved fromKey toKey info).files.lookup k) _
  rw [lookup_moved]
  by_cases hto : k = toKey
  · subst hto
    rw [if_pos rfl, Function.update_self, hm]
    exact .some hkeeps
  · rw [if_neg hto, Function.update_of_ne hto]
    by_cases hk : k = fromKey
    · subst hk
      rw [if_pos rfl, Function.update_self]
      exact .none
    · rw [if_neg hk, Function.update_of_ne hk]
      exact h.holds k

theorem Serves.dropped (h : Serves s m) (keys : List Key) : Serves { s.dropParts keys with dirty := true } (m.drop keys) := by
  refine h.updated (Prep.refl h.space) (.drop keys) ((h.plain.dropParts keys).congr rfl rfl) fun k => ?_
  show Option.Rel _ ((s.dropParts keys).files.lookup k) _
  rw [lookup_dropParts]
  unfold Objects.drop
  split
  · exact .none
  · exact h.holds k

theorem Serves.amended (h : Serves s m) (hk : s.files.lookup key = some info) (metaLen : UInt16) :
    m key ≠ none ∧ Serves (s.insertFile key { info with metaLen := metaLen })
      (Function.update m key ((m key).map fun o => .split o.payload metaLen.toNat)) := by
  obtain ⟨o, hm, hkeeps⟩ := h.listed hk
  refine ⟨by simp [hm], h.updated (Prep.refl h.space) (.amend key info metaLen hk) ?_ fun k => ?_⟩
  · exact h.plain.insertFile key fun hc => h.plain hc key info hk
  · show Option.Rel _ ((s.files.insert key _).lookup k) _
    by_cases hkey : k = key
    · subst hkey
      rw [AList.lookup_insert, Function.update_self, hm]
      exact .some (@keeps_split _ s { info with metaLen := metaLen } o.payload hkeeps.stored)
    · rw [AList.lookup_insert_ne hkey, Function.update_of_ne hkey]
      exact h.holds k

/-- The index is what it was. -/
theorem Serves.same_files (h : Serves s m) (hstep : Step .content s s') (hf : s'.files = s.files) : Serves s' m := by
  have hframe := hstep.frame
  refine ⟨hstep.laid (by decide) h.laid, hstep.space, hstep.index.content h.space h.padded, h.plain.congr ?_ hf, fun k => ?_⟩
  · rw [hframe]
  · have hcompression : s'.compression = s.compression := by rw [hframe]
    rw [hf, hcompression]
    refine rel_mono (h.holds k) fun info o hk hkeeps => hkeeps.congr ?_
    rw [← (h.padded k info hk).padded]
    exact h.space.read_eq (hstep.wrote (by decide)) hk

/-! ## Calls -/

theorem wp_putOpts_admits (h : Serves s m) (now : DateTime) (key : Key) (payload : Bytes) (mode : PutMode) :
    Prog.wp (putOpts now key payload mode)
      (fun _ s' => (Op.putOpts key payload mode).Admits m ∧ IndexedAs .content s key payload 0 True s') (fun _ _ => True) s := by
  have hput := wp_doPutWithMeta_as .content h.space now key payload 0
  have hdone : ∀ {P : Prop}, P → Prog.wp (doPutWithMeta now key payload 0)
      (fun _ s' => P ∧ IndexedAs .content s key payload 0 True s') (fun _ _ => True) s := fun hP =>
    Prog.wp_mono hput (fun _ _ hi => ⟨hP, hi⟩) (fun _ _ _ => trivial)
  unfold putOpts doPut
  rw [Prog.wp_bind, Prog.wp_get]
  cases mode with
  | create =>
    rw [Prog.wp_bind, Prog.wp_failIf]
    exact ⟨fun _ => trivial, fun hnot => hdone (h.lookup_none.mp (by simpa using hnot))⟩
  | overwrite => exact hdone trivial
  | update conditional =>
    rw [Prog.wp_bind, Prog.wp_failIf]
    exact ⟨fun _ => trivial, fun hnot => hdone (show conditional = false by simpa using hnot)⟩

/-- A target that is taken is refused. -/
theorem wp_copyIfNotExists_admits (h : Serves s m) (now : DateTime) (fromKey toKey : Key) :
    Prog.wp (copyIfNotExists now fromKey toKey) (fun _ s' => m toKey = none ∧ CopyDone .content s fromKey toKey s')
      (fun _ _ => True) s := by
  unfold copyIfNotExists
  simp only [Prog.wp_bind, Prog.wp_get, Prog.wp_failIf]
  refine ⟨fun _ => trivial, fun hnot => ?_⟩
  have hto : m toKey = none := h.lookup_none.mp (by simpa using hnot)
  exact Prog.wp_mono (wp_doCopy h.space now fromKey toKey) (fun _ _ hc => ⟨hto, hc⟩) (fun _ _ _ => trivial)

theorem wp_renameIfNotExists_admits (h : Serves s m) (fromKey toKey : Key) :
    Prog.wp (renameIfNotExists fromKey toKey) (fun _ _ => m toKey = none) (fun _ _ => True) s := by
  unfold renameIfNotExists takeFile
  simp only [Prog.wp_bind, Prog.wp_get, Prog.wp_failIf]
  refine ⟨fun _ => trivial, fun _ => ⟨fun _ => trivial, fun _ => ⟨fun _ => trivial, fun hnot => ?_⟩⟩⟩
  exact wp_getFile (fun _ _ => h.lookup_none.mp (by simpa using hnot)) (fun _ => trivial)

theorem Serves.joined (h : Serves s m) {partKeys : List Key} {parts : List ExtentInfo} {contents : List Bytes}
    (hparts : PartsIndexed s partKeys parts) (hread : PartsRead s.compression s.io.dev parts contents) :
    contents.flatten = m.joined partKeys ∧ ∀ k ∈ partKeys, m k ≠ none := by
  induction hparts generalizing contents with
  | nil =>
    cases hread
    exact ⟨rfl, by simp⟩
  | @cons k info partKeys parts hk hrest ih =>
    cases hread with
    | @cons _ r _ contents hr hreads =>
      obtain ⟨o, hm, hkeeps⟩ := h.listed hk
      obtain ⟨hjoined, hpresent⟩ := ih hreads
      obtain rfl : o.payload = r := Except.ok.inj (hkeeps.stored.payloadOf.symm.trans hr)
      refine ⟨?_, ?_⟩
      · show o.payload ++ contents.flatten = _
        rw [hjoined]
        simp [Objects.joined, hm]
      · intro k' hk'
        rcases List.mem_cons.mp hk' with rfl | hk'
        · simp [hm]
        · exact hpresent k' hk'

theorem wp_complete_ne (now : DateTime) (tmp : TempFile) (location : Key) (partKeys : List Key) :
    Prog.wp (complete now tmp location partKeys) (fun _ _ => partKeys ≠ []) (fun _ _ => True) s := by
  unfold complete
  rw [Prog.wp_bind, Prog.wp_failIf]
  refine ⟨fun _ => trivial, fun hne => ?_⟩
  exact Prog.wp_of_forall _ (fun _ _ => hne) (fun _ _ => trivial)

theorem wp_deleteTombstone_files (path : Key) :
    Prog.wp (deleteTombstone path) (fun _ s' => s'.files = s.files) (fun _ s' => s'.files = s.files) s := by
  unfold deleteTombstone
  simp only [Prog.wp_bind, Prog.wp_get, Prog.wp_failIf]
  refine ⟨fun _ => trivial, fun _ => ?_⟩
  split <;> exact rfl

theorem wp_clearTombstones_files : Prog.wp clearTombstones (fun _ s' => s'.files = s.files) (fun _ s' => s'.files = s.files) s := by
  unfold clearTombstones
  simp only [Prog.wp_bind, Prog.wp_get, Prog.wp_failIf]
  refine ⟨fun _ => trivial, fun _ => ?_⟩
  split
  · exact rfl
  · simp only [Prog.wp_bind, Prog.wp_modify, foldl_markShardDirty]
    exact rfl

/-- What a call that returns does. -/
theorem Op.serves_ok (h : Serves s m) (op : Op) (now : DateTime) (hsound : op.Sound .content) :
    Prog.wp (op.run now) (fun _ s' => op.Admits m ∧ Serves s' (op.does m)) (fun _ _ => True) s := by
  have hdir : Care.content ≠ .index → s.io.direct = true → s.dataEnd % blockAlignment = 0 := fun _ hd => h.laid.dataEnd_aligned hd
  have hindex : ContentInv .index s := h.padded
  cases op with
  | putOpts key payload mode =>
    refine Prog.wp_mono (wp_putOpts_admits h now key payload mode) ?_ (fun _ _ _ => trivial)
    rintro _ s' ⟨hadmits, hput⟩
    exact ⟨hadmits, h.put_only (hput.putDone trivial) (hput.plain h.plain) (by simp [Object.split])⟩
  | putWithMeta key body metadata =>
    refine Prog.wp_mono (wp_putWithMeta_as .content h.space now key body metadata) ?_ (fun _ _ _ => trivial)
    rintro _ s' ⟨hle, hput⟩
    refine ⟨hle, h.put_only (hput.putDone trivial) (hput.plain h.plain) ?_⟩
    rw [UInt16.toNat_ofNat_of_lt' (Nat.lt_succ_of_le hle), Object.split_append]
  | putWithMetaFromFile key file metaLen =>
    refine Prog.wp_mono (wp_putWithMetaFromFile_as .content h.space now key file metaLen) ?_ (fun _ _ _ => trivial)
    rintro _ s' ⟨-, hput⟩
    exact ⟨trivial, h.put_only (hput.putDone (hsound rfl)) (hput.plain h.plain) rfl⟩
  | copy fromKey toKey =>
    refine Prog.wp_mono (@wp_doCopy _ .content s h.space now fromKey toKey) ?_ (fun _ _ _ => trivial)
    intro _ s' hcopy
    exact h.copied hcopy (hcopy.plain h.plain)
  | copyIfNotExists fromKey toKey =>
    refine Prog.wp_mono (wp_copyIfNotExists_admits h now fromKey toKey) ?_ (fun _ _ _ => trivial)
    rintro _ s' ⟨hto, hcopy⟩
    obtain ⟨hfrom, hserves⟩ := h.copied hcopy (hcopy.plain h.plain)
    exact ⟨⟨hfrom, hto⟩, hserves⟩
  | rename fromKey toKey =>
    refine Prog.wp_mono (wp_rename fromKey toKey) ?_ (fun _ _ _ => trivial)
    rintro _ s' ⟨info, hk, rfl⟩
    exact h.moved toKey hk
  | renameIfNotExists fromKey toKey =>
    refine Prog.wp_mono (Prog.wp_and (wp_renameIfNotExists fromKey toKey) (wp_renameIfNotExists_admits h fromKey toKey)) ?_
      (fun _ _ _ => trivial)
    rintro _ s' ⟨⟨info, hk, rfl⟩, hto⟩
    obtain ⟨hfrom, hserves⟩ := h.moved toKey hk
    exact ⟨⟨hfrom, hto⟩, hserves⟩
  | delete key =>
    refine Prog.wp_mono (wp_delete key) ?_ (fun _ _ _ => trivial)
    rintro _ s' rfl
    refine ⟨trivial, ?_⟩
    split
    · exact h.dropped [key]
    · next hnone =>
      have hm : m key = none := h.lookup_none.mp (by simpa using hnone)
      have hsame : (Op.delete key).does m = m := by
        funext k
        by_cases hk : k = key
        · simp [Op.does, Objects.drop, hk, hm]
        · simp [Op.does, Objects.drop, hk]
      rw [hsame]
      exact h
  | updateMetadata key metadata =>
    refine Prog.wp_mono (Prog.wp_and (@wp_updateMetadata _ .content s h.space hindex now key metadata)
      (wp_updateMetadata_plain h.space h.plain now key metadata)) ?_ (fun _ _ _ => trivial)
    rintro _ s' ⟨⟨hle, info, body, hk, hput, hbody⟩, hplain⟩
    obtain ⟨o, hm, hkeeps⟩ := h.listed hk
    obtain rfl : body = o.body := (hbody (by decide) _ hkeeps.stored).trans hkeeps.split_eq.1.symm
    refine ⟨⟨by simp [hm], hle⟩, ?_⟩
    have hserves := h.put_only (o := ⟨o.body, metadata⟩) hput hplain (by
      rw [UInt16.toNat_ofNat_of_lt' (Nat.lt_succ_of_le hle), Object.split_append])
    simpa only [Op.does, hm, Option.map_some, Objects.put] using hserves
  | setMetaLen key metaLen =>
    refine Prog.wp_mono (wp_setMetaLen key metaLen) ?_ (fun _ _ _ => trivial)
    rintro _ s' ⟨info, hk, rfl⟩
    exact h.amended hk metaLen
  | putMultipart location => exact ⟨trivial, h.same_files (step_putMultipart h.space location) rfl⟩
  | putPart partKey payload =>
    refine Prog.wp_mono (wp_doPutWithMeta_as .content h.space now partKey payload 0) ?_ (fun _ _ _ => trivial)
    intro _ s' hput
    exact ⟨trivial, h.put_only (hput.putDone trivial) (hput.plain h.plain) (by simp [Object.split])⟩
  | complete tmp location partKeys =>
    have hsound : Care.content ≠ .index → PartsSound s partKeys := fun hne => partsSound_of_kept hne fun k _ => h.content k
    refine Prog.wp_mono (Prog.wp_and (wp_complete_ne now tmp location partKeys) (Prog.wp_and
      (@wp_complete _ .content s h.space hindex now tmp location partKeys hsound)
      (wp_complete_plain h.space h.plain now tmp location partKeys))) ?_ (fun _ _ _ => trivial)
    rintro _ s' ⟨hne, ⟨parts, payload, hparts, hput, hcontents⟩, hplain⟩
    obtain ⟨contents, hread, rfl⟩ := hcontents (by decide)
    obtain ⟨hjoined, hpresent⟩ := h.joined hparts hread
    refine ⟨⟨hne, hpresent⟩, h.put hput hplain ?_⟩
    simp [Object.split, hjoined]
  | abort partKeys => exact ⟨trivial, h.dropped partKeys⟩
  | deleteTombstone path =>
    show Prog.wp (do let _ ← Raw.deleteTombstone path) _ _ s
    rw [Prog.wp_bind]
    exact Prog.wp_mono (Prog.wp_and (@wp_deleteTombstone _ .content s h.space path) (wp_deleteTombstone_files path))
      (fun _ _ hd => ⟨trivial, h.same_files hd.1 hd.2⟩) (fun _ _ _ => trivial)
  | clearTombstones =>
    show Prog.wp (do let _ ← Raw.clearTombstones) _ _ s
    rw [Prog.wp_bind]
    exact Prog.wp_mono (Prog.wp_and (@wp_clearTombstones _ .content s h.space) wp_clearTombstones_files)
      (fun _ _ hd => ⟨trivial, h.same_files hd.1 hd.2⟩) (fun _ _ _ => trivial)
  | scrubFreeSpace =>
    exact Prog.wp_mono (@wp_scrubFreeSpace .content s h.space hdir) (fun _ _ hp => ⟨trivial, h.failed (by decide) hp⟩)
      (fun _ _ _ => trivial)

/-- A call that returns does what it says, one that fails does nothing. -/
theorem Op.serves (h : Serves s m) (op : Op) (now : DateTime) (hsound : op.Sound .content) :
    Prog.wp (op.run now) (fun _ s' => op.Admits m ∧ Serves s' (op.does m)) (fun _ s' => Serves s' m) s := by
  have hfailed : Prog.wp (op.run now) (fun _ _ => True) (fun _ s' => Prep .slots s [] s') s := by
    refine op.wp_failed now h.space h.padded (by decide) (fun tmp location partKeys _ _ => ?_) fun _ _ hd => h.laid.dataEnd_aligned hd
    exact (partsSound_of_kept (show Care.content ≠ .index by decide) fun k _ => h.content k).fit
  exact Prog.wp_mono (Prog.wp_and (op.serves_ok h now hsound) hfailed) (fun _ _ hok => hok.1)
    (fun _ _ herr => h.failed (by decide) herr.2)

/-- A flush leaves the objects, whether it returns or not. -/
theorem Serves.flush (h : Serves s m) : Serves (flushIndex.exec s).2 m := by
  obtain ⟨hframe, hlaid, hread⟩ := flush_leaves h.laid
  have hfiles : (flushIndex.exec s).2.files = s.files := by rw [hframe]
  have hcompression : (flushIndex.exec s).2.compression = s.compression := by rw [hframe]
  refine ⟨hlaid, hframe.space h.space, hframe.index h.padded, h.plain.congr hcompression hfiles, fun k => ?_⟩
  rw [hfiles, hcompression]
  refine rel_mono (h.holds k) fun info o hk hkeeps => hkeeps.congr ?_
  have hin := h.space.extents.inside info.span (List.mem_map_of_mem (mem_values hk))
  refine hread _ _ hin.1 ?_
  rw [← (h.padded k info hk).padded]
  exact hin.2.1

theorem Formatted.serves {opts : FormatOptions} (h : Formatted opts s) : Serves s .empty := by
  have hfiles : s.files = ∅ := by
    obtain ⟨io, rfl, -⟩ := h.store
    rfl
  refine ⟨h.laid, h.space, h.content .index, fun _ k info hk => ?_, fun k => ?_⟩
  · rw [hfiles] at hk
    cases hk
  · rw [hfiles]
    exact .none

/-! ## Reads -/

structure ShowsNone (s : Store) (key : Key) : Prop where
  full : ((getFull key).exec (s.withScript [])).1 = .error (.notFound key)
  metadata : ((getMetadata key).exec (s.withScript [])).1 = .error (.notFound key)
  ranged : ∀ range, ((getRanged key range).exec (s.withScript [])).1 = .error (.notFound key)
  head : ((headWithMeta key).exec (s.withScript [])).1 = .error (.notFound key)

/-- Every read of the key returns what it asks for of the object. The metadata and the ranges of a compressed object are read
    up to the limit of range reads, a range if it has a byte. -/
structure ShowsObject (s : Store) (key : Key) (o : Object) : Prop where
  full : ((getFull key).exec (s.withScript [])).1 = .ok o.body
  metadata : o.payload.length ≤ compressedRangeReadMax → ((getMetadata key).exec (s.withScript [])).1 = .ok o.metadata
  ranged : ∀ range, o.payload.length ≤ compressedRangeReadMax →
    (range.resolve o.body.length).1 < (range.resolve o.body.length).2 → ((getRanged key range).exec (s.withScript [])).1 =
      .ok (slice o.body (range.resolve o.body.length).1 (range.resolve o.body.length).2, range.resolve o.body.length)
  head : ∃ metaLen, ((headWithMeta key).exec (s.withScript [])).1 = .ok (o.body.length, metaLen)
  /-- No object is empty. -/
  payload : o.payload ≠ []

def Shows (s : Store) (key : Key) : Option Object → Prop
  | none => ShowsNone s key
  | some o => ShowsObject s key o

theorem Serves.sane (h : Serves s m) : Sane s :=
  ⟨h.laid, h.space, h.padded, fun k info _ hk => ⟨(h.padded k info hk).padded, fun _ => (h.content k info hk).stored (.inl rfl)⟩⟩

/-- An entry whose extent stores a payload, when no device call fails. -/
theorem Sane.isObject (h : Sane s) (hk : s.files.lookup key = some info) (hst : Stores s.compression s.io.dev info payload) :
    IsObject (s.withScript []) key info payload := by
  have hin := (h.space.extents.inside info.span (List.mem_map_of_mem (mem_values hk))).2.1
  obtain ⟨a, -, hpart⟩ := h.space.partition
  have hmax := hpart.max
  refine ⟨hk, hst, h.space.sized info (mem_values hk), ?_, h.calmAt key info hk⟩
  rw [← (h.padded key info hk).padded]
  simp only [ExtentInfo.span] at hin
  omega

/-- The metadata is what is behind the body, also when the index has more of it than there is. -/
theorem IsObject.exec_getMetadata_behind (h : IsObject s key info payload) (hmax : info.uncompressedSize ≤ compressedRangeReadMax) :
    (getMetadata key).exec s = (.ok (payload.drop info.bodySize), s) := by
  by_cases hle : info.metaLen.toNat ≤ payload.length
  · exact h.exec_getMetadata hmax hle
  · have hlen := h.stored.length
    have hpos := logicalSize_pos h.sized
    have hbody : info.bodySize = 0 := by
      rw [ExtentInfo.bodySize]
      omega
    have hstart : info.logicalSize - info.metaLen.toNat = 0 := hbody
    have hsome : info.metaLen ≠ 0 := by
      intro h0
      rw [h0] at hle
      exact hle (Nat.zero_le _)
    unfold getMetadata
    rw [Prog.exec_bind, exec_getFile_listed h.listed]
    dsimp only
    rw [if_neg hsome, Prog.exec_bind, hstart, ← hlen, h.exec_doGetRange hmax (by omega) (Nat.le_refl _), hbody]
    show (Except.ok (slice payload _ _), s) = _
    unfold slice
    rw [List.drop_zero, Nat.sub_zero, List.take_length]

/-- The uncompressed size of an entry is that of its object. -/
theorem IsObject.uncompressedSize_le (h : IsObject s key info payload) : info.uncompressedSize ≤ payload.length := by
  rw [h.stored.length, ExtentInfo.logicalSize]
  split <;> omega

omit [Crates] in
theorem exec_getFile_absent (hk : s.files.lookup key = none) : (getFile key).exec s = (.error (.notFound key), s) := by
  unfold getFile Prog.exec
  simp only [hk]

theorem showsNone_of_lookup (hk : s.files.lookup key = none) : ShowsNone s key := by
  have hget : (getFile key).exec (s.withScript []) = (.error (.notFound key), s.withScript []) := exec_getFile_absent hk
  refine ⟨?_, ?_, fun range => ?_, ?_⟩
  · rw [getFull, Prog.exec_bind, getStream, Prog.exec_bind, hget]
  · rw [getMetadata, Prog.exec_bind, hget]
  · rw [getRanged, Prog.exec_bind, hget]
  · rw [headWithMeta, Prog.exec_bind, hget]

theorem IsObject.shows (h : IsObject (s.withScript []) key info o.payload) (hsplit : o.body.length = info.bodySize)
    (hplain : s.compression = .none → info.uncompressedSize = 0) : ShowsObject s key o := by
  have hbody : o.payload.take o.body.length = o.body := List.take_left
  refine ⟨?_, fun hmax => ?_, fun range hmax hlt => ?_, ?_, ?_⟩
  · rw [h.exec_getFull hplain, ← hsplit, hbody]
  · rw [h.exec_getMetadata_behind (Nat.le_trans h.uncompressedSize_le hmax), ← hsplit]
    exact congrArg Except.ok List.drop_left
  · have hle := (range.resolve_le o.body.length).2
    have hstop : o.body.length ≤ o.payload.length := by
      rw [Object.payload, List.length_append]
      omega
    rw [h.exec_getRanged range, ← hsplit, h.exec_doGetRange (Nat.le_trans h.uncompressedSize_le hmax) hlt (Nat.le_trans hle hstop)]
    rw [← slice_take o.payload hle, hbody]
  · refine ⟨info.metaLen, ?_⟩
    rw [headWithMeta, Prog.exec_bind, exec_getFile_listed h.listed, hsplit]
    rfl
  · have hpos := logicalSize_pos h.sized
    rw [← h.stored.length] at hpos
    exact List.length_pos_iff.mp hpos

theorem Serves.shows (h : Serves s m) (key : Key) : Shows s key (m key) := by
  cases hm : m key with
  | none => exact showsNone_of_lookup (h.lookup_none.mpr hm)
  | some o =>
    cases hk : s.files.lookup key with
    | none =>
      rw [h.lookup_none.mp hk] at hm
      cases hm
    | some info =>
      obtain ⟨o', hm', hkeeps⟩ := h.listed hk
      obtain rfl := Option.some.inj (hm.symm.trans hm')
      exact (h.sane.isObject hk hkeeps.stored).shows hkeeps.split fun hc => h.plain hc key info hk

/-! ## Runs -/

def Call.does (m : Objects) : Call → Objects
  | .op o => o.does m
  | _ => m

def Call.Admits (m : Objects) : Call → Prop
  | .op o => o.Admits m
  | _ => True

/-- The calls of a run: no file ends early, and the index in memory is not given up for the one on the device. -/
def Call.Keeps : Call → Prop
  | .op o => o.Sound .content
  | .reloadIndex => False
  | _ => True

def Store.after (s : Store) (calls : List TimedCall) : Store := calls.foldl (fun s c => (c.exec s).2) s

/-- What a call leaves of the map, by what it returned. -/
def Objects.told (m : Objects) (c : Call) : Except RawStoreError Unit → Objects
  | .ok _ => c.does m
  | .error _ => m

def Objects.after : Objects → Store → List TimedCall → Objects
  | m, _, [] => m
  | m, s, c :: calls => (m.told c.call (c.exec s).1).after (c.exec s).2 calls

def Objects.Admitted : Objects → Store → List TimedCall → Prop
  | _, _, [] => True
  | m, s, c :: calls => ((c.exec s).1 = .ok () → c.call.Admits m) ∧ (m.told c.call (c.exec s).1).Admitted (c.exec s).2 calls

theorem Serves.call (h : Serves s m) (c : TimedCall) (hc : c.call.Keeps) :
    ((c.exec s).1 = .ok () → c.call.Admits m) ∧ Serves (c.exec s).2 (m.told c.call (c.exec s).1) := by
  have hs := h.withScript c.script
  obtain ⟨call, now, script⟩ := c
  have htold : ∀ call r, call.does m = m → Objects.told m call r = m := by
    intro call r hsame
    cases r <;> first | exact hsame | rfl
  cases call with
  | op o =>
    have hop := o.serves hs now hc
    show (((o.run now).exec (s.withScript script)).1 = .ok () → o.Admits m) ∧
      Serves ((o.run now).exec (s.withScript script)).2 (m.told (.op o) ((o.run now).exec (s.withScript script)).1)
    cases hr : (o.run now).exec (s.withScript script) with
    | mk r s' =>
      cases r with
      | ok a => exact ⟨fun _ => (Prog.wp_ok hop hr).1, (Prog.wp_ok hop hr).2⟩
      | error e => exact ⟨fun hok => (by cases hok), Prog.wp_error hop hr⟩
  | flushIndex =>
    refine ⟨fun _ => trivial, ?_⟩
    rw [htold .flushIndex _ rfl]
    exact hs.flush
  | repair =>
    refine ⟨fun _ => trivial, ?_⟩
    rw [htold .repair _ rfl]
    show Serves ((Call.run now .repair).exec (s.withScript script)).2 m
    rw [exec_repair hs.space]
    exact hs.flush
  | reloadIndex => exact hc.elim

theorem Serves.run (h : Serves s m) (calls : List TimedCall) (hcalls : ∀ c ∈ calls, c.call.Keeps) :
    m.Admitted s calls ∧ Serves (s.after calls) (m.after s calls) := by
  induction calls generalizing s m with
  | nil => exact ⟨trivial, h⟩
  | cons c calls ih =>
    obtain ⟨hadmits, hserves⟩ := h.call c (hcalls c (by simp))
    obtain ⟨hrest, hafter⟩ := ih hserves fun c' hc' => hcalls c' (by simp [hc'])
    exact ⟨⟨hadmits, hrest⟩, hafter⟩

/-- A store is a map: from a format on, it shows what the calls that returned have made of the empty map. -/
theorem a_store_is_a_map {opts : FormatOptions} {bytes : Nat → UInt8} {script : List Outcome} {io : DeviceIo}
    (hformat : (formatWithOptions opts).exec (opts.device bytes script) = (.ok s, io)) (calls : List TimedCall)
    (hcalls : ∀ c ∈ calls, c.call.Keeps) :
    Objects.empty.Admitted s calls ∧ ∀ key, Shows (s.after calls) key (Objects.empty.after s calls key) := by
  obtain ⟨hadmitted, hserves⟩ := (formatted hformat).serves.run calls hcalls
  exact ⟨hadmitted, hserves.shows⟩

end Objects

open Sample

/-- What is put into a new store is read from it. -/
theorem a_put_is_read_back : ∃ s : Store, ∀ key,
    Shows (s.after [⟨.op (.putOpts "k" [1] .overwrite), 0, []⟩]) key (Objects.empty.put "k" ⟨[1], []⟩ key) := by
  obtain ⟨s, io, hformat⟩ := format_returns options_valid fun _ => 0
  have hshows := (a_store_is_a_map hformat [⟨.op (.putOpts "k" [1] .overwrite), 0, []⟩] (by simp [Call.Keeps, Op.Sound])).2
  obtain ⟨io0, rfl, hro, hsize⟩ := (formatted hformat).store
  obtain ⟨a', halloc⟩ : ∃ a', (ExtentAllocator.new dataStart 33554432 blockAlignment).alloc blockAlignment = .ok (dataStart, a') :=
    ⟨_, rfl⟩
  have hput := @wp_putByte _ ((options.newStore io0).withScript []) "k" _ _ _ _ rfl (show keyLen "k" ≤ 1024 by decide) rfl rfl
    halloc ⟨rfl, rfl, hro, hsize⟩ (by decide) 0
  obtain ⟨_, t, hrun, -⟩ := Prog.wp_returns hput fun _ _ h => h
  have hexec : TimedCall.exec ⟨.op (.putOpts "k" [1] .overwrite), 0, []⟩ (options.newStore io0) = (.ok (), t) := hrun
  refine ⟨options.newStore io0, ?_⟩
  have htold : Objects.empty.after (options.newStore io0) [⟨.op (.putOpts "k" [1] .overwrite), 0, []⟩] =
      Objects.empty.put "k" ⟨[1], []⟩ := by
    simp only [Objects.after, hexec]
    rfl
  rwa [htold] at hshows

end ObjStr.Raw
