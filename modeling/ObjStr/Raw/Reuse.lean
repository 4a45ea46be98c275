/-
  ObjStr.Raw.Reuse — extents that are used again before the next flush (`store.rs`).

  A put, an overwrite and a delete give the old extent of a key to the free list at once, and the next put may take it.
  The index on the device names it until the next flush, so after a crash an open finds a key whose blocks are those of
  another object. `OpenMode::Default` is documented to catch an extent that was overwritten whole. It compares the CRC
  at the start of the first block with the rest of that block, and a block of another object passes.
  - `scan_keeps`: an open whose device calls succeed keeps every flushed key, but for the parts of uploads, whose first
    block is sealed.
  - `reuse_is_detected_iff`: the open drops every flushed key whose extent was overwritten whole, if and only if that
    happened to parts of uploads only, which it drops in any case.
  - `a_reused_extent_is_kept`: a delete, a put that takes the extent, a crash; the open keeps the deleted key.
-/

import ObjStr.Raw.Sealed

namespace ObjStr.Raw

open ObjStr.Lib DeviceIo

section Reuse

variable [Crates] {s s' : Store}

/-! ## Runs after a flush -/

/-- A call that does not flush, the time it is made at, and the outcomes of its device calls. -/
structure TimedOp where
  op : Op
  now : DateTime
  script : List Outcome

def TimedOp.after (c : TimedOp) (s : Store) : Store := ((c.op.run c.now).exec (s.withScript c.script)).2

/-- What the call writes, and the key it is written for. -/
def TimedOp.wrote (c : TimedOp) (s : Store) : List (Key × Disk.Event) :=
  match c.op.target with
  | some key => ((c.after s).io.log.drop s.io.log.length).map fun e => (key, e)
  | none => []

def Store.written : Store → List TimedOp → List (Key × Disk.Event)
  | _, [] => []
  | s, c :: ops => c.wrote s ++ (c.after s).written ops

def Store.afterOps (s : Store) (ops : List TimedOp) : Store := ops.foldl (fun s c => c.after s) s

/-- A device that a crash leaves after the calls: what the flush has committed, and a data area of which each byte is as
    the flush found it, or as a write since then puts it. -/
structure Crashed (flushed : Store) (ops : List TimedOp) (d : Disk) : Prop extends Committed flushed d where
  data : ∀ a, dataStart ≤ a → a < flushed.dataEnd → d.byte a = flushed.io.dev.byte a ∨
    ∃ off data landed, .write off data landed ∈ (flushed.afterOps ops).io.log.drop flushed.io.log.length ∧ off ≤ a ∧
      a < off + data.length ∧ d.byte a = data.getD (a - off) 0

/-! ## What an open should find -/

/-- The block at this place was written for another key. -/
def Foreign (d : Disk) (written : List (Key × Disk.Event)) (key : Key) (off : Nat) : Prop :=
  ∃ other at' data landed i, (other, .write at' data landed) ∈ written ∧ other ≠ key ∧ off = at' + i * blockAlignment ∧
    (i + 1) * blockAlignment ≤ data.length ∧ d.read off blockAlignment = rawBlock data i

/-- Every block of the entry was written for another key. -/
def Overwritten (d : Disk) (written : List (Key × Disk.Event)) (key : Key) (info : ExtentInfo) : Prop :=
  ∀ j < numBlocks info.size, Foreign d written key (info.offset + j * blockAlignment)

/-- An open in the default mode has dropped the flushed keys that were overwritten, whatever comes of its device calls,
    and no reader of the store it returns is given the blocks of such a key. -/
structure DetectsReuse (flushed : Store) (written : List (Key × Disk.Event)) (d : Disk) : Prop where
  drops : ∀ script s' io, (openImpl .default false).exec (.onDisk d false script) = (.ok s', io) → ∀ key info,
    flushed.files.lookup key = some info → Overwritten d written key info → s'.files.lookup key = none
  hides : ∀ script s' io, (openImpl .default false).exec (.onDisk d false script) = (.ok s', io) → ∀ key info,
    flushed.files.lookup key = some info → Overwritten d written key info → s'.files.lookup key = some info →
      ∀ script' body t, (getFull key).exec (s'.withScript script') ≠ (.ok body, t) ∧
        ∀ range r, (getRanged key range).exec (s'.withScript script') ≠ (.ok r, t)

/-! ## What was written is sealed -/

theorem TimedOp.sealedWrite {c : TimedOp} (hc : ¬ c.op.Copies) (s : Store) : ∀ x ∈ c.wrote s, SealedWrite x.2 := by
  intro x hx
  unfold TimedOp.wrote at hx
  cases htarget : c.op.target with
  | none =>
    rw [htarget] at hx
    cases hx
  | some key =>
    rw [htarget] at hx
    obtain ⟨e, he, rfl⟩ := List.mem_map.mp hx
    have hwrote : Wrote SealedWrite (s.withScript c.script).io (c.after s).io :=
      Prog.wp_state (P := fun t : Store => Wrote SealedWrite (s.withScript c.script).io t.io)
        (Op.seals htarget hc c.now (s.withScript c.script))
    obtain ⟨evs, hlog, -, hsealed⟩ := hwrote.events
    have hevs : (c.after s).io.log.drop s.io.log.length = evs := by
      rw [hlog]
      exact List.drop_left
    rw [hevs] at he
    exact hsealed e he

theorem written_sealed {ops : List TimedOp} (hops : ∀ c ∈ ops, ¬ c.op.Copies) (s : Store) :
    ∀ x ∈ s.written ops, SealedWrite x.2 := by
  induction ops generalizing s with
  | nil =>
    intro x hx
    cases hx
  | cons c ops ih =>
    intro x hx
    rcases List.mem_append.mp hx with hx | hx
    · exact c.sealedWrite (hops c (by simp)) s x hx
    · exact ih (fun c' hc' => hops c' (by simp [hc'])) (c.after s) x hx

def FirstSealed (d : Disk) (info : ExtentInfo) : Prop :=
  UInt32.ofNat (leNat ((d.read info.offset blockAlignment).take blockCrcSize)) =
    crc32c ((d.read info.offset blockAlignment).drop blockCrcSize)

/-- Whatever object a block was written for, it is sealed. -/
theorem Overwritten.firstSealed {d : Disk} {written : List (Key × Disk.Event)} {key : Key} {info : ExtentInfo}
    (h : Overwritten d written key info) (hsealed : ∀ x ∈ written, SealedWrite x.2) (hsize : 0 < info.size) :
    FirstSealed d info := by
  have hblocks : 0 < numBlocks info.size := by
    have hspec := numBlocks_spec info.size
    by_contra hzero
    rw [Nat.eq_zero_of_not_pos hzero] at hspec
    omega
  obtain ⟨other, off, data, landed, i, hmem, -, -, hlen, hread⟩ := h 0 hblocks
  rw [Nat.zero_mul, Nat.add_zero] at hread
  have hdata : SealedBlocks data := hsealed _ hmem
  unfold FirstSealed
  rw [hread]
  exact (hdata.block hlen).crc

/-! ## The scan -/

/-- On a device whose calls succeed, the fast scan finds exactly the entries whose first block is not sealed. -/
theorem wp_scan_default {io : DeviceIo} {files : FMap ExtentInfo}
    (hcalm : ∀ k info, files.lookup k = some info → Calm io info.offset blockAlignment) :
    Prog.wp (scanMode .default files)
      (fun stale io' => Aged io io' ∧ ∀ k info, files.lookup k = some info →
        (k ∈ stale.map (·.1) ↔ ¬ FirstSealed io.dev info)) (fun _ _ => False) io := by
  refine Prog.wp_mono (wp_scan (fun info r => r.isSome = true ↔ ¬ FirstSealed io.dev info) fun e he io1 ha => ?_) ?_
    (fun _ _ h => h)
  · have hlook : files.lookup e.1 = some e.2 := AList.mem_lookup_iff.mpr he
    unfold checkBlock0
    rw [Prog.wp_bind, Prog.wp_attempt]
    refine Prog.wp_mono (wp_pread _ _) ?_ ?_
    · intro raw io2 hread
      obtain ⟨hraw, ha2⟩ := hread
      rw [ha.dev_eq] at hraw
      have hiff : FirstSealed io.dev e.2 ↔ UInt32.ofNat (leNat (raw.take blockCrcSize)) = crc32c (raw.drop blockCrcSize) := by
        unfold FirstSealed
        rw [← hraw]
      dsimp only
      split
      · next hcrc =>
        refine ⟨ha.trans ha2, ?_⟩
        simp [hiff.mpr hcrc]
      · next hcrc =>
        refine ⟨ha.trans ha2, ?_⟩
        simp [mt hiff.mp hcrc]
    · intro err io2 hfailed
      exact absurd ((hcalm e.1 e.2 hlook).aged ha) hfailed.2
  · intro stale io' hscan
    refine ⟨hscan.1, fun k info hk => ?_⟩
    obtain ⟨r, h1, h2⟩ := hscan.2 ⟨k, info⟩ (AList.mem_lookup_iff.mp hk)
    rw [h2, h1]

/-- The first block of each entry can be read. -/
theorem calm_first {d : Disk} (hs : SpaceInv s []) (hd : Committed s d) {key : Key} {info : ExtentInfo}
    (hk : s.files.lookup key = some info) : Calm (.onDisk d false []) info.offset blockAlignment := by
  have hend : s.layout.regionA ≤ d.size := by
    obtain ⟨sb, index, -, hdesc, -⟩ := hd.holds
    have hlayout := hdesc.layout
    rw [← hd.size_eq] at hlayout
    unfold layoutOf at hlayout
    generalize (if 0 < sb.indexSlotCapacity then sb.indexSlotCapacity.toNat else indexRegionSize) = capacity at hlayout
    dsimp only at hlayout
    split at hlayout
    · cases hlayout
    · rw [← congrArg Layout.regionA (Except.ok.inj hlayout)]
      exact Nat.sub_le _ _
  have hmem : info.span ∈ spans s.files := List.mem_map_of_mem (mem_values hk)
  obtain ⟨-, hin, hpos⟩ := hs.extents.inside _ hmem
  obtain ⟨-, hwhole⟩ := hs.extents.aligned _ hmem
  have hle : info.offset + info.paddedSize ≤ s.layout.regionA := hin
  have hblock : blockAlignment ≤ info.paddedSize := Nat.le_of_dvd hpos (Nat.dvd_of_mod_eq_zero hwhole)
  refine ⟨rfl, (fun h => nomatch h), ?_⟩
  show info.offset + blockAlignment ≤ d.size
  omega

/-- An open whose device calls succeed keeps what has a sealed first block. -/
theorem scan_keeps {d : Disk} {io : DeviceIo} (hs : SpaceInv s []) (hd : Committed s d)
    (hopen : (openImpl .default false).exec (.onDisk d false []) = (.ok s', io)) {key : Key} {info : ExtentInfo}
    (hk : s.files.lookup key = some info) (hplain : isMultipartTmp key = false) (hfirst : FirstSealed d info) :
    s'.files.lookup key = some info := by
  obtain ⟨sb, index, hcommitted, hdesc, hlookup⟩ := hd.holds
  have hvalid : index.validate s.layout.regionA = (index, []) := validate_ok (hs.extents.of_subset fun k info h => by
    rw [← hlookup]
    exact h)
  have hwp : Prog.wp (openImpl .default false) (fun t _ => t.files.lookup key = some info) (fun _ _ => True)
      (.onDisk d false []) := by
    unfold openImpl
    rw [Prog.wp_bind]
    refine Prog.wp_mono wp_loadIndex ?_ (fun _ _ _ => trivial)
    intro r io1 hload
    obtain ⟨hc, ha⟩ := hload
    obtain rfl : (sb, s.layout, index) = r := Except.ok.inj (hcommitted.symm.trans hc)
    dsimp only
    rw [hvalid, Prog.wp_bind]
    have hcalm : ∀ k info, index.files.lookup k = some info → Calm io1 info.offset blockAlignment := by
      intro k info hi
      rw [hlookup] at hi
      exact (calm_first hs hd hi).aged ha
    refine Prog.wp_mono (wp_scan_default hcalm) ?_ (fun _ _ h => h.elim)
    intro stale io2 hscan
    have hfresh : key ∉ stale.map (·.1) := by
      intro hstale
      refine (hscan.2 key info (by rw [hlookup]; exact hk)).mp hstale ?_
      rw [ha.dev_eq]
      exact hfirst
    have hkept : (index.recover s.layout.regionA stale false (sb.txnId + 1)).1.files.lookup key = some info := by
      rw [(lookup_recover index s.layout.regionA stale false (sb.txnId + 1) key).1, hlookup, hk, if_neg]
      unfold DeviceIndex.recover
      rw [hvalid]
      intro hmem
      simp only [List.nil_append, Bool.false_eq_true, if_false, List.mem_append] at hmem
      rcases hmem with hmem | hmem
      · exact hfresh hmem
      · rw [mem_multipartKeys, hplain] at hmem
        exact absurd hmem.1 (by simp)
    rw [Prog.wp_bind, Prog.wp_failIf]
    refine ⟨fun _ => trivial, fun _ => ?_⟩
    rw [Prog.wp_bind, Prog.wp_failIf]
    refine ⟨fun _ => trivial, fun _ => ?_⟩
    rw [Prog.wp_bind, wp_ofExcept]
    split
    · exact hkept
    · trivial
  exact Prog.wp_ok hwp hopen

theorem flushed_space {s0 s1 : Store} {script : List Outcome} (h0 : Reach NoReload Committed s0)
    (hflush : flushIndex.exec (s0.withScript script) = (.ok (), s1)) : SpaceInv s1 [] := by
  have hframe := flush_frame (s0.withScript script)
  rw [hflush] at hframe
  exact hframe.space ((reach_inv h0).1.congr rfl rfl rfl)

/-- A run is flushed, goes on with calls other than copies, and ends in a crash. -/
theorem reuse_is_detected_iff {s0 s1 : Store} {script : List Outcome} {ops : List TimedOp} {d : Disk}
    (h0 : Reach NoReload Committed s0) (hflush : flushIndex.exec (s0.withScript script) = (.ok (), s1))
    (hops : ∀ c ∈ ops, ¬ c.op.Copies) (hd : Crashed s1 ops d)
    (hopens : ∃ s' io, (openImpl .default false).exec (.onDisk d false []) = (.ok s', io)) :
    DetectsReuse s1 (s1.written ops) d ↔ ∀ key info, s1.files.lookup key = some info →
      Overwritten d (s1.written ops) key info → isMultipartTmp key = true := by
  have hs := flushed_space h0 hflush
  constructor
  · intro hdetects key info hk hover
    by_contra htmp
    have hplain : isMultipartTmp key = false := by simpa using htmp
    obtain ⟨s', io, hopen⟩ := hopens
    have hfirst := hover.firstSealed (written_sealed hops s1) (hs.sized info (mem_values hk))
    have hkept := scan_keeps hs hd.toCommitted hopen hk hplain hfirst
    have hdropped := hdetects.drops [] s' io hopen key info hk hover
    rw [hdropped] at hkept
    cases hkept
  · intro hparts
    have hdrops : ∀ script s' io, (openImpl .default false).exec (.onDisk d false script) = (.ok s', io) → ∀ key info,
        s1.files.lookup key = some info → Overwritten d (s1.written ops) key info → s'.files.lookup key = none := by
      intro script s' io hopen key info hk hover
      by_contra hsome
      obtain ⟨info', hk'⟩ := Option.ne_none_iff_exists'.mp hsome
      have hplain := ((hd.toCommitted.opened hopen).1 key info' hk').2
      rw [hparts key info hk hover] at hplain
      cases hplain
    refine ⟨hdrops, fun script s' io hopen key info hk hover hk' => ?_⟩
    rw [hdrops script s' io hopen key info hk hover] at hk'
    cases hk'

end Reuse

/-! ## A delete, a put and a crash -/

open Sample

def Sample.reusing : List TimedOp := [⟨.delete "k", 0, []⟩, ⟨.putOpts "a" [2] .overwrite, 1, []⟩]

/-- A run in which the second object takes the extent of the first. -/
structure Sample.Reused (s0 s1 : Store) (d : Disk) (info : ExtentInfo) : Prop where
  reached : Reach NoReload Committed s0
  flushed : flushIndex.exec (s0.withScript []) = (.ok (), s1)
  crashed : Crashed s1 reusing d
  opens : ∃ s' io, (openImpl .default false).exec (.onDisk d false []) = (.ok s', io)
  listed : s1.files.lookup "k" = some info
  overwritten : Overwritten d (s1.written reusing) "k" info

theorem Sample.reusing_ops : ∀ c ∈ reusing, ¬ c.op.Copies := by
  intro c hc
  rcases List.mem_cons.mp hc with rfl | hc
  · exact id
  · rw [List.mem_singleton.mp hc]
    exact id

structure Sample.Flushed (s : Store) (info : ExtentInfo) : Prop where
  sane : Sane s
  easy : Easy 67108864 s.io
  fits : ∀ i, (s.blob i).length ≤ s.shardSlotSize
  dataEnd : s.dataEnd = 33554432
  maxKeyLength : s.maxKeyLength = 1024
  compression : s.compression = .none
  entries : s.files.entries = [⟨"k", info⟩]
  offset : info.offset = dataStart
  size : info.size = 1

theorem Sample.flushed_reached : ∃ s0 s1 info, Reach NoReload Committed s0 ∧
    flushIndex.exec (s0.withScript []) = (.ok (), s1) ∧ Flushed s1 info := by
  obtain ⟨io, io', hs, heasy⟩ := oneObject_reached
  have hsane := orderly_sane hs
  obtain ⟨s1, hflush, heasy⟩ := flush_returns (s := (oneObject io io').withScript []) (hsane.withScript []).laid.geometry rfl
    (oneObject_fits io io') ⟨rfl, heasy.2⟩
  have hframe := flush_frame ((oneObject io io').withScript [])
  have hsane1 := (hsane.withScript []).flush
  rw [hflush] at hframe hsane1
  dsimp only at hframe
  have hproper : ∀ (s : Store) c, Orderly s c → NoReload s c := by
    intro s c hc he
    rw [he] at hc
    exact hc.1
  refine ⟨_, s1, (options.newStore io).byteInfo dataStart 0, hs.mono hproper fun _ _ hd => hd.toCommitted, hflush, hsane1, heasy,
    fun i => ?_, ?_, ?_, ?_, ?_, rfl, rfl⟩
  · rw [hframe]
    exact oneObject_fits io io' i
  · rw [hframe]
    rfl
  · rw [hframe]
    rfl
  · rw [hframe]
    rfl
  · rw [hframe]
    exact oneObject_entries io io'

/-- What the calls leave: the second object where the first one was. -/
theorem Sample.Flushed.reuse {s : Store} {info : ExtentInfo} (h : Flushed s info) :
    (s.afterOps reusing).io = { s.io with script := [] }.withByte dataStart 2 ∧
      s.written reusing = [("a", .write dataStart (encodeBlocks [2]) fun _ => true)] := by
  -- the delete gives the extent back
  set s2 := (⟨.delete "k", 0, []⟩ : TimedOp).after s with hs2
  have hlook : s.files.lookup "k" = some info := AList.mem_lookup_iff.mpr (by rw [h.entries]; simp)
  have hdeleted : s2 = { (s.withScript []).dropFile "k" with dirty := true } := by
    have hro : (s.withScript []).readOnly = false := h.sane.laid.readOnly
    show ((delete "k").exec (s.withScript [])).2 = _
    unfold delete
    simp only [Prog.exec_bind, Prog.exec_get, Prog.exec_failIf, Prog.exec_modify, hro, Bool.false_eq_true, if_false]
    rw [if_pos (by show (s.files.lookup "k").isSome = true; rw [hlook]; rfl)]
  have hframed : Framed (s.withScript []) s2 := by
    rw [hdeleted]
    exact (framed_dropFile (s.withScript []) "k").trans rfl
  have hsane : Sane s2 := (h.sane.withScript []).op (.delete "k") 0 trivial
  have hio : s2.io = { s.io with script := [] } := hframed.io_eq
  have hfiles : s2.files = ∅ := by
    apply AList.ext
    rw [AList.empty_entries, List.eq_nil_iff_forall_not_mem]
    intro e he
    have hleft : s2.files.lookup e.1 = some e.2 := AList.mem_lookup_iff.mpr he
    rw [hdeleted] at hleft
    change ((s.withScript []).dropFile "k").files.lookup e.1 = some e.2 at hleft
    rw [lookup_dropFile] at hleft
    split at hleft
    · cases hleft
    · next hne =>
      have hold := AList.mem_lookup_iff.mp hleft
      change e ∈ s.files.entries at hold
      rw [h.entries, List.mem_singleton] at hold
      exact hne (congrArg Sigma.fst hold)
  have hend : s2.dataEnd = 33554432 := by
    rw [hframed]
    exact h.dataEnd
  have halloc : (s2.withScript []).allocator = some (.fromFreeList (rebuildFreeList ∅ 33554432).2 dataStart 33554432) := by
    have hrebuilt := hsane.space.rebuilt
    rw [hfiles, hend] at hrebuilt
    exact hrebuilt
  -- and the put takes it
  obtain ⟨a, hfree⟩ : ∃ a, (ExtentAllocator.fromFreeList (rebuildFreeList ∅ 33554432).2 dataStart 33554432).alloc blockAlignment =
      .ok (dataStart, a) := ⟨_, rfl⟩
  have hmax : keyLen "a" ≤ (s2.withScript []).maxKeyLength := by
    have hlimit : (s2.withScript []).maxKeyLength = 1024 := by
      show s2.maxKeyLength = 1024
      rw [hframed]
      exact h.maxKeyLength
    rw [hlimit]
    decide
  have hcomp : (s2.withScript []).compression = .none := by
    show s2.compression = .none
    rw [hframed]
    exact h.compression
  have heasy : Easy 67108864 (s2.withScript []).io := by
    obtain ⟨-, hdir, hro, hsize⟩ := h.easy
    show Easy 67108864 { s2.io with script := [] }
    rw [hio]
    exact ⟨rfl, hdir, hro, hsize⟩
  obtain ⟨_, s3, hput, hs3⟩ := Prog.wp_returns (wp_putBlock (b := 2) (s := s2.withScript []) hsane.laid.readOnly hmax hcomp halloc
    hfree heasy (by decide) 1) fun _ _ h => h
  have hafter : (⟨.putOpts "a" [2] .overwrite, 1, []⟩ : TimedOp).after s2 = s3 := by
    show ((doPut 1 "a" [2]).exec (s2.withScript [])).2 = s3
    rw [hput]
  have hio3 : s3.io = { s.io with script := [] }.withByte dataStart 2 := by
    rw [hs3, (framed_replaceFile _ _ _).io_eq]
    show { s2.io with script := [] }.withByte dataStart 2 = _
    rw [hio]
  constructor
  · show ((⟨.putOpts "a" [2] .overwrite, 1, []⟩ : TimedOp).after s2).io = _
    rw [hafter]
    exact hio3
  · show ((((⟨.putOpts "a" [2] .overwrite, 1, []⟩ : TimedOp).after s2).io.log.drop s2.io.log.length).map fun e => ("a", e)) ++ [] = _
    rw [hafter, hio3, hio, List.append_nil]
    show ((s.io.log ++ [_]).drop s.io.log.length).map _ = _
    rw [List.drop_left]
    rfl

/-- The data area of the device after the crash is that of the device before it. -/
theorem Sample.reused_reached : ∃ s0 s1 d info, Reused s0 s1 d info := by
  obtain ⟨s0, s1, info, h0, hflush, h⟩ := flushed_reached
  obtain ⟨hio, hwritten⟩ := h.reuse
  have hcommitted : Committed s1 (s1.image (s1.afterOps reusing).io.dev.byte) :=
    (image_committed h.sane.laid h.fits (s1.afterOps reusing).io.dev.byte).toCommitted
  have hbyte : ∀ a, dataStart ≤ a → a < s1.dataEnd →
      (s1.image (s1.afterOps reusing).io.dev.byte).byte a = (s1.io.dev.write dataStart (encodeBlocks [2]) fun _ => true).byte a := by
    intro a h1 h2
    show (if a < dataStart then _ else if a < s1.indexRegionA then (s1.afterOps reusing).io.dev.byte a else _) = _
    rw [if_neg (Nat.not_lt.mpr h1), if_pos (show a < s1.indexRegionA from h2), hio]
    rfl
  have hone : numBlocks info.size = 1 := by
    rw [h.size]
    decide
  have hlen : (encodeBlocks [2]).length = blockAlignment := length_encodeBlocks [2]
  refine ⟨s0, s1, s1.image (s1.afterOps reusing).io.dev.byte, info, h0, hflush, ⟨hcommitted, fun a h1 h2 => ?_⟩, ?_, ?_,
    fun j hj => ?_⟩
  · rw [hbyte a h1 h2]
    by_cases hin : a < dataStart + (encodeBlocks [2]).length
    · refine .inr ⟨dataStart, encodeBlocks [2], fun _ => true, ?_, h1, hin, ?_⟩
      · rw [hio]
        show _ ∈ (s1.io.log ++ [_]).drop s1.io.log.length
        rw [List.drop_left]
        exact List.mem_singleton_self _
      · exact if_pos ⟨h1, hin, rfl⟩
    · exact .inl (Disk.write_byte_outside (.inr (Nat.not_lt.mp hin)))
  · obtain ⟨index, his, -, hopens⟩ := image_opens h.sane.laid h.sane.space h.fits (s1.afterOps reusing).io.dev.byte .default false
    have hcalm : ∀ k info, index.files.lookup k = some info →
        Calm (.onDisk (s1.image (s1.afterOps reusing).io.dev.byte) false []) info.offset blockAlignment := by
      intro k info hk
      rw [his.files] at hk
      exact calm_first h.sane.space hcommitted hk
    obtain ⟨s', io, -, -, hopen, -⟩ := hopens _ (wp_scan_default hcalm)
    exact ⟨s', io, hopen⟩
  · exact AList.mem_lookup_iff.mpr (by rw [h.entries]; simp)
  · rw [hone] at hj
    obtain rfl : j = 0 := by omega
    have hread : (s1.image (s1.afterOps reusing).io.dev.byte).read dataStart blockAlignment = encodeBlocks [2] := by
      have hsame := Disk.read_write_same s1.io.dev dataStart (encodeBlocks [2])
      rw [hlen] at hsame
      rw [← hsame]
      refine Disk.read_congr fun a h1 h2 => hbyte a h1 ?_
      have hend := h.dataEnd
      have e1 : dataStart = 8192 := rfl
      have e2 : blockAlignment = 4096 := rfl
      omega
    refine ⟨"a", dataStart, encodeBlocks [2], fun _ => true, 0, ?_, by decide, ?_, ?_, ?_⟩
    · rw [hwritten]
      exact List.mem_singleton_self _
    · rw [h.offset]
    · rw [hlen, Nat.zero_add, Nat.one_mul]
    · rw [h.offset, Nat.zero_mul, Nat.add_zero, hread]
      unfold rawBlock
      rw [Nat.zero_mul, List.drop_zero, ← hlen, List.take_length]

/-- That object is not the part of an upload, and the open does not drop it. -/
theorem a_reused_extent_goes_unseen : ∃ s0 s1 d, Reach NoReload Committed s0 ∧
    flushIndex.exec (s0.withScript []) = (.ok (), s1) ∧ Crashed s1 reusing d ∧
    (DetectsReuse s1 (s1.written reusing) d ↔ ∀ key info, s1.files.lookup key = some info →
      Overwritten d (s1.written reusing) key info → isMultipartTmp key = true) := by
  obtain ⟨s0, s1, d, info, h⟩ := reused_reached
  exact ⟨s0, s1, d, h.reached, h.flushed, h.crashed,
    reuse_is_detected_iff h.reached h.flushed reusing_ops h.crashed h.opens⟩

/-- A delete, a put that takes the extent, and a crash: the open keeps the deleted key, whose block is the other object's. -/
theorem a_reused_extent_is_kept : ¬ ∀ (s0 s1 : Store) (script : List Outcome) (ops : List TimedOp) (d : Disk),
    Reach NoReload Committed s0 → flushIndex.exec (s0.withScript script) = (.ok (), s1) → (∀ c ∈ ops, ¬ c.op.Copies) →
    Crashed s1 ops d → (∃ s' io, (openImpl .default false).exec (.onDisk d false []) = (.ok s', io)) →
    DetectsReuse s1 (s1.written ops) d := by
  intro hall
  obtain ⟨s0, s1, d, info, h⟩ := reused_reached
  have hdetects := hall s0 s1 [] reusing d h.reached h.flushed reusing_ops h.crashed h.opens
  obtain ⟨s', io, hopen⟩ := h.opens
  have hs := flushed_space h.reached h.flushed
  have hfirst := h.overwritten.firstSealed (written_sealed reusing_ops s1) (hs.sized info (mem_values h.listed))
  have hkept := scan_keeps hs h.crashed.toCommitted hopen h.listed (by decide) hfirst
  have hdropped := hdetects.drops [] s' io hopen "k" info h.listed h.overwritten
  rw [hdropped] at hkept
  cases hkept

end ObjStr.Raw
