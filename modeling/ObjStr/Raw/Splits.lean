/-
  ObjStr.Raw.Splits — where the body of an object ends and its metadata begins.

  Both are stored in one extent, and the index has the length of the metadata: a full GET gives what is before it
  (`IsObject.exec_getFull`), `get_metadata` what is behind (`IsObject.exec_getMetadata`).
-/

import ObjStr.Raw.Sane
import ObjStr.Raw.Ranges

namespace ObjStr.Raw

open ObjStr.Lib

section Splits

variable [Crates] {s s' : Store} {key : Key} {body metadata payload : Bytes} {info : ExtentInfo} {metaLen : UInt16}

omit [Crates] in
theorem DeviceIo.extent_blocks (io : DeviceIo) (n : Nat) : io.extent (n * blockAlignment) = n * blockAlignment := by
  unfold DeviceIo.extent alignLen alignUp blockAlignment
  split <;> omega

/-- When no device call fails, none that reads an entry does. -/
theorem Sane.calmAt (h : Sane s) (key : Key) : (s.withScript []).CalmAt key := by
  intro info hinfo
  have hmem : info.span ∈ spans s.files := List.mem_map_of_mem (mem_values hinfo)
  have hextents := h.space.extents
  obtain ⟨-, hinside, -⟩ := hextents.inside _ hmem
  have hpadded := (h.padded key info hinfo).padded
  have hsize : (s.withScript []).io.dev.size = _ := h.laid.geometry.size
  have hregionB := h.laid.geometry.regionB
  refine ⟨rfl, fun _ => (hextents.aligned _ hmem).1, ?_⟩
  rw [DeviceIo.extent_blocks, ← hpadded, hsize]
  unfold Store.dataEnd at hinside
  simp only [ExtentInfo.span] at hinside
  omega

/-! ## Reading an object -/

/-- A full GET gives the body. -/
theorem IsObject.exec_getFull (h : IsObject s key info payload) (hnone : s.compression = .none → info.uncompressedSize = 0) :
    (getFull key).exec s = (.ok (payload.take info.bodySize), s) := by
  have hcalm : s.CalmAt key := by
    intro info' hinfo
    obtain rfl := Option.some.inj (h.listed.symm.trans hinfo)
    exact h.calm
  have hdelivers : s.Delivers key (payload.take info.bodySize) := ⟨info, h.listed, h.stored.delivered hnone⟩
  rcases exec_getStream hcalm with ⟨hrefuses, -⟩ | ⟨-, g, r, hstream, hconsume, hbody⟩
  · obtain ⟨-, hsnappy, hbad⟩ := hrefuses info h.listed
    have hpayload := h.stored.payloadOf
    rw [hsnappy] at hpayload
    exact absurd hpayload (hbad payload)
  · obtain rfl := (hbody _).mpr hdelivers
    unfold getFull
    rw [Prog.exec_bind, hstream]
    exact hconsume

/-- The metadata is what is behind the body. -/
theorem IsObject.exec_getMetadata (h : IsObject s key info payload) (hmax : info.uncompressedSize ≤ compressedRangeReadMax)
    (hle : info.metaLen.toNat ≤ payload.length) :
    (getMetadata key).exec s = (.ok (payload.drop info.bodySize), s) := by
  have hlen := h.stored.length
  have hbody : info.bodySize = payload.length - info.metaLen.toNat := by rw [ExtentInfo.bodySize, hlen]
  unfold getMetadata
  rw [Prog.exec_bind, exec_getFile_listed h.listed]
  dsimp only
  by_cases hzero : info.metaLen = 0
  · rw [if_pos hzero, hbody, hzero]
    simp only [UInt16.toNat_zero, Nat.sub_zero, List.drop_length]
    rfl
  · have hpos : 0 < info.metaLen.toNat := by
      rw [Nat.pos_iff_ne_zero]
      intro h0
      exact hzero (UInt16.toNat_inj.mp h0)
    rw [if_neg hzero, Prog.exec_bind, ← hlen, h.exec_doGetRange hmax (by omega) (Nat.le_refl _)]
    show (Except.ok (slice payload _ _), s) = _
    unfold slice
    rw [hbody, List.take_of_length_le (by rw [List.length_drop])]

end Splits

end ObjStr.Raw
