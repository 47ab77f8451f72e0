import DiscoClient.IoManager.WriteCopy

namespace DiscoClient
open List

/-- Contiguous block requests, the first one at sector pos. Byte addresses are 64-bit numbers. -/
structure CopyReq.Ok (r : CopyReq) (pos : Nat) (rqs : List RqData) : Prop where
  rqs_eq : r.rqs = rqs.map some
  wellFormed : ∀ rq ∈ rqs, rq.WellFormed
  contiguous : RqData.Contiguous pos rqs
  nr_pos : 0 < r.nrKsects
  nr_max : r.nrKsects ≤ maxSectsPerRq
  first : pos + r.sectsShift ≤ r.kernSect
  last : 512 * (r.kernSect + r.nrKsects) ≤ 512 * (pos + r.sectsShift) + (RqData.allBytes rqs).length
  addr : 512 * (r.kernSect + r.nrKsects) ≤ 2 ^ 64
  mask : ioReqSetLbalignMask r.kernSect r.nrKsects = some (r.maskLbAlign, r.isDmsLbAlign)

namespace CopyReq
variable {r : CopyReq} {pos : Nat} {rqs : List RqData}

def lbidStart (r : CopyReq) : Nat := r.kernSect >>> bitLenDmsLbSects

def lbidLen (r : CopyReq) : Nat := ioReqLbidLen r.kernSect r.nrKsects

def userBytes (r : CopyReq) (pos : Nat) (rqs : List RqData) : List Byte :=
  slice (RqData.allBytes rqs) (512 * (r.kernSect - r.sectsShift - pos)) (512 * r.nrKsects)

theorem Ok.length_userBytes (h : r.Ok pos rqs) : (r.userBytes pos rqs).length = 512 * r.nrKsects := by
  have hfirst := h.first
  have hlast := h.last
  exact Slice.length_slice (by omega)

theorem lbidStart_eq (r : CopyReq) : r.lbidStart = r.kernSect / 8 := Nat.shiftRight_eq_div_pow r.kernSect 3

theorem Ok.maskOk (h : r.Ok pos rqs) : MaskOk r.kernSect r.nrKsects r.maskLbAlign r.isDmsLbAlign := by
  have haddr := h.addr
  obtain ⟨mask, aligned, hmask, hok⟩ := exists_maskOk (s := r.kernSect) h.nr_pos h.nr_max (by omega)
  rw [h.mask] at hmask
  obtain ⟨rfl, rfl⟩ : r.maskLbAlign = mask ∧ r.isDmsLbAlign = aligned := by simpa using hmask
  exact hok

theorem Ok.bytesSkip_eq (h : r.Ok pos rqs) : r.bytesSkip = 512 * (r.kernSect - 8 * r.lbidStart) := by
  rw [bytesSkip, lbidStart_eq]
  split_ifs with haligned
  · have hdvd := (h.maskOk.aligned.mp haligned).1
    omega
  · rw [h.maskOk.head, shiftLeft_bitLenSectSize]

/-- The payload after the copy: zeros up to the first user byte, then the bytes of the request. -/
theorem Ok.wCopy (h : r.Ok pos rqs) (hsegs : ∀ rq ∈ rqs, ∀ seg ∈ rq.segs, seg.length ≤ 4096) {sizes : List Nat}
    {chunks : List (List Byte)} (hmem : PayloadMem r.lbidLen sizes chunks) :
    ∃ chunks', ioReqWCopyDataBio2mem r sizes chunks = some (chunks', 0) ∧
      chunks'.flatten = overwrite chunks.flatten 0
        (List.replicate (512 * (r.kernSect - 8 * r.lbidStart)) 0#8 ++ r.userBytes pos rqs) ∧
      chunks'.map List.length = chunks.map List.length := by
  obtain ⟨skip, hskip⟩ : ∃ skip, 512 * (r.kernSect - 8 * r.lbidStart) = skip := ⟨_, rfl⟩
  obtain ⟨hlow, hhigh, hone⟩ := ioReqLbidLen_bounds (s := r.kernSect) h.nr_pos
  have hfirst := h.first
  have hlast := h.last
  have hnr := h.nr_pos
  have hstart := lbidStart_eq r
  have hlbs : ioReqLbidLen r.kernSect r.nrKsects = r.lbidLen := rfl
  have hle := hmem.le_length
  obtain ⟨chunks₁, hzero, hflat₁, hlens₁⟩ := hmem.writeAt_chunkAt (a := 0) (List.replicate skip 0#8) (by omega)
    (by rw [length_replicate, chunkAt]; simp only; omega)
  obtain ⟨chunks₂, hloop, hflat₂, hlens₂⟩ := wCopyLoop_spec (a := skip) (T := 512 * r.nrKsects) rqs pos
    (512 * (r.kernSect - r.sectsShift - pos)) h.contiguous h.wellFormed hsegs (hmem.congr hlens₁) (by omega) (by omega) (by omega)
    (.inr (by rw [chunkAt]; simp only; omega))
  refine ⟨chunks₂, ?_, ?_, hlens₂.trans hlens₁⟩
  · have hcp : chunkAt r.lbidLen skip = ⟨0, skip, (chunkAt r.lbidLen skip).rLen⟩ := by
      rw [chunkAt, show skip / 131072 = 0 by omega, show skip % 131072 = skip by omega]
    rw [hcp] at hloop
    rw [ioReqWCopyDataBio2mem, h.bytesSkip_eq, hskip, h.rqs_eq, shiftLeft_bitLenSectSize, shiftLeft_bitLenSectSize,
      show writeAt chunks 0 0 _ = _ from hzero, Option.bind_some,
      show 512 * (r.kernSect - r.sectsShift) = 512 * pos + 512 * (r.kernSect - r.sectsShift - pos) by omega]
    exact hloop
  · rw [hflat₂, hflat₁, hskip, ← Overwrite.overwrite_append (Nat.zero_le _), length_replicate, Nat.zero_add]
    rfl

end CopyReq

/-- Every user byte is in its place in the payload, all of them are taken, and zeros stand in front. -/
theorem write_copy_placed (r : CopyReq) (pos : Nat) (rqs : List RqData) (d : IoPayload Byte) (h : r.Ok pos rqs)
    (hsegs : ∀ rq ∈ rqs, ∀ seg ∈ rq.segs, seg.length ≤ 4096) (hd : d.lbidLen = r.lbidLen) :
    ∃ chunks left, ioReqWCopyDataBio2mem r d.chunkItemSize d.chunks = some (chunks, left) ∧ left = 0 ∧
      chunks.map List.length = d.chunks.map List.length ∧
      (∀ b, 512 * r.kernSect ≤ b → b < 512 * (r.kernSect + r.nrKsects) →
        ∃ byte, (RqData.allBytes rqs)[b - 512 * (pos + r.sectsShift)]? = some byte ∧
          chunks.flatten[b - 4096 * r.lbidStart]? = some byte) ∧
      ∀ i < 512 * r.kernSect - 4096 * r.lbidStart, chunks.flatten[i]? = some 0#8 := by
  have hmem := d.payloadMem
  rw [hd] at hmem
  obtain ⟨chunks, hcopy, hflat, hlens⟩ := h.wCopy hsegs hmem
  have hstart := r.lbidStart_eq
  have hfirst := h.first
  have hlast := h.last
  refine ⟨chunks, 0, hcopy, rfl, hlens, fun b hb hb' => ?_, fun i hi => ?_⟩
  · have hin : b - 512 * (pos + r.sectsShift) < (RqData.allBytes rqs).length := by omega
    refine ⟨_, List.getElem?_eq_getElem hin, ?_⟩
    have huser := h.length_userBytes
    rw [hflat, show b - 4096 * r.lbidStart = 0 + (512 * (r.kernSect - 8 * r.lbidStart) + (b - 512 * r.kernSect)) by omega,
      Overwrite.getElem?_of_mem (Nat.zero_le _) (by rw [length_append, length_replicate, huser]; omega),
      List.getElem?_append_right (by rw [length_replicate]; omega), length_replicate, Nat.add_sub_cancel_left,
      CopyReq.userBytes, slice, List.getElem?_take_of_lt (by omega), List.getElem?_drop,
      show 512 * (r.kernSect - r.sectsShift - pos) + (b - 512 * r.kernSect) = b - 512 * (pos + r.sectsShift) by omega]
    exact List.getElem?_eq_getElem hin
  · rw [hflat, ← Nat.zero_add i,
      Overwrite.getElem?_of_mem (Nat.zero_le _) (by rw [length_append, length_replicate]; omega),
      List.getElem?_append_left (by rw [length_replicate]; omega), List.getElem?_replicate_of_lt (by omega)]

def copyReqTwoRqs : CopyReq where
  kernSect := 13
  nrKsects := 3
  sectsShift := 0
  isDmsLbAlign := false
  maskLbAlign := 0xe0#8 :: List.replicate 32 0#8
  rqs := [some ⟨12, [List.replicate 1024 1#8]⟩, some ⟨14, [List.replicate 512 2#8, List.replicate 1024 3#8]⟩]

def oneLbPayload : IoPayload Byte where
  lbidLen := 1
  chunks := [List.replicate maxSizeKernelMemChunk 7#8]
  chunkItemSize := [4096]
  lbidLen_lt := Nat.le_of_ble_eq_true rfl
  allocated := ⟨fun _ => true, rfl⟩
  length_chunks := rfl
  chunk_size := fun _ h => (congrArg List.length (List.mem_singleton.mp h)).trans List.length_replicate

theorem copyReqTwoRqs_ok : copyReqTwoRqs.Ok 12
    [⟨12, [List.replicate 1024 1#8]⟩, ⟨14, [List.replicate 512 2#8, List.replicate 1024 3#8]⟩] where
  rqs_eq := rfl
  wellFormed := by
    intro rq hrq
    simp only [mem_cons, not_mem_nil, or_false] at hrq
    rcases hrq with rfl | rfl
    · exact ⟨cons_ne_nil _ _, by simp [-List.reduceReplicate], by simp [-List.reduceReplicate]⟩
    · exact ⟨cons_ne_nil _ _, by simp [-List.reduceReplicate], by simp [-List.reduceReplicate]⟩
  contiguous := by simp [-List.reduceReplicate, RqData.Contiguous, RqData.sectors, RqData.bytes, bitLenSectSize]
  nr_pos := by decide
  nr_max := by decide
  first := by decide
  last := by simp [-List.reduceReplicate, copyReqTwoRqs, RqData.allBytes, RqData.bytes]
  addr := by decide
  mask := by decide +kernel

theorem write_copy_placed_two_rqs :
    ∃ chunks left, ioReqWCopyDataBio2mem copyReqTwoRqs oneLbPayload.chunkItemSize oneLbPayload.chunks = some (chunks, left) ∧
      left = 0 ∧ ∀ i < 2560, chunks.flatten[i]? = some 0#8 := by
  obtain ⟨chunks, left, hcopy, hleft, -, -, hzero⟩ := write_copy_placed copyReqTwoRqs 12 _ oneLbPayload copyReqTwoRqs_ok
    (by simp [-List.reduceReplicate]) (by decide)
  exact ⟨chunks, left, hcopy, hleft, hzero⟩

end DiscoClient
