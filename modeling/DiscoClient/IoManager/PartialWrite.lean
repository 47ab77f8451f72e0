import DiscoClient.IoManager.WritePlaced
import DiscoClient.Payload.WritePlacement

namespace DiscoClient
open List

def maskBit (lbMsk : List (BitVec 8)) (j : Nat) : Bool := (lbMsk[j / bitLenPer1Mask]?.getD 0#8).getLsbD (j % bitLenPer1Mask)

/-- Clear bits before the first one that is set, and 0 if there is none. -/
def clearBits (n : Nat) (bit : Nat → Bool) : Nat :=
  let clear := ((List.range n).takeWhile fun j => !bit j).length
  if clear < n then clear else 0

def copyPayloadFromHead (lbMsk : List (BitVec 8)) (numHbid : Nat) : Nat :=
  clearBits (numHbid * bitLenPer1Mask) (maskBit lbMsk)

def copyPayloadFromTail (lbMsk : List (BitVec 8)) (numHbid : Nat) : Nat :=
  clearBits (numHbid * bitLenPer1Mask) fun j => maskBit lbMsk (numHbid * bitLenPer1Mask - 1 - j)

/-- get_payload_ref: chunk and offset. Its caller does not use the length. -/
def getPayloadRef (payloadOffset : Nat) : Nat × Nat :=
  let chunkIndex := (payloadOffset >>> bitLenMemChunk) % 2 ^ 32
  (chunkIndex, payloadOffset - (chunkIndex <<< bitLenMemChunk) % 2 ^ 32)

def copySects (src : List Byte) (chunks : List (List Byte)) (ref : Nat × Nat) (o sects : Nat) : Option (List (List Byte)) :=
  if sects > 0 then (readAt src o (sects <<< bitLenSectSize : Nat)).bind fun data => writeAt chunks ref.1 (ref.2 + o) data
  else some chunks

/-- ioReq_RCopyData_mem2wbuff with the first chunk of what was read. -/
def ioReqRCopyDataMem2wbuff (r : CopyReq) (startlb lbLen payloadOff : Nat) (src : List Byte) (chunks : List (List Byte)) :
    Option (List (List Byte)) :=
  let lbMsk := r.maskLbAlign.drop ((startlb + 2 ^ 64 - r.lbidStart) % 2 ^ 32)
  let numHbid := lbLen % 2 ^ 16
  let ref := getPayloadRef payloadOff
  (copySects src chunks ref 0 (copyPayloadFromHead lbMsk numHbid)).bind fun chunks =>
    copySects src chunks ref (numHbid <<< bitLenDmsLbSize - copyPayloadFromTail lbMsk numHbid <<< bitLenSectSize)
      (copyPayloadFromTail lbMsk numHbid)

def patchLbs (r : CopyReq) (old : Nat → List Byte) : List Nat → List (List Byte) → Option (List (List Byte))
  | [], chunks => some chunks
  | i :: lbs, chunks =>
    (ioReqRCopyDataMem2wbuff r (r.lbidStart + i) 1 (4096 * i) (old i) chunks).bind fun chunks => patchLbs r old lbs chunks

theorem clearBits_eq {n c : Nat} {bit : Nat → Bool} (hc : c < n) (hclear : ∀ j < c, bit j = false) (hset : bit c = true) :
    clearBits n bit = c := by
  have hlen : ((List.range n).takeWhile fun j => !bit j).length = c :=
    length_takeWhile_range hc (fun j hj => by rw [hclear j hj]; rfl) (by rw [hset]; rfl)
  rw [clearBits, hlen]
  exact if_pos hc

section
variable {s len i : Nat} {mask : List (BitVec 8)} {aligned : Bool} (hmask : MaskOk s len mask aligned)
include hmask

theorem maskBit_drop (hi : i < maxLbsPerIor) {j : Nat} (hj : j < 8) :
    maskBit (mask.drop i) j = true ↔ s ≤ 8 * (s / 8) + 8 * i + j ∧ 8 * (s / 8) + 8 * i + j < s + len := by
  rw [maskBit, show j / bitLenPer1Mask = 0 from Nat.div_eq_of_lt hj, show j % bitLenPer1Mask = j from Nat.mod_eq_of_lt hj,
    List.getElem?_drop, Nat.add_zero]
  exact hmask.bits i hi j hj

variable (hpos : 0 < len) (hi : i < ioReqLbidLen s len)
include hpos hi

theorem copyPayloadFromHead_eq : copyPayloadFromHead (mask.drop i) 1 = s - 8 * (s / 8 + i) := by
  have hbounds := ioReqLbidLen_bounds (s := s) hpos
  have hfits := hmask.fits
  refine clearBits_eq (show _ < 8 by omega) (fun j hj => ?_) ?_
  · rw [← Bool.not_eq_true, maskBit_drop hmask (by omega) (by omega)]
    omega
  · rw [maskBit_drop hmask (by omega) (by omega)]
    omega

theorem copyPayloadFromTail_eq : copyPayloadFromTail (mask.drop i) 1 = 8 * (s / 8 + i + 1) - (s + len) := by
  have hbounds := ioReqLbidLen_bounds (s := s) hpos
  have hfits := hmask.fits
  refine clearBits_eq (show _ < 8 by omega) (fun j hj => ?_) ?_
  · change maskBit _ (7 - j) = false
    rw [← Bool.not_eq_true, maskBit_drop hmask (by omega) (by omega)]
    omega
  · change maskBit _ (7 - (8 * (s / 8 + i + 1) - (s + len))) = true
    rw [maskBit_drop hmask (by omega) (by omega)]
    omega

end

section
variable {n : Nat} {sizes : List Nat} {chunks : List (List Byte)} {src : List Byte}

private theorem copySects_spec (hmem : PayloadMem n sizes chunks) (src : List Byte) {i o m : Nat} (hi : i < n) (hn : n ≤ maxLbsPerIor)
    (ho : o + 512 * m ≤ 4096) (hsrc : 4096 ≤ src.length) :
    ∃ chunks', copySects src chunks (getPayloadRef (4096 * i)) o m = some chunks' ∧
      chunks'.flatten = overwrite chunks.flatten (4096 * i + o) (slice src o (512 * m)) ∧
      chunks'.map List.length = chunks.map List.length := by
  have hn : n ≤ 33 := hn
  rw [copySects, shiftLeft_bitLenSectSize]
  split_ifs with hpos
  · have hdata : (slice src o (512 * m)).length = 512 * m := Slice.length_slice (by omega)
    have hrem : i / 32 * 32 + i % 32 = i := Nat.div_add_mod' i 32
    obtain ⟨chunks', hwrite, hflat, hlens⟩ := hmem.writeAt_chunkAt (a := 4096 * i + o) (slice src o (512 * m)) (by omega)
      (by rw [hdata, chunkAt]; simp only; omega)
    refine ⟨chunks', ?_, hflat, hlens⟩
    have href : getPayloadRef (4096 * i) = (4096 * i / 131072, 4096 * i % 131072) := by
      rw [getPayloadRef, show (4096 * i) >>> bitLenMemChunk = 4096 * i / 131072 from Nat.shiftRight_eq_div_pow _ 17]
      rw [Nat.mod_eq_of_lt (by omega), show (4096 * i / 131072) <<< bitLenMemChunk = 4096 * i / 131072 * 131072 from
        Nat.shiftLeft_eq _ 17, Nat.mod_eq_of_lt (by omega)]
      congr 1
      omega
    rw [readAt_of_le (by omega), Option.bind_some, href, ← hwrite, chunkAt]
    congr 1 <;> simp only <;> omega
  · obtain rfl : m = 0 := by omega
    refine ⟨chunks, rfl, ?_, rfl⟩
    rw [Nat.mul_zero, Slice.slice_zero, Overwrite.overwrite_nil]

end

def sector (chunks : List (List Byte)) (i j : Nat) : List Byte := slice chunks.flatten (4096 * i + 512 * j) 512

def CopyReq.Written (r : CopyReq) (i j : Nat) : Prop := maskBit (r.maskLbAlign.drop i) j = true

instance (r : CopyReq) (i j : Nat) : Decidable (r.Written i j) := inferInstanceAs (Decidable (_ = true))

namespace CopyReq
variable {r : CopyReq} {pos : Nat} {rqs : List RqData} {sizes : List Nat} {chunks : List (List Byte)}

theorem Ok.mem2wbuff (h : r.Ok pos rqs) (hmem : PayloadMem r.lbidLen sizes chunks) {old : List Byte} (hold : 4096 ≤ old.length) {i : Nat}
    (hi : i < r.lbidLen) :
    ∃ chunks', ioReqRCopyDataMem2wbuff r (r.lbidStart + i) 1 (4096 * i) old chunks = some chunks' ∧
      chunks'.map List.length = chunks.map List.length ∧
      ∀ k < r.lbidLen, ∀ j < 8, sector chunks' k j =
        if k = i ∧ ¬ r.Written i j then slice old (512 * j) 512 else sector chunks k j := by
  have hmask := h.maskOk
  have haddr := h.addr
  have hstart := r.lbidStart_eq
  have hfits : r.lbidLen ≤ 33 := hmask.fits
  have hlbs : ioReqLbidLen r.kernSect r.nrKsects = r.lbidLen := rfl
  obtain ⟨hlow, hhigh, -⟩ := ioReqLbidLen_bounds (s := r.kernSect) h.nr_pos
  obtain ⟨head, hhead⟩ : ∃ head, r.kernSect - 8 * (r.kernSect / 8 + i) = head := ⟨_, rfl⟩
  obtain ⟨tail, htail⟩ : ∃ tail, 8 * (r.kernSect / 8 + i + 1) - (r.kernSect + r.nrKsects) = tail := ⟨_, rfl⟩
  obtain ⟨chunks₁, hcopy₁, hflat₁, hlens₁⟩ := copySects_spec hmem old hi hfits (o := 0) (m := head) (by omega) hold
  obtain ⟨chunks₂, hcopy₂, hflat₂, hlens₂⟩ := copySects_spec (hmem.congr hlens₁) old hi hfits (o := 4096 - 512 * tail) (m := tail)
    (by omega) hold
  refine ⟨chunks₂, ?_, hlens₂.trans hlens₁, fun k hk j hj => ?_⟩
  · rw [ioReqRCopyDataMem2wbuff, show (r.lbidStart + i + 2 ^ 64 - r.lbidStart) % 2 ^ 32 = i by omega]
    simp only [copyPayloadFromHead_eq hmask h.nr_pos hi, copyPayloadFromTail_eq hmask h.nr_pos hi, hhead, htail,
      show 1 % 2 ^ 16 = 1 from rfl]
    rw [hcopy₁, Option.bind_some, shiftLeft_bitLenSectSize]
    exact hcopy₂
  · have hle := hmem.le_length
    have hlen₁ : chunks₁.flatten.length = chunks.flatten.length := by rw [List.length_flatten, hlens₁, ← List.length_flatten]
    have hdata {o m : Nat} (ho : o + 512 * m ≤ 4096) : (slice old o (512 * m)).length = 512 * m := Slice.length_slice (by omega)
    have hbit : r.Written i j ↔ head ≤ j ∧ j < 8 - tail := by
      rw [Written, maskBit_drop hmask (lt_of_lt_of_le hi hfits) hj]
      omega
    rw [sector, hflat₂]
    by_cases hlast : k = i ∧ 8 - tail ≤ j
    · obtain ⟨rfl, hlast⟩ := hlast
      rw [if_pos ⟨rfl, by rw [hbit]; omega⟩,
        show 4096 * k + 512 * j = 4096 * k + (4096 - 512 * tail) + (512 * j - (4096 - 512 * tail)) by omega,
        Overwrite.slice_of_mem (by omega) (by rw [hdata (by omega)]; omega), Slice.slice_slice _ _ (by omega)]
      congr 1
      omega
    · rw [Overwrite.slice_of_disjoint (by omega) (by rw [hdata (by omega)]; omega), hflat₁]
      by_cases hfirst : k = i ∧ j < head
      · obtain ⟨rfl, hfirst⟩ := hfirst
        rw [if_pos ⟨rfl, by rw [hbit]; omega⟩, show 4096 * k + 512 * j = 4096 * k + 0 + 512 * j by omega,
          Overwrite.slice_of_mem (by omega) (by rw [hdata (by omega)]; omega), Slice.slice_slice _ _ (by omega), Nat.zero_add]
      · rw [if_neg (by rw [hbit]; omega), Overwrite.slice_of_disjoint (by omega) (by rw [hdata (by omega)]; omega)]
        rfl

theorem Ok.patchLbs (h : r.Ok pos rqs) (hmem : PayloadMem r.lbidLen sizes chunks) {old : Nat → List Byte}
    (hold : ∀ i, 4096 ≤ (old i).length) (lbs : List Nat) (hlbs : ∀ i ∈ lbs, i < r.lbidLen) :
    ∃ chunks', patchLbs r old lbs chunks = some chunks' ∧ chunks'.map List.length = chunks.map List.length ∧
      ∀ k < r.lbidLen, ∀ j < 8, sector chunks' k j =
        if k ∈ lbs ∧ ¬ r.Written k j then slice (old k) (512 * j) 512 else sector chunks k j := by
  induction lbs generalizing chunks with
  | nil => exact ⟨chunks, rfl, rfl, fun k _ j _ => by simp⟩
  | cons i lbs ih =>
    obtain ⟨chunks₁, hcall, hlens₁, hsect₁⟩ := h.mem2wbuff hmem (hold i) (hlbs i mem_cons_self)
    obtain ⟨chunks₂, hcalls, hlens₂, hsect₂⟩ := ih (hmem.congr hlens₁) fun i hi => hlbs i (mem_cons_of_mem _ hi)
    refine ⟨chunks₂, ?_, hlens₂.trans hlens₁, fun k hk j hj => ?_⟩
    · rw [DiscoClient.patchLbs, hcall, Option.bind_some]
      exact hcalls
    · rw [hsect₂ k hk j hj, hsect₁ k hk j hj]
      by_cases hki : k = i
      · subst hki
        by_cases hw : r.Written k j <;> simp [hw]
      · simp [hki]

theorem Ok.sector_of_written (h : r.Ok pos rqs) {copied : List (List Byte)}
    (hflat : copied.flatten = overwrite chunks.flatten 0
      (List.replicate (512 * (r.kernSect - 8 * r.lbidStart)) 0#8 ++ r.userBytes pos rqs))
    {i j : Nat} (hi : i < r.lbidLen) (hj : j < 8) (hw : r.Written i j) :
    sector copied i j = slice (RqData.allBytes rqs) (512 * (8 * (r.lbidStart + i) + j - (pos + r.sectsShift))) 512 := by
  have hstart := r.lbidStart_eq
  have hfirst := h.first
  have huser := h.length_userBytes
  obtain ⟨hlo, hhi⟩ := (maskBit_drop h.maskOk (lt_of_lt_of_le hi h.maskOk.fits) hj).mp hw
  have hoff : 4096 * i + 512 * j = 0 + (512 * (r.kernSect - 8 * r.lbidStart) + 512 * (8 * (r.lbidStart + i) + j - r.kernSect)) := by
    omega
  rw [sector, hflat, hoff, Overwrite.slice_of_mem (Nat.zero_le _) (by rw [length_append, length_replicate, huser]; omega)]
  have hzeros : (List.replicate (512 * (r.kernSect - 8 * r.lbidStart)) 0#8).length = 512 * (r.kernSect - 8 * r.lbidStart) :=
    length_replicate
  nth_rewrite 2 [← hzeros]
  rw [Slice.slice_append_right, userBytes, Slice.slice_slice _ _ (by omega)]
  congr 1
  omega

theorem Ok.patched (h : r.Ok pos rqs) (hsegs : ∀ rq ∈ rqs, ∀ seg ∈ rq.segs, seg.length ≤ 4096)
    (hmem : PayloadMem r.lbidLen sizes chunks) {old : Nat → List Byte} {lbs : List Nat} (hold : ∀ i, 4096 ≤ (old i).length)
    (hlbs : ∀ i, i ∈ lbs ↔ i < r.lbidLen ∧ r.maskLbAlign[i]? ≠ some 0xff#8) :
    ∃ copied patched, ioReqWCopyDataBio2mem r sizes chunks = some (copied, 0) ∧
      DiscoClient.patchLbs r old lbs copied = some patched ∧ PayloadMem r.lbidLen sizes patched ∧
      ∀ i < r.lbidLen, ∀ j < 8, sector patched i j =
        if (r.maskLbAlign[i]?.getD 0#8).getLsbD j = true then
          slice (RqData.allBytes rqs) (512 * (8 * (r.lbidStart + i) + j - (pos + r.sectsShift))) 512
        else slice (old i) (512 * j) 512 := by
  obtain ⟨copied, hcopy, hflat, hlens⟩ := h.wCopy hsegs hmem
  obtain ⟨patched, hpatch, hlens', hsect⟩ := h.patchLbs (hmem.congr hlens) hold lbs fun i hi => ((hlbs i).mp hi).1
  refine ⟨copied, patched, hcopy, hpatch, (hmem.congr hlens).congr hlens', fun i hi j hj => ?_⟩
  have hbit : (r.maskLbAlign[i]?.getD 0#8).getLsbD j = true ↔ r.Written i j := by
    have hi33 := lt_of_lt_of_le hi h.maskOk.fits
    rw [h.maskOk.bits i hi33 j hj, Written, maskBit_drop h.maskOk hi33 hj]
  rw [hsect i hi j hj]
  by_cases hw : r.Written i j
  · rw [if_neg (fun hc => hc.2 hw), if_pos (hbit.mpr hw), h.sector_of_written hflat hi hj hw]
  · -- a bit is clear, so the LB is not filled
    have hmem : i ∈ lbs := by
      refine (hlbs i).mpr ⟨hi, fun hfull => hw (hbit.mp ?_)⟩
      rw [hfull, Option.getD_some]
      exact eq_full_iff.mp rfl j hj
    rw [if_pos ⟨hmem, hw⟩, if_neg (mt hbit.mp hw)]

end CopyReq

/-- After the copy and the old contents of each LB that is not filled, in any order, each sector holds
the user's data if its mask bit is set and the old contents otherwise. -/
theorem partial_write_sectors (r : CopyReq) (pos : Nat) (rqs : List RqData) (d : IoPayload Byte) (old : Nat → List Byte)
    (lbs : List Nat) (h : r.Ok pos rqs) (hsegs : ∀ rq ∈ rqs, ∀ seg ∈ rq.segs, seg.length ≤ 4096) (hd : d.lbidLen = r.lbidLen)
    (hold : ∀ i, 4096 ≤ (old i).length) (hlbs : ∀ i, i ∈ lbs ↔ i < r.lbidLen ∧ r.maskLbAlign[i]? ≠ some 0xff#8) :
    ∃ copied left patched, ioReqWCopyDataBio2mem r d.chunkItemSize d.chunks = some (copied, left) ∧
      patchLbs r old lbs copied = some patched ∧
      ∀ i < r.lbidLen, ∀ j < 8, sector patched i j =
        if (r.maskLbAlign[i]?.getD 0#8).getLsbD j = true then
          slice (RqData.allBytes rqs) (512 * (8 * (r.lbidStart + i) + j - (pos + r.sectsShift))) 512
        else slice (old i) (512 * j) 512 := by
  obtain ⟨copied, patched, hcopy, hpatch, -, hsect⟩ := h.patched hsegs (hd ▸ d.payloadMem) hold hlbs
  exact ⟨copied, 0, patched, hcopy, hpatch, hsect⟩

def copyReqTwoChunks : CopyReq where
  kernSect := 5
  nrKsects := 256
  sectsShift := 0
  isDmsLbAlign := false
  maskLbAlign := 0xe0#8 :: (List.replicate 31 0xff#8 ++ [0x1f#8])
  rqs := [some ⟨5, List.replicate 32 (List.replicate 4096 1#8)⟩]

theorem two_chunks_lbidLen_lt : 33 < 2 ^ 31 := by decide

theorem two_chunks_allocated : ∃ pool, ioReqAllocWiobuff pool 33 = some [131072, 4096] := ⟨fun _ => true, rfl⟩

def twoChunksPayload : IoPayload Byte where
  lbidLen := 33
  chunks := List.replicate 2 (List.replicate maxSizeKernelMemChunk 0#8)
  chunkItemSize := [131072, 4096]
  lbidLen_lt := two_chunks_lbidLen_lt
  allocated := two_chunks_allocated
  length_chunks := List.length_replicate
  chunk_size := fun _ h => (congrArg List.length (List.eq_of_mem_replicate h)).trans List.length_replicate

theorem copyReqTwoChunks_ok : copyReqTwoChunks.Ok 5 [⟨5, List.replicate 32 (List.replicate 4096 1#8)⟩] where
  rqs_eq := rfl
  wellFormed := by
    intro rq hrq
    obtain rfl := mem_singleton.mp hrq
    refine ⟨by simp [-List.reduceReplicate], ?_, ?_⟩
    all_goals
      intro seg hseg
      rw [eq_of_mem_replicate hseg, length_replicate]
      decide
  contiguous := ⟨rfl, trivial⟩
  nr_pos := by decide
  nr_max := by decide
  first := by decide
  last := by simp [-List.reduceReplicate, copyReqTwoChunks, RqData.allBytes, RqData.bytes]
  addr := by decide
  mask := by decide +kernel

theorem partial_write_sectors_two_chunks :
    ∃ copied left patched, ioReqWCopyDataBio2mem copyReqTwoChunks twoChunksPayload.chunkItemSize twoChunksPayload.chunks =
        some (copied, left) ∧
      patchLbs copyReqTwoChunks (fun _ => List.replicate 4096 9#8) [32, 0] copied = some patched ∧
      sector patched 32 7 = slice (List.replicate 4096 9#8) 3584 512 := by
  have hpart : ∀ i, i ∈ [32, 0] ↔ i < copyReqTwoChunks.lbidLen ∧ copyReqTwoChunks.maskLbAlign[i]? ≠ some 0xff#8 := by
    have hsmall : ∀ i < 33, i ∈ [32, 0] ↔ copyReqTwoChunks.maskLbAlign[i]? ≠ some 0xff#8 := by decide
    intro i
    rw [show copyReqTwoChunks.lbidLen = 33 from rfl]
    by_cases hi : i < 33
    · rw [hsmall i hi, and_iff_right hi]
    · refine iff_of_false (fun hmem => ?_) fun h => hi h.1
      simp only [mem_cons, not_mem_nil, or_false] at hmem
      omega
  obtain ⟨copied, left, patched, hcopy, hpatch, hsect⟩ := partial_write_sectors copyReqTwoChunks 5 _ twoChunksPayload
    (fun _ => List.replicate 4096 9#8) [32, 0] copyReqTwoChunks_ok
    (by
      intro rq hrq seg hseg
      obtain rfl := mem_singleton.mp hrq
      rw [eq_of_mem_replicate hseg, length_replicate])
    rfl (fun _ => length_replicate.ge) hpart
  exact ⟨copied, left, patched, hcopy, hpatch, (hsect 32 (by decide) 7 (by decide)).trans (if_neg (by decide))⟩

theorem IoPayload.slice_bytes_eq_sector (d : IoPayload Byte) {i j : Nat} (hi : i < d.lbidLen) (hj : j < 8) :
    slice d.bytes (4096 * i + 512 * j) 512 = sector d.chunks i j := by
  have hmem := d.payloadMem
  have hle := hmem.le_length
  have hlt : (4096 * i + 512 * j) / 131072 < d.chunks.length := by
    rw [hmem.length_eq, hmem.chunkSizes.lt_length_iff]
    omega
  have hget := List.getElem?_eq_getElem hlt
  have hlen := d.chunk_size _ (getElem_mem hlt)
  have hvec := d.vecBytes_eq (k := (4096 * i + 512 * j) / 131072) (o := (4096 * i + 512 * j) % 131072) (n := 512)
    (by omega) (by omega)
  rw [Nat.div_add_mod'] at hvec
  rw [← hvec, vecBytes, hget, Option.getD_some, sector]
  refine hmem.blocked.slice_block (by omega) hget ?_
  rw [hlen]
  change _ + 512 ≤ 131072
  omega

def IoPayload.withChunks (d : IoPayload Byte) (chunks : List (List Byte)) (hlen : chunks.length = d.chunkItemSize.length)
    (hsize : ∀ chunk ∈ chunks, chunk.length = maxSizeKernelMemChunk) : IoPayload Byte :=
  { d with chunks := chunks, length_chunks := hlen, chunk_size := hsize }

/-- From the user's buffers to the data nodes: the payload memory after the copy and the old contents of the LBs
that are not filled is sent to these locations of each item, and the vectors of every request hold each sector of
its LBs, the user's data if the mask bit is set and the old contents otherwise. -/
theorem write_reaches_data_nodes (r : CopyReq) (pos : Nat) (rqs : List RqData) (d : IoPayload Byte)
    (old : Nat → List Byte) (lbs : List Nat) (h : r.Ok pos rqs) (hsegs : ∀ rq ∈ rqs, ∀ seg ∈ rq.segs, seg.length ≤ 4096)
    (hd : d.lbidLen = r.lbidLen) (hold : ∀ i, 4096 ≤ (old i).length)
    (hlbs : ∀ i, i ∈ lbs ↔ i < r.lbidLen ∧ r.maskLbAlign[i]? ≠ some 0xff#8) (sys : Nat → SubmitEnv) (lead len : Nat)
    (items : List WriteItem) (hin : lead + len ≤ r.lbidLen)
    (htile : Consecutive WriteItem.lbidS WriteItem.numHbids (r.lbidStart + lead) items (r.lbidStart + lead + len)) :
    ∃ copied left patched hlen hsize outs,
      ioReqWCopyDataBio2mem r d.chunkItemSize d.chunks = some (copied, left) ∧ patchLbs r old lbs copied = some patched ∧
      (d.withChunks patched hlen hsize).plMgrWritePayload sys 0 (lead * 4096) items = some outs ∧
      outs.length = items.length ∧
      ∀ (k : Nat) (item : WriteItem) (rs : List DnWriteReq), items[k]? = some item → outs[k]? = some rs →
        rs.map DnWriteReq.dnLocIdx = (sys k).locations item.numDnLoc ∧ ∀ q ∈ rs, ∀ i < item.numHbids, ∀ j < 8,
        slice (q.uDataSeg.flatMap (d.withChunks patched hlen hsize).vecBytes) (4096 * i + 512 * j) 512 =
          if (r.maskLbAlign[item.lbidS + i - r.lbidStart]?.getD 0#8).getLsbD j = true then
            slice (RqData.allBytes rqs) (512 * (8 * (item.lbidS + i) + j - (pos + r.sectsShift))) 512
          else slice (old (item.lbidS + i - r.lbidStart)) (512 * j) 512 := by
  obtain ⟨copied, patched, hcopy, hpatch, hpmem, hsect⟩ := h.patched hsegs (hd ▸ d.payloadMem) hold hlbs
  let p := d.withChunks patched hpmem.length_eq hpmem.blocked.length_eq
  have hsum := Nat.add_left_cancel htile.sum_len
  have hfit : lead * 4096 + (items.map WriteItem.numHbids).sum * 4096 ≤ p.lbidLen * 4096 := by
    change _ ≤ d.lbidLen * 4096
    rw [hsum, hd]
    omega
  obtain ⟨outs, houts, hcount, hsends⟩ := p.plMgrWritePayload_sends sys (i := 0) hfit
  refine ⟨copied, 0, patched, _, _, outs, hcopy, hpatch, houts, hcount, fun k item rs hitem hout => ?_⟩
  obtain ⟨hlocs, hcar⟩ := hsends k item rs hitem hout
  rw [Nat.zero_add] at hlocs
  refine ⟨hlocs, fun q hq i hi j hj => ?_⟩
  obtain ⟨-, hbytes⟩ := hcar q hq
  have hstart := htile.start_get hitem
  have hend := (htile.bounds (mem_of_getElem? hitem)).2
  obtain ⟨n, hn⟩ : ∃ n, item.lbidS + i - r.lbidStart = n := ⟨_, rfl⟩
  have hnlt : n < r.lbidLen := by omega
  have hoff : lead * 4096 + ((items.take k).map WriteItem.numHbids).sum * 4096 + (4096 * i + 512 * j) = 4096 * n + 512 * j := by
    omega
  change slice (q.uDataSeg.flatMap p.vecBytes) _ _ = _
  rw [hbytes, Slice.slice_slice _ _ (by omega), hoff, p.slice_bytes_eq_sector (hd ▸ hnlt) hj, hn,
    show item.lbidS + i = r.lbidStart + n by omega]
  exact hsect n hnlt j hj

/-- The three requests of the one item, with the old contents of sector 0 and the user's data of sector 5. -/
theorem write_reaches_data_nodes_two_rqs :
    ∃ copied left patched hlen hsize rs,
      ioReqWCopyDataBio2mem copyReqTwoRqs oneLbPayload.chunkItemSize oneLbPayload.chunks = some (copied, left) ∧
      patchLbs copyReqTwoRqs (fun _ => List.replicate 4096 9#8) [0] copied = some patched ∧
      (oneLbPayload.withChunks patched hlen hsize).plMgrWritePayload (fun _ => ⟨true, fun i => i, fun _ => true⟩) 0 0
        [⟨1, 1, 3⟩] = some [rs] ∧ rs.map DnWriteReq.dnLocIdx = [0, 1, 2] ∧ ∀ q ∈ rs,
      slice (q.uDataSeg.flatMap (oneLbPayload.withChunks patched hlen hsize).vecBytes) 0 512 = List.replicate 512 9#8 ∧
      slice (q.uDataSeg.flatMap (oneLbPayload.withChunks patched hlen hsize).vecBytes) 2560 512 =
        List.replicate 512 1#8 := by
  obtain ⟨copied, left, patched, hlen, hsize, outs, hcopy, hpatch, houts, hcount, hall⟩ :=
    write_reaches_data_nodes copyReqTwoRqs 12 _ oneLbPayload (fun _ => List.replicate 4096 9#8) [0] copyReqTwoRqs_ok
      (by simp [-List.reduceReplicate]) rfl (fun _ => length_replicate.ge)
      (fun i => by
        rw [mem_singleton, show copyReqTwoRqs.lbidLen = 1 from rfl]
        exact ⟨fun hi => hi ▸ ⟨Nat.one_pos, by decide⟩, fun hi => Nat.lt_one_iff.mp hi.1⟩)
      (fun _ => ⟨true, fun i => i, fun _ => true⟩) 0 1 [⟨1, 1, 3⟩] (by decide) ⟨rfl, rfl⟩
  obtain ⟨rs, rfl⟩ := length_eq_one_iff.mp hcount
  obtain ⟨hlocs, hsect⟩ := hall 0 _ rs rfl rfl
  refine ⟨copied, left, patched, hlen, hsize, rs, hcopy, hpatch, houts, hlocs, fun q hq => ⟨?_, ?_⟩⟩
  · refine (hsect q hq 0 Nat.one_pos 0 (by decide)).trans ((if_neg (by decide)).trans ?_)
    simp [-List.reduceReplicate, slice]
  · refine (hsect q hq 0 Nat.one_pos 5 (by decide)).trans ((if_pos (by decide)).trans ?_)
    simp [-List.reduceReplicate, slice, RqData.allBytes, RqData.bytes, copyReqTwoRqs, drop_append]

end DiscoClient
