import DiscoClient.IoManager.CopyChunks
import DiscoClient.IoManager.LbMask

namespace DiscoClient
open List

/-- Where _cp_bio2ioReq stands: the payload, the position in it, the next byte of the volume, and how
many bytes are left and done. -/
structure WriteCopy where
  chunks : List (List Byte)
  cp : ChunkPos
  iorS : Nat
  total : Int
  numCps : Int
  deriving DecidableEq, Repr

/-- One segment of _cp_bio2ioReq, from DO_BV_CP_AGAIN on; true when nothing is left to copy. Each turn takes
another chunk. -/
def cpSegment (sizes : List Nat) (seg : List Byte) (bvecS : Nat) : Nat → Int → WriteCopy → Option (WriteCopy × Bool)
  | 0, _, _ => none
  | fuel + 1, bvlen, st =>
    let bvoff : Int := st.iorS - bvecS
    let bvlen := bvlen - bvoff
    let cmpRes := cmpTripleInt st.total st.cp.rLen bvlen
    let piecesCps := cmpRes.pick st.total st.cp.rLen bvlen
    (readAt seg bvoff piecesCps).bind fun data =>
      (writeAt st.chunks st.cp.cnt st.cp.off data).bind fun chunks =>
        let total := st.total - piecesCps
        let numCps := st.numCps + piecesCps
        if total ≤ 0 then some (⟨chunks, st.cp, st.iorS, total, numCps⟩, true)
        else
          let st' : WriteCopy :=
            ⟨chunks, getChunkPtr sizes st.cp.cnt st.cp.off piecesCps.toNat, st.iorS + piecesCps.toNat, total, numCps⟩
          if cmpRes = .cmp2ndMin ∧ bvlen > st.cp.rLen then cpSegment sizes seg bvecS fuel bvlen st' else some (st', false)

/-- The segment loop of _cp_bio2ioReq. -/
def cpSegments (sizes : List Nat) (iorE : Nat) : List (List Byte) → Nat → WriteCopy → Option WriteCopy
  | [], _, st => some st
  | seg :: segs, bvecS, st =>
    let bvecE := bvecS + seg.length - 1
    if bvecE < st.iorS then cpSegments sizes iorE segs (bvecE + 1) st
    else if bvecS > iorE then some st
    else match cpSegment sizes seg bvecS (sizes.length + 1) seg.length st with
      | none => none
      | some (st', true) => some st'
      | some (st', false) => cpSegments sizes iorE segs (bvecE + 1) st'

/-- _cp_bio2ioReq: the payload, the position and the number of bytes copied. -/
def cpBio2IoReq (sizes : List Nat) (rq : RqData) (iorS : Nat) (total : Int) (chunks : List (List Byte)) (cnt off : Nat) :
    Option WriteCopy :=
  if cnt ≥ sizes.length then some ⟨chunks, ⟨cnt, off, 0⟩, iorS, total, 0⟩
  else if cnt = sizes.length - 1 ∧ off ≥ sizes[cnt]?.getD 0 then some ⟨chunks, ⟨cnt, off, 0⟩, iorS, total, 0⟩
  else cpSegments sizes (iorS + total.toNat - 1) rq.segs (rq.pos <<< bitLenSectSize)
    ⟨chunks, getChunkPtr sizes cnt off 0, iorS, total, 0⟩

/-- The request loop of ioReq_WCopyData_bio2mem: the payload and how many bytes were not found. A
request that is committed already is none. -/
def wCopyLoop (sizes : List Nat) : List (Option RqData) → Nat → Int → List (List Byte) → Nat → Nat →
    Option (List (List Byte) × Int)
  | [], _, total, chunks, _, _ => some (chunks, total)
  | none :: _, _, total, chunks, _, _ => some (chunks, total)
  | some rq :: rqs, iorS, total, chunks, cnt, off =>
    let rqS := rq.pos <<< bitLenSectSize
    let rqE := rqS + rq.sectors <<< bitLenSectSize - 1
    if rqE < iorS then wCopyLoop sizes rqs iorS total chunks cnt off
    else
      (cpBio2IoReq sizes rq iorS total chunks cnt off).bind fun st =>
        if st.numCps ≤ 0 then some (st.chunks, total)
        else if total - st.numCps ≤ 0 then some (st.chunks, total - st.numCps)
        else wCopyLoop sizes rqs (iorS + st.numCps.toNat) (total - st.numCps) st.chunks st.cp.cnt st.cp.off

structure CopyReq where
  kernSect : Nat
  nrKsects : Nat
  sectsShift : Nat
  isDmsLbAlign : Bool
  maskLbAlign : List (BitVec 8)
  rqs : List (Option RqData)
  deriving DecidableEq, Repr

/-- bytes_skip of ioReq_WCopyData_bio2mem -/
def CopyReq.bytesSkip (r : CopyReq) : Nat :=
  if r.isDmsLbAlign then 0 else headSectSkip (r.maskLbAlign[0]?.getD 0#8) <<< bitLenSectSize

def ioReqWCopyDataBio2mem (r : CopyReq) (sizes : List Nat) (chunks : List (List Byte)) :
    Option (List (List Byte) × Int) :=
  (writeAt chunks 0 0 (List.replicate r.bytesSkip 0#8)).bind fun chunks =>
    wCopyLoop sizes r.rqs ((r.kernSect - r.sectsShift) <<< bitLenSectSize) (r.nrKsects <<< bitLenSectSize : Nat) chunks 0
      r.bytesSkip

structure CopiedTo (n : Nat) (chunks : List (List Byte)) (a T iorS : Nat) (num : Int) (data : List Byte) (st : WriteCopy) :
    Prop where
  flat : st.chunks.flatten = overwrite chunks.flatten a data
  lengths : st.chunks.map List.length = chunks.map List.length
  total : st.total = (T - data.length : Nat)
  numCps : st.numCps = num + data.length
  cp : data.length < T → st.cp = chunkAt n (a + data.length)
  iorS : data.length < T → st.iorS = iorS + data.length

section
variable {n : Nat} {sizes : List Nat} {chunks : List (List Byte)} {a T iorS : Nat} {num : Int}

namespace CopiedTo
variable {data data' : List Byte} {st st' : WriteCopy}

theorem state_eq (h : CopiedTo n chunks a T iorS num data st) (hlt : data.length < T) :
    st = ⟨st.chunks, chunkAt n (a + data.length), iorS + data.length, (T - data.length : Nat), num + data.length⟩ := by
  rw [← h.cp hlt, ← h.iorS hlt, ← h.total, ← h.numCps]

theorem refl (n : Nat) (chunks : List (List Byte)) (a T iorS : Nat) (num : Int) :
    CopiedTo n chunks a T iorS num [] ⟨chunks, chunkAt n a, iorS, T, num⟩ :=
  ⟨(Overwrite.overwrite_nil _ _).symm, rfl, rfl, (Int.add_zero _).symm, fun _ => rfl, fun _ => rfl⟩

theorem trans (ha : a ≤ chunks.flatten.length) (h : CopiedTo n chunks a T iorS num data st)
    (h' : CopiedTo n st.chunks (a + data.length) (T - data.length) (iorS + data.length) (num + data.length) data' st') :
    CopiedTo n chunks a T iorS num (data ++ data') st' := by
  refine ⟨?_, h'.lengths.trans h.lengths, ?_, ?_, fun hlt => ?_, fun hlt => ?_⟩
  · rw [h'.flat, h.flat, Overwrite.overwrite_append ha]
  · rw [h'.total, length_append, Nat.sub_add_eq]
  · rw [h'.numCps, length_append]
    omega
  · rw [length_append] at hlt ⊢
    rw [h'.cp (by omega), Nat.add_assoc]
  · rw [length_append] at hlt ⊢
    rw [h'.iorS (by omega), Nat.add_assoc]

end CopiedTo

private theorem cpSegment_turn (hmem : PayloadMem n sizes chunks) (seg : List Byte) (bvecS fuel : Nat) (num : Int) {bvlen : Int}
    {off L p : Nat} (hbv : bvlen - off = L) (hL : off + L ≤ seg.length) (hT : 0 < T) (haT : a + T ≤ n * 4096)
    (hp : (p : Int) = min (T : Int) (min (chunkAt n a).rLen (L : Int))) :
    ∃ st, CopiedTo n chunks a T (bvecS + off) num (slice seg off p) st ∧
      cpSegment sizes seg bvecS (fuel + 1) bvlen ⟨chunks, chunkAt n a, bvecS + off, T, num⟩ =
        if p = T then some (st, true) else if p < L then cpSegment sizes seg bvecS fuel L st else some (st, false) := by
  have hdata : (slice seg off p).length = p := Slice.length_slice (by omega)
  obtain ⟨chunks', hwrite, hflat, hlens⟩ := hmem.writeAt_chunkAt (a := a) (slice seg off p) (by omega) (by omega)
  have hoff : ((bvecS + off : Nat) : Int) - bvecS = off := by omega
  rw [cpSegment]
  simp only [hoff, hbv, pick_cmpTripleInt, ← hp, cmpTripleInt_eq_2nd, Int.toNat_natCast]
  rw [readAt_of_le (by omega), Option.bind_some, hwrite, Option.bind_some]
  by_cases hpT : p = T
  · rw [if_pos (by omega)]
    refine ⟨_, ⟨hflat, hlens, ?_, ?_, fun hlt => ?_, fun hlt => ?_⟩, (if_pos hpT).symm⟩
    · rw [hdata]
      change (T : Int) - p = _
      omega
    · rw [hdata]
    · omega
    · omega
  · rw [if_neg (by omega), getChunkPtr_chunkAt hmem.chunkSizes p (by omega)]
    refine ⟨⟨chunks', chunkAt n (a + p), bvecS + off + p, (T : Int) - p, num + p⟩, ⟨hflat, hlens, ?_, ?_, fun _ => ?_, fun _ => ?_⟩,
      (if_congr (by omega) rfl rfl).trans (if_neg hpT).symm⟩
    · rw [hdata]
      change (T : Int) - p = _
      omega
    · rw [hdata]
    · rw [hdata]
    · rw [hdata]

/-- The part of a segment that is in the range. A segment is not longer than a chunk, and it is only
entered inside when it does not go past the end of one. -/
private theorem cpSegment_spec (hmem : PayloadMem n sizes chunks) (seg : List Byte) (bvecS fuel : Nat) (num : Int) {off : Nat}
    (hT : 0 < T) (haT : a + T ≤ n * 4096) (hoff : off < seg.length) (hlen : seg.length ≤ 4096)
    (hsafe : off = 0 ∨ (min T 4096 : Nat) ≤ (chunkAt n a).rLen) :
    ∃ st, cpSegment sizes seg bvecS (fuel + 2) seg.length ⟨chunks, chunkAt n a, bvecS + off, T, num⟩ =
        some (st, decide (T ≤ seg.length - off)) ∧
      CopiedTo n chunks a T (bvecS + off) num (slice seg off (min T (seg.length - off))) st := by
  obtain ⟨r, hr⟩ : ∃ r, r = min (131072 - a % 131072) (n * 4096 - a) := ⟨_, rfl⟩
  have hrLen : (chunkAt n a).rLen = r := by rw [chunkAt, hr]
  have hbv : (seg.length : Int) - off = (seg.length - off : Nat) := by omega
  by_cases hone : min T (seg.length - off) ≤ r
  · -- one turn is enough
    obtain ⟨st, hcopied, hturn⟩ := cpSegment_turn hmem seg bvecS (fuel + 1) num (p := min T (seg.length - off)) hbv
      (by omega) hT haT (by omega)
    refine ⟨st, ?_, hcopied⟩
    rw [hturn]
    by_cases hlast : T ≤ seg.length - off
    · rw [if_pos (by omega), decide_eq_true hlast]
    · rw [if_neg (by omega), if_neg (by omega), decide_eq_false hlast]
  · -- the chunk ends inside the segment, which was entered at its begin
    obtain rfl : off = 0 := by omega
    obtain ⟨st, hfirst, hturn⟩ := cpSegment_turn hmem seg bvecS (fuel + 1) num (p := r) hbv (by omega) hT haT (by omega)
    have hdata : (slice seg 0 r).length = r := Slice.length_slice (by omega)
    have hnext : (chunkAt n (a + r)).rLen = (min 131072 (n * 4096 - (a + r)) : Nat) := by
      rw [chunkAt, show (a + r) % 131072 = 0 by omega]
    obtain ⟨st', hsecond, hturn'⟩ := cpSegment_turn (a := a + r) (T := T - r) (hmem.congr hfirst.lengths) seg bvecS fuel (num + r)
      (L := seg.length - r) (p := min (T - r) (seg.length - r)) (show ((seg.length - 0 : Nat) : Int) - (0 + r : Nat) = _ by omega)
      (by omega) (by omega) (by omega) (by omega)
    rw [← Nat.add_assoc] at hsecond hturn'
    have hle := hmem.le_length
    have hall := CopiedTo.trans (by omega) hfirst (by rw [hdata]; exact hsecond)
    rw [← Slice.slice_add, show r + min (T - r) (seg.length - r) = min T (seg.length - 0) by omega] at hall
    refine ⟨st', ?_, hall⟩
    have hst := hfirst.state_eq (by omega)
    rw [hdata] at hst
    rw [hturn, if_neg (by omega), if_pos (by omega), hst]
    refine hturn'.trans ?_
    by_cases hlast : T ≤ seg.length - 0
    · rw [if_pos (by omega), decide_eq_true hlast]
    · rw [if_neg (by omega), if_neg (by omega), decide_eq_false hlast]

private theorem cpSegments_spec (segs : List (List Byte)) (bvecS off : Nat) (num : Int) (hmem : PayloadMem n sizes chunks) (hT : 0 < T)
    (haT : a + T ≤ n * 4096) (hsegs : ∀ seg ∈ segs, 0 < seg.length ∧ seg.length ≤ 4096)
    (hsafe : off = 0 ∨ (min T 4096 : Nat) ≤ (chunkAt n a).rLen) :
    ∃ st, cpSegments sizes (bvecS + off + T - 1) segs bvecS ⟨chunks, chunkAt n a, bvecS + off, T, num⟩ = some st ∧
      CopiedTo n chunks a T (bvecS + off) num (slice segs.flatten off (min T (segs.flatten.length - off))) st := by
  induction segs generalizing chunks a T bvecS off num with
  | nil =>
    refine ⟨_, rfl, ?_⟩
    rw [flatten_nil, length_nil, Nat.zero_sub, Nat.min_zero, Slice.slice_zero]
    exact CopiedTo.refl _ _ _ _ _ _
  | cons seg segs ih =>
    obtain ⟨⟨hpos, hmax⟩, hrest⟩ := forall_mem_cons.mp hsegs
    have hend : bvecS + seg.length - 1 + 1 = bvecS + seg.length := by omega
    rw [cpSegments, flatten_cons, length_append]
    simp only [hend]
    by_cases hskip : seg.length ≤ off
    · -- the range begins behind the segment
      obtain ⟨o, rfl⟩ := Nat.exists_eq_add_of_le hskip
      rw [if_pos (by omega), Slice.slice_append_right, Nat.add_sub_add_left, ← Nat.add_assoc]
      exact ih _ _ _ hmem hT haT hrest (hsafe.imp_left fun h => by omega)
    · rw [if_neg (by omega), if_neg (by omega)]
      have hsz : ∃ m, sizes.length + 1 = m + 2 := by
        have hlen := hmem.chunkSizes.lt_length_iff.mpr (show 0 * 32 < n by omega)
        exact ⟨sizes.length - 1, by omega⟩
      obtain ⟨m, hm⟩ := hsz
      obtain ⟨st, hst, hcopied⟩ := cpSegment_spec hmem seg bvecS m num hT haT (by omega) hmax hsafe
      rw [hm, hst]
      by_cases hlast : T ≤ seg.length - off
      · rw [decide_eq_true hlast]
        refine ⟨st, rfl, ?_⟩
        rw [show min T (seg.length + segs.flatten.length - off) = min T (seg.length - off) by omega,
          Slice.slice_append_left _ (by omega)]
        exact hcopied
      · rw [decide_eq_false hlast]
        have hdata : (slice seg off (min T (seg.length - off))).length = seg.length - off := by
          rw [Slice.length_slice (by omega)]
          omega
        have hstate := hcopied.state_eq (by omega)
        rw [hdata, show bvecS + off + (seg.length - off) = bvecS + seg.length + 0 by omega] at hstate
        obtain ⟨st', hst', hcopied'⟩ := ih (bvecS + seg.length) 0 (num + (seg.length - off : Nat)) (T := T - (seg.length - off))
          (a := a + (seg.length - off)) (hmem.congr hcopied.lengths) (by omega) (by omega) hrest (.inl rfl)
        refine ⟨st', ?_, ?_⟩
        · rw [show bvecS + off + T - 1 = bvecS + seg.length + 0 + (T - (seg.length - off)) - 1 by omega, hstate]
          exact hst'
        · have hle := hmem.le_length
          have hall := CopiedTo.trans (by omega) hcopied (by rw [hdata]; convert hcopied' using 1; omega)
          rw [Slice.slice_append_across _ (by omega) (by omega), show min T (seg.length + segs.flatten.length - off) -
            (seg.length - off) = min (T - (seg.length - off)) (segs.flatten.length - 0) by omega]
          rwa [show min T (seg.length - off) = seg.length - off by omega] at hall

private theorem cpBio2IoReq_spec {rq : RqData} (off : Nat) (hrq : rq.WellFormed) (hsegs : ∀ seg ∈ rq.segs, seg.length ≤ 4096)
    (hmem : PayloadMem n sizes chunks) (hT : 0 < T) (haT : a + T ≤ n * 4096)
    (hsafe : off = 0 ∨ (min T 4096 : Nat) ≤ (chunkAt n a).rLen) :
    ∃ st, cpBio2IoReq sizes rq (512 * rq.pos + off) T chunks (chunkAt n a).cnt (chunkAt n a).off = some st ∧
      CopiedTo n chunks a T (512 * rq.pos + off) 0 (slice rq.bytes off (min T (rq.bytes.length - off))) st := by
  obtain ⟨hcnt, hroom⟩ := hmem.chunkAt_inside (show a < n * 4096 by omega)
  rw [cpBio2IoReq, if_neg (not_le.mpr hcnt), if_neg (fun h => not_le.mpr hroom h.2), getChunkPtr_chunkAt hmem.chunkSizes 0 (by omega),
    shiftLeft_bitLenSectSize, Int.toNat_natCast]
  exact cpSegments_spec rq.segs (512 * rq.pos) off 0 hmem hT haT (fun seg hseg => ⟨hrq.seg_pos seg hseg, hsegs seg hseg⟩) hsafe

theorem wCopyLoop_spec (rqs : List RqData) (pos off : Nat) (hcont : RqData.Contiguous pos rqs)
    (hrqs : ∀ rq ∈ rqs, rq.WellFormed) (hsegs : ∀ rq ∈ rqs, ∀ seg ∈ rq.segs, seg.length ≤ 4096)
    (hmem : PayloadMem n sizes chunks) (hT : 0 < T) (haT : a + T ≤ n * 4096) (hin : off + T ≤ (RqData.allBytes rqs).length)
    (hsafe : off = 0 ∨ (min T 4096 : Nat) ≤ (chunkAt n a).rLen) :
    ∃ chunks', wCopyLoop sizes (rqs.map some) (512 * pos + off) T chunks (chunkAt n a).cnt (chunkAt n a).off =
        some (chunks', 0) ∧
      chunks'.flatten = overwrite chunks.flatten a (slice (RqData.allBytes rqs) off T) ∧
      chunks'.map List.length = chunks.map List.length := by
  induction rqs generalizing chunks a T pos off with
  | nil =>
    rw [RqData.allBytes, flatMap_nil, length_nil] at hin
    omega
  | cons rq rqs ih =>
    obtain ⟨rfl, hcont⟩ := hcont
    obtain ⟨hrq, hrqs'⟩ := forall_mem_cons.mp hrqs
    obtain ⟨hmax, hsegs'⟩ := forall_mem_cons.mp hsegs
    obtain ⟨hlen, hlen0⟩ := hrq.length_bytes
    have hall : RqData.allBytes (rq :: rqs) = rq.bytes ++ RqData.allBytes rqs := flatMap_cons
    rw [hall, length_append] at hin
    rw [map_cons, wCopyLoop, hall]
    simp only [shiftLeft_bitLenSectSize]
    by_cases hskip : rq.bytes.length ≤ off
    · obtain ⟨o, rfl⟩ := Nat.exists_eq_add_of_le hskip
      rw [if_pos (by omega), Slice.slice_append_right, show 512 * rq.pos + (rq.bytes.length + o) = 512 * (rq.pos + rq.sectors) + o by omega]
      exact ih _ _ hcont hrqs' hsegs' hmem hT haT (by omega) (hsafe.imp_left fun h => by omega)
    · rw [if_neg (by omega)]
      obtain ⟨st, hst, hcopied⟩ := cpBio2IoReq_spec off hrq hmax hmem hT haT hsafe
      have hdata : (slice rq.bytes off (min T (rq.bytes.length - off))).length = min T (rq.bytes.length - off) :=
        Slice.length_slice (by omega)
      have hnum : st.numCps = (min T (rq.bytes.length - off) : Nat) := by rw [hcopied.numCps, hdata, Int.zero_add]
      rw [hst, Option.bind_some, hnum, if_neg (by omega)]
      by_cases hlast : T ≤ rq.bytes.length - off
      · refine ⟨st.chunks, ?_, ?_, hcopied.lengths⟩
        · rw [if_pos (by omega), Nat.min_eq_left hlast, Int.sub_self]
        · rw [hcopied.flat, Nat.min_eq_left hlast, Slice.slice_append_left _ (by omega)]
      · have hmin : min T (rq.bytes.length - off) = rq.bytes.length - off := Nat.min_eq_right (by omega)
        rw [hmin] at hdata hcopied ⊢
        obtain ⟨chunks', hloop, hflat, hlens⟩ := ih (rq.pos + rq.sectors) 0 (T := T - (rq.bytes.length - off))
          (a := a + (rq.bytes.length - off)) hcont hrqs' hsegs' (hmem.congr hcopied.lengths) (by omega) (by omega) (by omega) (.inl rfl)
        refine ⟨chunks', ?_, ?_, hlens.trans hcopied.lengths⟩
        · have hcp := hcopied.cp (by omega)
          rw [hdata] at hcp
          rw [if_neg (by omega), hcp, Int.toNat_natCast, ← Int.ofNat_sub (by omega),
            show 512 * rq.pos + off + (rq.bytes.length - off) = 512 * (rq.pos + rq.sectors) + 0 by omega]
          exact hloop
        · have hle := hmem.le_length
          rw [Slice.slice_append_across _ (by omega) (by omega), hflat, hcopied.flat]
          nth_rewrite 2 [← hdata]
          exact Overwrite.overwrite_append (by omega)

end

end DiscoClient
