import DiscoClient.IoManager.WritePlaced

namespace DiscoClient
open List

/-- Where _cp_payload_mem2bio stands: src_ptr as chunk and offset, the position in the payload, the next
byte of the volume, and how many bytes are left and done. -/
structure ReadCopy where
  src : Nat × Nat
  cp : ChunkPos
  dnStart : Nat
  total : Int
  numCps : Int
  deriving DecidableEq, Repr

def putAt (seg : List Byte) (off : Int) (data : List Byte) : Option (List Byte) :=
  if 0 ≤ off ∧ off + data.length ≤ seg.length then some (overwrite seg off.toNat data) else none

/-- One segment of _cp_payload_mem2bio, from DO_BV_CP_AGAIN on: the segment, the next bvec_start, and true
when nothing is left to copy. -/
def cpToSegment (sizes : List Nat) (chunks : List (List Byte)) (bvecEnd : Nat) :
    Nat → List Byte → Nat → ReadCopy → Option (List Byte × Nat × ReadCopy × Bool)
  | 0, _, _, _ => none
  | fuel + 1, seg, bvecStart, st =>
    let offsetInBv : Int := st.dnStart - bvecStart
    let bvlenCp := seg.length - offsetInBv
    let cmpRes := cmpTripleInt st.total st.cp.rLen bvlenCp
    let piecesCps := cmpRes.pick st.total st.cp.rLen bvlenCp
    let bvecStart' := if cmpRes = .cmp3rdMin then bvecEnd + 1 else bvecStart
    (readAt (chunks[st.src.1]?.getD []) st.src.2 piecesCps).bind fun data =>
      (putAt seg offsetInBv data).bind fun seg' =>
        let cp := getChunkPtr sizes st.cp.cnt st.cp.off piecesCps.toNat
        let st' : ReadCopy :=
          ⟨(cp.cnt, cp.off), cp, st.dnStart + piecesCps.toNat, st.total - piecesCps, st.numCps + piecesCps⟩
        if st'.total ≤ 0 then some (seg', bvecStart', st', true)
        else if cmpRes = .cmp2ndMin ∧ bvlenCp > st.cp.rLen then cpToSegment sizes chunks bvecEnd fuel seg' bvecStart' st'
        else some (seg', bvecStart', st', false)

/-- The segment loop of _cp_payload_mem2bio. -/
def cpToSegments (sizes : List Nat) (chunks : List (List Byte)) :
    List (List Byte) → Nat → ReadCopy → Option (List (List Byte) × ReadCopy)
  | [], _, st => some ([], st)
  | seg :: segs, bvecStart, st =>
    let bvecEnd := bvecStart + seg.length - 1
    if bvecEnd < st.dnStart then (cpToSegments sizes chunks segs (bvecEnd + 1) st).map fun res => (seg :: res.1, res.2)
    else match cpToSegment sizes chunks bvecEnd (sizes.length + 1) seg bvecStart st with
      | none => none
      | some (seg', _, st', true) => some (seg' :: segs, st')
      | some (seg', bvecStart', st', false) =>
        (cpToSegments sizes chunks segs bvecStart' st').map fun res => (seg' :: res.1, res.2)

/-- _cp_payload_mem2bio. For a request that begins behind dn_start the code passes cnt and off to
get_chunk_ptr in the wrong order. -/
def cpPayloadMem2bio (sizes : List Nat) (chunks : List (List Byte)) (rq : RqData) (dnStart : Nat) (total : Int) (cnt off : Nat) :
    Option (RqData × ReadCopy) :=
  if cnt ≥ sizes.length then some (rq, ⟨(cnt, off), ⟨cnt, off, 0⟩, dnStart, total, 0⟩)
  else if cnt = sizes.length - 1 ∧ off ≥ sizes[cnt]?.getD 0 then some (rq, ⟨(cnt, off), ⟨cnt, off, 0⟩, dnStart, total, 0⟩)
  else
    let cp := getChunkPtr sizes cnt off 0
    let bvecStart := rq.pos <<< bitLenSectSize
    if dnStart < bvecStart then
      let bytesShift := bvecStart - dnStart
      if total ≤ bytesShift then
        let cp := getChunkPtr sizes cp.cnt cp.off total.toNat
        some (rq, ⟨(cp.cnt, cp.off), cp, dnStart, total, total⟩)
      else
        let cp := getChunkPtr sizes cp.off cp.cnt bytesShift
        (cpToSegments sizes chunks rq.segs bvecStart
          ⟨(cp.cnt, cp.off), ⟨cp.off, cp.cnt, cp.rLen⟩, bvecStart, total - bytesShift, bytesShift⟩).map fun res =>
            (⟨rq.pos, res.1⟩, res.2)
    else
      (cpToSegments sizes chunks rq.segs bvecStart ⟨(cp.cnt, cp.off), cp, dnStart, total, 0⟩).map fun res =>
        (⟨rq.pos, res.1⟩, res.2)

/-- The request loop of ioReq_RCopyData_mem2bio. -/
def mem2bioLoop (sizes : List Nat) (chunks : List (List Byte)) (dnSectE : Nat) :
    List (Option RqData) → Nat → Int → Nat → Nat → Option (List (Option RqData))
  | [], _, _, _, _ => some []
  | none :: rqs, _, _, _, _ => some (none :: rqs)
  | some rq :: rqs, dnSectS, total, cnt, off =>
    if dnSectE < rq.pos then some (some rq :: rqs)
    else if dnSectS ≥ rq.pos + rq.sectors then
      (mem2bioLoop sizes chunks dnSectE rqs dnSectS total cnt off).map (some rq :: ·)
    else
      (cpPayloadMem2bio sizes chunks rq (dnSectS <<< bitLenSectSize) total cnt off).bind fun (rq', st) =>
        if st.numCps ≤ 0 then some (some rq' :: rqs)
        else if total - st.numCps ≤ 0 then some (some rq' :: rqs)
        else (mem2bioLoop sizes chunks dnSectE rqs (dnSectS + st.numCps.toNat >>> bitLenSectSize) (total - st.numCps) st.cp.cnt
          st.cp.off).map (some rq' :: ·)

def ioReqRCopyDataMem2bio (r : CopyReq) (startlb lbLen payloadOff : Nat) (sizes : List Nat) (chunks : List (List Byte))
    (rqs : List (Option RqData)) : Option (List (Option RqData)) :=
  let idxS := (startlb + 2 ^ 64 - r.lbidStart) % 2 ^ 32
  let hdSkip := headSectSkip (r.maskLbAlign[idxS]?.getD 0#8)
  (tailSectSkip (r.maskLbAlign[idxS + lbLen - 1]?.getD 0#8)).bind fun tailSkip =>
    let dnSectS := (r.lbidStart <<< bitLenDmsLbSects + 2 ^ 64 - r.sectsShift + payloadOff >>> bitLenSectSize + hdSkip) % 2 ^ 64
    let lenSectToCp := lbLen <<< bitLenDmsLbSects - hdSkip - tailSkip
    mem2bioLoop sizes chunks (dnSectS + lenSectToCp - 1) rqs dnSectS (lenSectToCp <<< bitLenSectSize : Nat) 0
      (hdSkip <<< bitLenSectSize)

theorem putAt_of_le {seg data : List Byte} {off : Nat} (h : off + data.length ≤ seg.length) :
    putAt seg off data = some (overwrite seg off data) := by
  rw [putAt, if_pos (by omega), Int.toNat_natCast]

def ReadCopy.at (n a dn T : Nat) (num : Int) : ReadCopy := ⟨((chunkAt n a).cnt, (chunkAt n a).off), chunkAt n a, dn, T, num⟩

structure Delivered (rqs : List RqData) (off : Nat) (data : List Byte) (rqs' : List RqData) : Prop where
  bytes : RqData.allBytes rqs' = overwrite (RqData.allBytes rqs) off data
  shape : rqs'.map RqData.shape = rqs.map RqData.shape

namespace Delivered
variable {rq : RqData} {rqs rqs' : List RqData} {segs : List (List Byte)} {off : Nat} {data data' : List Byte}

theorem skip (rq : RqData) (h : Delivered rqs off data rqs') :
    Delivered (rq :: rqs) (rq.bytes.length + off) data (rq :: rqs') := by
  refine ⟨?_, ?_⟩
  · rw [RqData.allBytes, RqData.allBytes, flatMap_cons, flatMap_cons, Overwrite.overwrite_right]
    exact congrArg _ h.bytes
  · rw [map_cons, map_cons, h.shape]

theorem here (rqs : List RqData) (h : Put rq.segs off data segs) (hin : off + data.length ≤ rq.bytes.length) :
    Delivered (rq :: rqs) off data (⟨rq.pos, segs⟩ :: rqs) := by
  refine ⟨?_, ?_⟩
  · rw [RqData.allBytes, RqData.allBytes, flatMap_cons, flatMap_cons, Overwrite.overwrite_left hin]
    exact congrArg (· ++ _) h.flat
  · rw [map_cons, map_cons, RqData.shape, h.lengths]
    rfl

theorem across (h : Put rq.segs off data segs) (hend : off + data.length = rq.bytes.length) (hrest : Delivered rqs 0 data' rqs') :
    Delivered (rq :: rqs) off (data ++ data') (⟨rq.pos, segs⟩ :: rqs') := by
  refine ⟨?_, ?_⟩
  · rw [RqData.allBytes, RqData.allBytes, flatMap_cons, flatMap_cons, Overwrite.overwrite_across _ hend]
    exact congrArg₂ (· ++ ·) h.flat hrest.bytes
  · rw [map_cons, map_cons, RqData.shape, hrest.shape, h.lengths]
    rfl

end Delivered

theorem ReadCopy.dnStart_at (n a dn T : Nat) (num : Int) : (ReadCopy.at n a dn T num).dnStart = dn := rfl

section
variable {n : Nat} {sizes : List Nat} {chunks : List (List Byte)} (hmem : PayloadMem n sizes chunks)
include hmem

private theorem cpToSegment_spec (bvecStart : Nat) {bvecEnd : Nat} (fuel : Nat) (seg : List Byte) (o : Nat) {a T : Nat} (num : Int)
    (hfuel : sizes.length ≤ a / 131072 + fuel) (hT : 0 < T) (haT : a + T ≤ n * 4096) (ho : o < seg.length) :
    ∃ bvecStart' st', cpToSegment sizes chunks bvecEnd fuel seg bvecStart (.at n a (bvecStart + o) T num) =
        some (overwrite seg o (slice chunks.flatten a (min T (seg.length - o))), bvecStart', st', decide (T ≤ seg.length - o)) ∧
      st'.numCps = num + (min T (seg.length - o) : Nat) ∧
      (seg.length - o < T → bvecStart' = bvecEnd + 1 ∧
        st' = .at n (a + (seg.length - o)) (bvecStart + seg.length) (T - (seg.length - o)) (num + (seg.length - o : Nat))) := by
  induction fuel generalizing seg o a T num with
  | zero =>
    have hlt := hmem.chunkSizes.lt_length_iff.mpr (show a / 131072 * 32 < n by omega)
    omega
  | succ fuel ih =>
    have hle := hmem.le_length
    obtain ⟨r, hr⟩ : ∃ r, r = min (131072 - a % 131072) (n * 4096 - a) := ⟨_, rfl⟩
    have hrLen : (chunkAt n a).rLen = r := by rw [chunkAt, hr]
    obtain ⟨p, hp⟩ : ∃ p, p = min T (min r (seg.length - o)) := ⟨_, rfl⟩
    have hdata : (slice chunks.flatten a p).length = p := Slice.length_slice (by omega)
    have hoff : ((bvecStart + o : Nat) : Int) - bvecStart = o := by omega
    have hbv : (seg.length : Int) - o = (seg.length - o : Nat) := by omega
    have hpick : min (T : Int) (min (r : Int) (seg.length - o : Nat)) = p := by omega
    rw [cpToSegment]
    simp only [ReadCopy.at, hoff, hbv, pick_cmpTripleInt, cmpTripleInt_eq_2nd, cmpTripleInt_eq_3rd, hrLen, hpick, Int.toNat_natCast]
    rw [hmem.readAt_chunkAt (by omega) (by omega), Option.bind_some, putAt_of_le (by omega), Option.bind_some]
    by_cases hpT : p = T
    · rw [if_pos (by omega), decide_eq_true (by omega), show min T (seg.length - o) = p by omega]
      exact ⟨_, _, rfl, rfl, fun hlt => by omega⟩
    · rw [if_neg (by omega), getChunkPtr_chunkAt hmem.chunkSizes p (by omega)]
      by_cases hagain : r < seg.length - o
      · -- the rest of the segment comes from the next chunk
        obtain rfl : p = r := by omega
        have hlen : (overwrite seg o (slice chunks.flatten a p)).length = seg.length := Overwrite.length_overwrite (by omega)
        obtain ⟨bvecStart', st', hnext, hnum, hst⟩ := ih (overwrite seg o (slice chunks.flatten a p)) (o + p) (a := a + p) (T := T - p)
          (num + p) (by omega) (by omega) (by omega) (by omega)
        rw [hlen] at hnext hnum hst
        rw [if_pos (by omega), if_neg (by omega), show (T : Int) - p = (T - p : Nat) by omega, Nat.add_assoc bvecStart]
        refine ⟨bvecStart', st', hnext.trans ?_, ?_, fun hlt => ?_⟩
        · have hwhole : overwrite (overwrite seg o (slice chunks.flatten a p)) (o + p)
              (slice chunks.flatten (a + p) (min (T - p) (seg.length - (o + p)))) =
                overwrite seg o (slice chunks.flatten a (min T (seg.length - o))) := by
            nth_rewrite 2 [← hdata]
            rw [Overwrite.overwrite_append (by omega), ← Slice.slice_add]
            congr 2
            omega
          rw [hwhole, show decide (T - p ≤ seg.length - (o + p)) = decide (T ≤ seg.length - o) from decide_eq_decide.mpr (by omega)]
        · rw [hnum]
          omega
        · obtain ⟨hbs, hst⟩ := hst (by omega)
          refine ⟨hbs, hst.trans ?_⟩
          congr 1 <;> omega
      · rw [if_neg (by omega), if_pos (by omega), decide_eq_false (by omega), show min T (seg.length - o) = p by omega]
        refine ⟨_, _, rfl, rfl, fun _ => ⟨rfl, ?_⟩⟩
        obtain rfl : p = seg.length - o := by omega
        congr 1 <;> omega

private theorem cpToSegments_spec (segs : List (List Byte)) (bvecStart o : Nat) {a T : Nat} (num : Int) (hT : 0 < T)
    (haT : a + T ≤ n * 4096) (hsegs : ∀ seg ∈ segs, 0 < seg.length) :
    ∃ segs' st', cpToSegments sizes chunks segs bvecStart (.at n a (bvecStart + o) T num) = some (segs', st') ∧
      Put segs o (slice chunks.flatten a (min T (segs.flatten.length - o))) segs' ∧
      st'.numCps = num + (min T (segs.flatten.length - o) : Nat) ∧
      (segs.flatten.length - o < T → st'.cp = chunkAt n (a + (segs.flatten.length - o))) := by
  induction segs generalizing bvecStart o a T num with
  | nil =>
    refine ⟨[], _, rfl, ?_, ?_, fun _ => ?_⟩
    · rw [flatten_nil, length_nil, Nat.zero_sub, Nat.min_zero, Slice.slice_zero]
      exact Put.nil _ _
    · rw [flatten_nil, length_nil, Nat.zero_sub, Nat.min_zero]
      exact (Int.add_zero _).symm
    · rw [flatten_nil, length_nil, Nat.zero_sub, Nat.add_zero]
      rfl
  | cons seg segs ih =>
    obtain ⟨hpos, hrest⟩ := forall_mem_cons.mp hsegs
    have hend : bvecStart + seg.length - 1 + 1 = bvecStart + seg.length := by omega
    have hle := hmem.le_length
    rw [cpToSegments, ReadCopy.dnStart_at, flatten_cons, length_append]
    by_cases hskip : seg.length ≤ o
    · obtain ⟨o, rfl⟩ := Nat.exists_eq_add_of_le hskip
      obtain ⟨segs', st', hloop, hput, hnum, hcp⟩ := ih (bvecStart + seg.length) o num hT haT hrest
      rw [if_pos (by omega), hend, ← Nat.add_assoc, hloop,
        Nat.add_sub_add_left]
      exact ⟨_, _, rfl, hput.skip seg, hnum, hcp⟩
    · rw [if_neg (by omega)]
      obtain ⟨bvecStart', st', hseg, hnum, hst⟩ := cpToSegment_spec hmem bvecStart (sizes.length + 1) seg o num (by omega) hT haT
        (by omega)
      rw [hseg]
      by_cases hlast : T ≤ seg.length - o
      · rw [decide_eq_true hlast, show min T (seg.length + segs.flatten.length - o) = min T (seg.length - o) by omega]
        exact ⟨_, _, rfl, Put.here segs (by rw [Slice.length_slice (by omega)]; omega), hnum, fun hlt => by omega⟩
      · rw [decide_eq_false hlast]
        obtain ⟨rfl, rfl⟩ := hst (by omega)
        rw [hend]
        obtain ⟨segs', st', hloop, hput, hnum', hcp⟩ := ih (bvecStart + seg.length) 0 (a := a + (seg.length - o))
          (T := T - (seg.length - o)) (num + (seg.length - o : Nat)) (by omega) (by omega) hrest
        have hmin : min T (seg.length - o) = seg.length - o := by omega
        have hall : min T (seg.length + segs.flatten.length - o) =
            seg.length - o + min (T - (seg.length - o)) (segs.flatten.length - 0) := by omega
        refine ⟨_, st', congrArg (Option.map _) hloop, ?_, ?_, fun hlt => ?_⟩
        · rw [hmin, hall, Slice.slice_add]
          exact Put.across (by rw [Slice.length_slice (by omega)]; omega) hput
        · rw [hnum', hall]
          omega
        · rw [hcp (by omega)]
          congr 1
          omega

private theorem cpPayloadMem2bio_spec {rq : RqData} (hrq : rq.WellFormed) (o : Nat) {a T : Nat} (hT : 0 < T)
    (haT : a + T ≤ n * 4096) :
    ∃ segs st, cpPayloadMem2bio sizes chunks rq (512 * rq.pos + o) T (chunkAt n a).cnt (chunkAt n a).off = some (⟨rq.pos, segs⟩, st) ∧
      Put rq.segs o (slice chunks.flatten a (min T (rq.bytes.length - o))) segs ∧
      st.numCps = (min T (rq.bytes.length - o) : Nat) ∧
      (rq.bytes.length - o < T → st.cp = chunkAt n (a + (rq.bytes.length - o))) := by
  obtain ⟨hcnt, hroom⟩ := hmem.chunkAt_inside (show a < n * 4096 by omega)
  obtain ⟨segs, st, hloop, hput, hnum, hcp⟩ := cpToSegments_spec hmem rq.segs (512 * rq.pos) o 0 hT haT hrq.seg_pos
  refine ⟨segs, st, ?_, hput, hnum.trans (Int.zero_add _), hcp⟩
  rw [cpPayloadMem2bio, if_neg (not_le.mpr hcnt), if_neg (fun h => not_le.mpr hroom h.2), getChunkPtr_chunkAt hmem.chunkSizes 0 (by omega),
    shiftLeft_bitLenSectSize, if_neg (by omega)]
  exact congrArg (Option.map _) hloop

theorem mem2bioLoop_spec (rqs : List RqData) (pos o t : Nat) (hcont : RqData.Contiguous pos rqs)
    (hrqs : ∀ rq ∈ rqs, rq.WellFormed) {a : Nat} (ht : 0 < t) (haT : a + 512 * t ≤ n * 4096)
    (hin : 512 * (o + t) ≤ (RqData.allBytes rqs).length) :
    ∃ rqs', mem2bioLoop sizes chunks (pos + o + t - 1) (rqs.map some) (pos + o) (512 * t : Nat) (chunkAt n a).cnt (chunkAt n a).off =
        some (rqs'.map some) ∧
      Delivered rqs (512 * o) (slice chunks.flatten a (512 * t)) rqs' := by
  induction rqs generalizing pos o t a with
  | nil =>
    rw [RqData.allBytes, flatMap_nil, length_nil] at hin
    omega
  | cons rq rqs ih =>
    obtain ⟨rfl, hcont⟩ := hcont
    obtain ⟨hrq, hrqs'⟩ := forall_mem_cons.mp hrqs
    obtain ⟨hlen, hlen0⟩ := hrq.length_bytes
    have hall : RqData.allBytes (rq :: rqs) = rq.bytes ++ RqData.allBytes rqs := flatMap_cons
    have hle := hmem.le_length
    rw [hall, length_append] at hin
    rw [map_cons, mem2bioLoop, if_neg (by omega)]
    by_cases hskip : rq.sectors ≤ o
    · obtain ⟨o, rfl⟩ := Nat.exists_eq_add_of_le hskip
      obtain ⟨rqs', hloop, hdel⟩ := ih (rq.pos + rq.sectors) o t hcont hrqs' ht haT (by omega)
      rw [if_pos (by omega), ← Nat.add_assoc, hloop]
      refine ⟨rq :: rqs', rfl, ?_⟩
      rw [Nat.mul_add, ← hlen]
      exact hdel.skip rq
    · rw [if_neg (by omega)]
      obtain ⟨segs, st, hcp, hput, hnum, hpos⟩ := cpPayloadMem2bio_spec hmem hrq (512 * o) (a := a) (T := 512 * t) (by omega) haT
      have hmin : min (512 * t) (rq.bytes.length - 512 * o) = 512 * min t (rq.sectors - o) := by omega
      rw [hmin] at hput hnum
      rw [shiftLeft_bitLenSectSize, Nat.mul_add, hcp]
      simp only [Option.bind_some]
      rw [hnum, if_neg (by omega)]
      by_cases hlast : t ≤ rq.sectors - o
      · rw [Nat.min_eq_left hlast] at hput ⊢
        rw [if_pos (by omega)]
        refine ⟨⟨rq.pos, segs⟩ :: rqs, rfl, Delivered.here rqs hput ?_⟩
        rw [Slice.length_slice (by omega)]
        omega
      · rw [Nat.min_eq_right (by omega)] at hput ⊢
        have hdiff : rq.bytes.length - 512 * o = 512 * (rq.sectors - o) := by omega
        obtain ⟨rqs', hloop, hdel⟩ := ih (rq.pos + rq.sectors) 0 (t - (rq.sectors - o)) (a := a + 512 * (rq.sectors - o)) hcont hrqs'
          (by omega) (by omega) (by omega)
        have hshift : (512 * (rq.sectors - o)) >>> bitLenSectSize = rq.sectors - o := by
          rw [Nat.shiftRight_eq_div_pow]
          exact Nat.mul_div_cancel_left _ (by decide)
        rw [hdiff] at hpos
        rw [if_neg (by omega), hpos (by omega), Int.toNat_natCast, hshift, ← Int.ofNat_sub (by omega), ← Nat.mul_sub,
          show rq.pos + o + t - 1 = rq.pos + rq.sectors + 0 + (t - (rq.sectors - o)) - 1 by omega,
          show rq.pos + o + (rq.sectors - o) = rq.pos + rq.sectors + 0 by omega, hloop]
        refine ⟨⟨rq.pos, segs⟩ :: rqs', rfl, ?_⟩
        rw [show 512 * t = 512 * (rq.sectors - o) + 512 * (t - (rq.sectors - o)) by omega, Slice.slice_add]
        exact Delivered.across hput (by rw [Slice.length_slice (by omega)]; omega) hdel

end

end DiscoClient
