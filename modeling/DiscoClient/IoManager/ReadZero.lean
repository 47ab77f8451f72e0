import DiscoClient.IoManager.ReadCopy

namespace DiscoClient
open List

def zeros (len : Int) : Option (List Byte) := if 0 ≤ len then some (List.replicate len.toNat 0#8) else none

/-- The segment loop of _set_bio_rq_empty: the segments and num_set. -/
def setSegmentsEmpty : List (List Byte) → Nat → Nat → Int → Int → Option (List (List Byte) × Int)
  | [], _, _, _, numSet => some ([], numSet)
  | seg :: segs, bvecS, nnS, lens, numSet =>
    let bvecE := bvecS + seg.length - 1
    if bvecE < nnS then (setSegmentsEmpty segs (bvecE + 1) nnS lens numSet).map fun res => (seg :: res.1, res.2)
    else
      let offsetInBv : Int := nnS - bvecS
      let bvlenSet := seg.length - offsetInBv
      let lenToSet := if lens > bvlenSet then bvlenSet else lens
      (zeros lenToSet).bind fun data => (putAt seg offsetInBv data).bind fun seg' =>
        if lens - lenToSet ≤ 0 then some (seg' :: segs, numSet + lenToSet)
        else (setSegmentsEmpty segs (bvecE + 1) (nnS + lenToSet.toNat) (lens - lenToSet) (numSet + lenToSet)).map fun res =>
          (seg' :: res.1, res.2)

def setBioRqEmpty (rq : RqData) (nnS : Nat) (lens : Int) : Option (RqData × Int) :=
  let bvecS := rq.pos <<< bitLenSectSize
  (if nnS < bvecS then setSegmentsEmpty rq.segs bvecS bvecS lens (bvecS - nnS : Nat) else setSegmentsEmpty rq.segs bvecS nnS lens 0).map
    fun res => (⟨rq.pos, res.1⟩, res.2)

/-- The request loop of ioReq_RCopyData_zero2bio. -/
def zero2bioLoop (nnSectE : Nat) : List (Option RqData) → Nat → Int → Option (List (Option RqData))
  | [], _, _ => some []
  | none :: rqs, _, _ => some (none :: rqs)
  | some rq :: rqs, nnSectS, lenSects =>
    if nnSectE < rq.pos then some (some rq :: rqs)
    else if nnSectS ≥ rq.pos + rq.sectors then (zero2bioLoop nnSectE rqs nnSectS lenSects).map (some rq :: ·)
    else
      (setBioRqEmpty rq (nnSectS <<< bitLenSectSize) (lenSects * 512)).bind fun (rq', numSet) =>
        let numSectCps := numSet >>> bitLenSectSize
        if lenSects - numSectCps ≤ 0 then some (some rq' :: rqs)
        else (zero2bioLoop nnSectE rqs (nnSectS + numSectCps.toNat) (lenSects - numSectCps)).map (some rq' :: ·)

def ioReqRCopyDataZero2bio (r : CopyReq) (startLb lbCnt : Nat) (rqs : List (Option RqData)) : Option (List (Option RqData)) :=
  let lbIndex := startLb - r.lbidStart
  let hdSkip := headSectSkip (r.maskLbAlign[lbIndex]?.getD 0#8)
  (tailSectSkip (r.maskLbAlign[lbIndex + lbCnt - 1]?.getD 0#8)).bind fun tailSkip =>
    let nnSectS := startLb <<< bitLenDmsLbSects + hdSkip - r.sectsShift
    let lenSects := lbCnt <<< bitLenDmsLbSects - hdSkip - tailSkip
    zero2bioLoop (nnSectS + lenSects - 1) rqs nnSectS lenSects

theorem zeros_natCast (n : Nat) : zeros n = some (List.replicate n 0#8) := by
  rw [zeros, if_pos (by omega), Int.toNat_natCast]

private theorem setSegmentsEmpty_spec (segs : List (List Byte)) (bvecS o : Nat) {T : Nat} (num : Int) (hT : 0 < T)
    (hsegs : ∀ seg ∈ segs, 0 < seg.length) :
    ∃ segs', setSegmentsEmpty segs bvecS (bvecS + o) T num = some (segs', num + (min T (segs.flatten.length - o) : Nat)) ∧
      Put segs o (List.replicate (min T (segs.flatten.length - o)) 0#8) segs' := by
  induction segs generalizing bvecS o T num with
  | nil =>
    rw [flatten_nil, length_nil, Nat.zero_sub, Nat.min_zero]
    exact ⟨[], by rw [setSegmentsEmpty, Int.natCast_zero, Int.add_zero], Put.nil _ _⟩
  | cons seg segs ih =>
    obtain ⟨hpos, hrest⟩ := forall_mem_cons.mp hsegs
    have hend : bvecS + seg.length - 1 + 1 = bvecS + seg.length := by omega
    rw [setSegmentsEmpty, hend, flatten_cons, length_append]
    by_cases hskip : seg.length ≤ o
    · obtain ⟨o, rfl⟩ := Nat.exists_eq_add_of_le hskip
      obtain ⟨segs', hloop, hput⟩ := ih (bvecS + seg.length) o num hT hrest
      rw [if_pos (by omega), ← Nat.add_assoc, hloop, Nat.add_sub_add_left]
      exact ⟨_, rfl, hput.skip seg⟩
    · have hlen : (if (T : Int) > seg.length - ((bvecS + o : Nat) - bvecS : Int) then seg.length - ((bvecS + o : Nat) - bvecS : Int)
          else (T : Int)) = (min T (seg.length - o) : Nat) := by
        split_ifs <;> omega
      have hoff : ((bvecS + o : Nat) : Int) - bvecS = o := by omega
      rw [if_neg (by omega)]
      simp only [hlen, zeros_natCast, Option.bind_some]
      rw [hoff, putAt_of_le (by rw [length_replicate]; omega), Option.bind_some]
      by_cases hlast : T ≤ seg.length - o
      · rw [if_pos (by omega), show min T (seg.length + segs.flatten.length - o) = min T (seg.length - o) by omega]
        exact ⟨_, rfl, Put.here segs (by rw [length_replicate]; omega)⟩
      · obtain ⟨segs', hloop, hput⟩ := ih (bvecS + seg.length) 0 (T := T - (seg.length - o)) (num + (seg.length - o : Nat)) (by omega)
          hrest
        have hall : min T (seg.length + segs.flatten.length - o) =
            seg.length - o + min (T - (seg.length - o)) (segs.flatten.length - 0) := by omega
        rw [if_neg (by omega), Nat.min_eq_right (show seg.length - o ≤ T by omega), Int.toNat_natCast, ← Int.ofNat_sub (by omega),
          show bvecS + o + (seg.length - o) = bvecS + seg.length + 0 by omega, hloop, hall, replicate_add]
        refine ⟨_, ?_, Put.across (by rw [length_replicate]; omega) hput⟩
        rw [Option.map_some, Int.natCast_add, ← Int.add_assoc]

theorem zero2bioLoop_spec (rqs : List RqData) (pos o t : Nat) (hcont : RqData.Contiguous pos rqs)
    (hrqs : ∀ rq ∈ rqs, rq.WellFormed) (ht : 0 < t) (hin : 512 * (o + t) ≤ (RqData.allBytes rqs).length) :
    ∃ rqs', zero2bioLoop (pos + o + t - 1) (rqs.map some) (pos + o) t = some (rqs'.map some) ∧
      Delivered rqs (512 * o) (List.replicate (512 * t) 0#8) rqs' := by
  induction rqs generalizing pos o t with
  | nil =>
    rw [RqData.allBytes, flatMap_nil, length_nil] at hin
    omega
  | cons rq rqs ih =>
    obtain ⟨rfl, hcont⟩ := hcont
    obtain ⟨hrq, hrqs'⟩ := forall_mem_cons.mp hrqs
    obtain ⟨hlen, hlen0⟩ := hrq.length_bytes
    have hall : RqData.allBytes (rq :: rqs) = rq.bytes ++ RqData.allBytes rqs := flatMap_cons
    rw [hall, length_append] at hin
    rw [map_cons, zero2bioLoop, if_neg (by omega)]
    by_cases hskip : rq.sectors ≤ o
    · obtain ⟨o, rfl⟩ := Nat.exists_eq_add_of_le hskip
      obtain ⟨rqs', hloop, hdel⟩ := ih (rq.pos + rq.sectors) o t hcont hrqs' ht (by omega)
      rw [if_pos (by omega), ← Nat.add_assoc, hloop]
      refine ⟨rq :: rqs', rfl, ?_⟩
      rw [Nat.mul_add, ← hlen]
      exact hdel.skip rq
    · rw [if_neg (by omega)]
      obtain ⟨segs, hset, hput⟩ := setSegmentsEmpty_spec rq.segs (512 * rq.pos) (512 * o) (T := 512 * t) 0 (by omega) hrq.seg_pos
      have hmin : min (512 * t) (rq.segs.flatten.length - 512 * o) = 512 * min t (rq.sectors - o) := by
        rw [show rq.segs.flatten.length = 512 * rq.sectors from hlen]
        omega
      rw [hmin] at hput hset
      have hrqEmpty : setBioRqEmpty rq ((rq.pos + o) <<< bitLenSectSize) (t * 512) =
          some (⟨rq.pos, segs⟩, ((512 * min t (rq.sectors - o) : Nat) : Int)) := by
        rw [setBioRqEmpty, shiftLeft_bitLenSectSize, shiftLeft_bitLenSectSize, if_neg (by omega), Nat.mul_add,
          show (t : Int) * 512 = (512 * t : Nat) by omega, hset, Option.map_some, Int.zero_add]
      have hshift : ((512 * min t (rq.sectors - o) : Nat) : Int) >>> bitLenSectSize = (min t (rq.sectors - o) : Nat) := by
        rw [Int.shiftRight_eq_div_pow, show ((2 ^ bitLenSectSize : Nat) : Int) = 512 from rfl]
        omega
      rw [hrqEmpty]
      simp only [Option.bind_some, hshift]
      by_cases hlast : t ≤ rq.sectors - o
      · rw [Nat.min_eq_left hlast] at hput ⊢
        rw [if_pos (by omega)]
        refine ⟨⟨rq.pos, segs⟩ :: rqs, rfl, Delivered.here rqs hput ?_⟩
        rw [length_replicate]
        omega
      · rw [Nat.min_eq_right (by omega)] at hput ⊢
        obtain ⟨rqs', hloop, hdel⟩ := ih (rq.pos + rq.sectors) 0 (t - (rq.sectors - o)) hcont hrqs' (by omega) (by omega)
        rw [if_neg (by omega), Int.toNat_natCast, ← Int.ofNat_sub (by omega),
          show rq.pos + o + t - 1 = rq.pos + rq.sectors + 0 + (t - (rq.sectors - o)) - 1 by omega,
          show rq.pos + o + (rq.sectors - o) = rq.pos + rq.sectors + 0 by omega, hloop]
        refine ⟨⟨rq.pos, segs⟩ :: rqs', rfl, ?_⟩
        rw [show 512 * t = 512 * (rq.sectors - o) + 512 * (t - (rq.sectors - o)) by omega, replicate_add]
        exact Delivered.across hput (by rw [length_replicate]; omega) hdel

end DiscoClient
