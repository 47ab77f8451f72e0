import DiscoClient.Common.SysDef

/-! The alignment mask of an IO request: one byte for each LB, one bit for each of its sectors. -/
namespace DiscoClient
open List

def bitLenPer1Mask : Nat := 8

/-- The bit loop of _ioReq_set_lbalign_mask: bits from startbit on, as many as bitlen. -/
def setBits (mask : BitVec 8) (startbit bitlen : Nat) : BitVec 8 :=
  (List.range' startbit bitlen).foldl (fun m j => m ||| 1#8 <<< j) mask

/-- How many bits a turn of _ioReq_set_lbalign_mask sets: to the end of the LB or of the range. -/
def lbalignBitlen (sectEnd sectStart : Nat) : Nat :=
  let rangebit := bitLenPer1Mask - sectStart % bitLenPer1Mask
  if (sectStart + rangebit) % 2 ^ 64 ≥ sectEnd then sectEnd - sectStart else rangebit

/-- The while loop of _ioReq_set_lbalign_mask with 64-bit sector numbers. None if it writes past the
end of the mask. -/
def lbalignLoop (sectEnd : Nat) : Nat → Nat → Nat → List (BitVec 8) → Option (Nat × List (BitVec 8))
  | 0, _, _, _ => none
  | fuel + 1, i, sectStart, mask =>
    if sectStart < sectEnd then
      if i < mask.length then
        lbalignLoop sectEnd fuel (i + 1) ((sectStart + lbalignBitlen sectEnd sectStart) % 2 ^ 64)
          (mask.modify i fun m => setBits m (sectStart % bitLenPer1Mask) (lbalignBitlen sectEnd sectStart))
      else none
    else some (i, mask)

/-- _ioReq_set_lbalign_mask: the mask, and whether both ends of the range are aligned. -/
def ioReqSetLbalignMask (sectBegin sectLen : Nat) : Option (List (BitVec 8) × Bool) :=
  (lbalignLoop ((sectBegin + sectLen) % 2 ^ 64) (maxLbsPerIor + 1) 0 sectBegin (List.replicate maxLbsPerIor 0#8)).map
    fun r => (r.2, (r.2[0]? == some 0xff#8) && (r.2[r.1 - 1]? == some 0xff#8))

/-- lbid_len, as ioReq_init_request computes it. -/
def ioReqLbidLen (kernSect nrKsects : Nat) : Nat :=
  ((kernSect + nrKsects - 1) >>> bitLenDmsLbSects) - (kernSect >>> bitLenDmsLbSects) + 1

def headSectSkip (mask : BitVec 8) : Nat := ((List.range bitLenPer1Mask).takeWhile fun j => !mask.getLsbD j).length

/-- tail_sect_skip. The loop counts down with an unsigned number, so it only ends at a bit that is set. -/
def tailSectSkip (mask : BitVec 8) : Option Nat :=
  if mask = 0#8 then none
  else some (((List.range bitLenPer1Mask).takeWhile fun j => !mask.getLsbD (bitLenPer1Mask - 1 - j)).length)

theorem getLsbD_setBits (mask : BitVec 8) (startbit bitlen : Nat) {j : Nat} (hj : j < 8) :
    (setBits mask startbit bitlen).getLsbD j = (mask.getLsbD j || decide (startbit ≤ j ∧ j < startbit + bitlen)) := by
  rw [setBits]
  induction bitlen generalizing startbit mask with
  | zero => simp
  | succ n ih =>
    have hone : (1#8 <<< startbit).getLsbD j = decide (startbit = j) := by
      rw [BitVec.getLsbD_shiftLeft, BitVec.getLsbD_one]
      simp only [hj, decide_true, Bool.true_and]
      grind
    rw [range'_succ, foldl_cons, ih, BitVec.getLsbD_or, hone]
    grind

section
variable {s e : Nat}

def turnStart (s e i : Nat) : Nat := min e (max s (8 * (s / 8 + i)))

def turnMask (s e n : Nat) : List (BitVec 8) :=
  (List.range maxLbsPerIor).map fun i =>
    if i < n then setBits 0#8 (turnStart s e i - 8 * (s / 8 + i)) (turnStart s e (i + 1) - turnStart s e i) else 0#8

theorem length_turnMask (s e n : Nat) : (turnMask s e n).length = maxLbsPerIor := by
  rw [turnMask, length_map, length_range]

theorem getElem?_turnMask (s e n : Nat) {i : Nat} (hi : i < maxLbsPerIor) : (turnMask s e n)[i]? =
    some (if i < n then setBits 0#8 (turnStart s e i - 8 * (s / 8 + i)) (turnStart s e (i + 1) - turnStart s e i) else 0#8) := by
  rw [turnMask, List.getElem?_map, List.getElem?_range hi]
  rfl

theorem modify_turnMask (s e i : Nat) :
    (turnMask s e i).modify i (fun m =>
        setBits m (turnStart s e i - 8 * (s / 8 + i)) (turnStart s e (i + 1) - turnStart s e i)) =
      turnMask s e (i + 1) := by
  refine ext_getElem? fun k => ?_
  rw [List.getElem?_modify]
  by_cases hk : k < maxLbsPerIor
  · rw [getElem?_turnMask s e i hk, getElem?_turnMask s e (i + 1) hk]
    by_cases heq : i = k
    · subst heq
      simp
    · have hiff : k < i + 1 ↔ k < i := by omega
      simp [heq, hiff]
  · rw [List.getElem?_eq_none (by rw [length_turnMask]; omega), List.getElem?_eq_none (by rw [length_turnMask]; omega)]
    rfl

private theorem turn_bounds {i : Nat} (hin : 8 * (s / 8 + i) < e) (hse : s < e) :
    turnStart s e i < e ∧ turnStart s e i % 8 = turnStart s e i - 8 * (s / 8 + i) ∧
      turnStart s e (i + 1) = min e (8 * (s / 8 + (i + 1))) ∧ turnStart s e i < 8 * (s / 8 + (i + 1)) ∧
      8 * (s / 8 + i) ≤ turnStart s e i := by
  rw [turnStart, turnStart]
  omega

theorem lbalignLoop_step (fuel : Nat) {i : Nat} (hi : i < maxLbsPerIor) (hin : 8 * (s / 8 + i) < e) (hse : s < e)
    (hwrap : 8 * (s / 8 + (i + 1)) < 2 ^ 64) (he : e < 2 ^ 64) :
    lbalignLoop e (fuel + 1) i (turnStart s e i) (turnMask s e i) =
      lbalignLoop e fuel (i + 1) (turnStart s e (i + 1)) (turnMask s e (i + 1)) := by
  obtain ⟨hlt, hmod, hnext, hblock, hle⟩ := turn_bounds hin hse
  have hlen : lbalignBitlen e (turnStart s e i) = turnStart s e (i + 1) - turnStart s e i := by
    have hsum : turnStart s e i + (bitLenPer1Mask - turnStart s e i % bitLenPer1Mask) = 8 * (s / 8 + (i + 1)) := by
      rw [show bitLenPer1Mask = 8 from rfl]
      omega
    rw [lbalignBitlen, hsum, Nat.mod_eq_of_lt hwrap, show bitLenPer1Mask = 8 from rfl]
    split_ifs <;> omega
  have hstart : (turnStart s e i + (turnStart s e (i + 1) - turnStart s e i)) % 2 ^ 64 = turnStart s e (i + 1) := by
    rw [Nat.add_sub_cancel' (by omega)]
    exact Nat.mod_eq_of_lt (by omega)
  rw [lbalignLoop, if_pos hlt, if_pos (by rw [length_turnMask]; exact hi), hlen, hstart,
    show turnStart s e i % bitLenPer1Mask = _ from hmod, modify_turnMask]

theorem lbalignLoop_steps (fuel n : Nat) (hn : n ≤ maxLbsPerIor) (hin : ∀ i < n, 8 * (s / 8 + i) < e) (hse : s < e)
    (hwrap : 8 * (s / 8 + n) < 2 ^ 64) (he : e < 2 ^ 64) :
    lbalignLoop e (fuel + n) 0 s (List.replicate maxLbsPerIor 0#8) =
      lbalignLoop e fuel n (turnStart s e n) (turnMask s e n) := by
  induction n generalizing fuel with
  | zero =>
    have hstart : turnStart s e 0 = s := by rw [turnStart]; omega
    have hmask : turnMask s e 0 = List.replicate maxLbsPerIor 0#8 := by
      rw [turnMask]
      exact (map_congr_left fun i _ => if_neg (Nat.not_lt_zero i)).trans (by rw [map_const', length_range])
    rw [hstart, hmask]
    rfl
  | succ n ih =>
    rw [← Nat.add_assoc, Nat.add_right_comm, ih (fuel + 1) (by omega) (fun i hi => hin i (by omega)) (by omega)]
    exact lbalignLoop_step fuel (by omega) (hin n (by omega)) hse hwrap he

theorem lbalignLoop_overrun (he : e < 2 ^ 64) (fuel : Nat) {i start : Nat} {mask : List (BitVec 8)}
    (hmask : mask.length = maxLbsPerIor) (hi : i ≤ maxLbsPerIor) (hfar : start + 8 * (maxLbsPerIor + 1 - i) ≤ e) :
    lbalignLoop e fuel i start mask = none := by
  induction fuel generalizing i start mask with
  | zero => rfl
  | succ fuel ih =>
    rw [lbalignLoop, if_pos (by omega), hmask]
    split_ifs with hin
    · have hle : lbalignBitlen e start ≤ 8 := by
        rw [lbalignBitlen, show bitLenPer1Mask = 8 from rfl]
        split_ifs <;> omega
      generalize lbalignBitlen e start = bitlen at hle ⊢
      have hstart : (start + bitlen) % 2 ^ 64 = start + bitlen := Nat.mod_eq_of_lt (by omega)
      rw [hstart]
      exact ih (by rw [length_modify, hmask]) (by omega) (by omega)
    · rfl

theorem getLsbD_turnMask {n i j : Nat} (hi : i < maxLbsPerIor) (hj : j < 8) (hse : s < e)
    (hin : ∀ i < n, 8 * (s / 8 + i) < e) (hend : e ≤ 8 * (s / 8 + n)) :
    ((turnMask s e n)[i]?.getD 0#8).getLsbD j = decide (s ≤ 8 * (s / 8) + 8 * i + j ∧ 8 * (s / 8) + 8 * i + j < e) := by
  rw [getElem?_turnMask s e n hi, Option.getD_some]
  split_ifs with hlt
  · obtain ⟨hstart, -, hnext, hblock, hle⟩ := turn_bounds (hin i hlt) hse
    rw [getLsbD_setBits _ _ _ hj]
    have hfirst : turnStart s e i = max s (8 * (s / 8 + i)) := by
      have hlow := hin i hlt
      rw [turnStart]
      omega
    simp only [BitVec.getLsbD_zero, Bool.false_or, decide_eq_decide]
    omega
  · simp only [BitVec.getLsbD_zero, Bool.false_eq, decide_eq_false_iff_not]
    omega

end

theorem length_takeWhile_range {m n : Nat} (hn : n < m) {f : Nat → Bool} (hbefore : ∀ j < n, f j = true)
    (hat : f n = false) : ((List.range m).takeWhile f).length = n := by
  have hsplit : List.range m = List.range n ++ n :: List.range' (n + 1) (m - n - 1) := by
    rw [← range'_succ, range_eq_range', range_eq_range', show m - n - 1 + 1 = m - n by omega]
    have happend := range'_append_1 (s := 0) (m := n) (n := m - n)
    rw [Nat.zero_add, Nat.add_sub_cancel' hn.le] at happend
    exact happend.symm
  rw [hsplit, takeWhile_append_of_pos fun j hj => hbefore j (mem_range.mp hj), takeWhile_cons_of_neg
    (by rw [hat]; exact Bool.false_ne_true), append_nil, length_range]

theorem headSectSkip_eq {mask : BitVec 8} {n : Nat} (hn : n < 8) (hclear : ∀ j < n, mask.getLsbD j = false)
    (hset : mask.getLsbD n = true) : headSectSkip mask = n :=
  length_takeWhile_range hn (fun j hj => by rw [hclear j hj]; rfl) (by rw [hset]; rfl)

theorem tailSectSkip_eq {mask : BitVec 8} {n : Nat} (hn : n < 8) (hclear : ∀ j < n, mask.getLsbD (7 - j) = false)
    (hset : mask.getLsbD (7 - n) = true) : tailSectSkip mask = some n := by
  have hne : mask ≠ 0#8 := by
    rintro rfl
    rw [BitVec.getLsbD_zero] at hset
    cases hset
  rw [tailSectSkip, if_neg hne]
  exact congrArg some (length_takeWhile_range hn (fun j hj => by rw [show bitLenPer1Mask - 1 - j = 7 - j from rfl, hclear j hj]; rfl)
    (by rw [show bitLenPer1Mask - 1 - n = 7 - n from rfl, hset]; rfl))

structure MaskOk (s len : Nat) (mask : List (BitVec 8)) (aligned : Bool) : Prop where
  length : mask.length = maxLbsPerIor
  bits : ∀ i < maxLbsPerIor, ∀ j < 8, (mask[i]?.getD 0#8).getLsbD j = true ↔
    s ≤ 8 * (s / 8) + 8 * i + j ∧ 8 * (s / 8) + 8 * i + j < s + len
  nonzero : ∀ i < maxLbsPerIor, mask[i]?.getD 0#8 ≠ 0#8 ↔ i < ioReqLbidLen s len
  fits : ioReqLbidLen s len ≤ maxLbsPerIor
  aligned : aligned = true ↔ 8 ∣ s ∧ 8 ∣ s + len
  head : headSectSkip (mask[0]?.getD 0#8) = s - 8 * (s / 8)
  tail : tailSectSkip (mask[ioReqLbidLen s len - 1]?.getD 0#8) = some (8 * (s / 8 + ioReqLbidLen s len) - (s + len))

section
variable {s len : Nat} (hpos : 0 < len) (hmax : len ≤ maxSectsPerRq)
include hpos

theorem ioReqLbidLen_bounds : 8 * (s / 8 + ioReqLbidLen s len) < s + len + 8 ∧
    s + len ≤ 8 * (s / 8 + ioReqLbidLen s len) ∧ 0 < ioReqLbidLen s len := by
  have hshift (x : Nat) : x >>> bitLenDmsLbSects = x / 8 := Nat.shiftRight_eq_div_pow x 3
  rw [ioReqLbidLen, hshift, hshift]
  omega

private theorem before_end {i : Nat} (hi : i < ioReqLbidLen s len) : 8 * (s / 8 + i) < s + len := by
  have hbounds := ioReqLbidLen_bounds (s := s) hpos
  omega

include hmax

theorem ioReqLbidLen_le : ioReqLbidLen s len ≤ maxLbsPerIor := by
  have hbounds := ioReqLbidLen_bounds (s := s) hpos
  have hmax : len ≤ 256 := hmax
  change _ ≤ 33
  omega

private theorem mask_of_fits (hfits : s + len ≤ 2 ^ 64 - 8) :
    lbalignLoop ((s + len) % 2 ^ 64) (maxLbsPerIor + 1) 0 s (List.replicate maxLbsPerIor 0#8) =
      some (ioReqLbidLen s len, turnMask s (s + len) (ioReqLbidLen s len)) := by
  have hbounds := ioReqLbidLen_bounds (s := s) hpos
  have hle := ioReqLbidLen_le (s := s) hpos hmax
  have hsteps := lbalignLoop_steps (s := s) (e := s + len) (maxLbsPerIor - ioReqLbidLen s len + 1) (ioReqLbidLen s len) hle
    (fun i hi => before_end hpos hi) (by omega) (by omega) (by omega)
  have hend : turnStart s (s + len) (ioReqLbidLen s len) = s + len := by
    rw [turnStart]
    omega
  rw [Nat.mod_eq_of_lt (by omega), show maxLbsPerIor + 1 = maxLbsPerIor - ioReqLbidLen s len + 1 + ioReqLbidLen s len by omega,
    hsteps, lbalignLoop, hend, if_neg (Nat.lt_irrefl _)]

private theorem overrun_of_not_fits (hend : s + len < 2 ^ 64) (hfits : ¬ s + len ≤ 2 ^ 64 - 8) :
    lbalignLoop ((s + len) % 2 ^ 64) (maxLbsPerIor + 1) 0 s (List.replicate maxLbsPerIor 0#8) = none := by
  have hbounds := ioReqLbidLen_bounds (s := s) hpos
  have hle := ioReqLbidLen_le (s := s) hpos hmax
  obtain ⟨n, hn⟩ : ∃ n, ioReqLbidLen s len = n + 1 := ⟨ioReqLbidLen s len - 1, by omega⟩
  rw [hn] at hbounds hle
  have hsteps := lbalignLoop_steps (s := s) (e := s + len) (maxLbsPerIor - n + 1) n (by omega)
    (fun i hi => before_end hpos (by omega)) (by omega) (by omega) hend
  obtain ⟨hlt, hmod, -, hblock, hlow⟩ := turn_bounds (s := s) (e := s + len) (i := n) (before_end hpos (by omega)) (by omega)
  have hlen : lbalignBitlen (s + len) (turnStart s (s + len) n) = 8 - turnStart s (s + len) n % 8 := by
    have hwrap : (turnStart s (s + len) n + (8 - turnStart s (s + len) n % 8)) % 2 ^ 64 = 0 := by omega
    rw [lbalignBitlen, show bitLenPer1Mask = 8 from rfl, hwrap, if_neg (by omega)]
  rw [Nat.mod_eq_of_lt hend, show maxLbsPerIor + 1 = maxLbsPerIor - n + 1 + n by omega, hsteps, lbalignLoop, if_pos hlt,
    if_pos (by rw [length_turnMask]; omega), hlen]
  refine lbalignLoop_overrun hend _ ?_ (by omega) ?_
  · rw [length_modify, length_turnMask]
  · have hsmall : maxLbsPerIor = 33 := rfl
    omega

end

theorem eq_full_iff {mask : BitVec 8} : mask = 0xff#8 ↔ ∀ j < 8, mask.getLsbD j = true := by
  have hones : ∀ j < 8, (0xff#8).getLsbD j = true := by decide
  constructor
  · rintro rfl
    exact hones
  · intro h
    refine BitVec.eq_of_getLsbD_eq fun j hj => ?_
    rw [h j hj, hones j hj]

private theorem maskOk_turnMask {s len : Nat} (hpos : 0 < len) (hmax : len ≤ maxSectsPerRq) :
    MaskOk s len (turnMask s (s + len) (ioReqLbidLen s len))
      (((turnMask s (s + len) (ioReqLbidLen s len))[0]? == some 0xff#8) &&
        ((turnMask s (s + len) (ioReqLbidLen s len))[ioReqLbidLen s len - 1]? == some 0xff#8)) := by
  obtain ⟨hlow, hhigh, hone⟩ := ioReqLbidLen_bounds (s := s) hpos
  have hle := ioReqLbidLen_le (s := s) hpos hmax
  have hbits {i j : Nat} (hi : i < maxLbsPerIor) (hj : j < 8) :
      ((turnMask s (s + len) (ioReqLbidLen s len))[i]?.getD 0#8).getLsbD j = true ↔
        s ≤ 8 * (s / 8) + 8 * i + j ∧ 8 * (s / 8) + 8 * i + j < s + len := by
    rw [getLsbD_turnMask hi hj (by omega) (fun i hi => before_end hpos hi) hhigh, decide_eq_true_eq]
  have hclear {i j : Nat} (hi : i < maxLbsPerIor) (hj : j < 8)
      (h : ¬ (s ≤ 8 * (s / 8) + 8 * i + j ∧ 8 * (s / 8) + 8 * i + j < s + len)) :
      ((turnMask s (s + len) (ioReqLbidLen s len))[i]?.getD 0#8).getLsbD j = false := by
    rw [← Bool.not_eq_true, hbits hi hj]
    exact h
  have hget {i : Nat} (hi : i < maxLbsPerIor) : (turnMask s (s + len) (ioReqLbidLen s len))[i]? =
      some ((turnMask s (s + len) (ioReqLbidLen s len))[i]?.getD 0#8) := by
    rw [getElem?_turnMask _ _ _ hi, Option.getD_some]
  have hfull {i : Nat} (hi : i < maxLbsPerIor) : ((turnMask s (s + len) (ioReqLbidLen s len))[i]? == some 0xff#8) = true ↔
      s ≤ 8 * (s / 8) + 8 * i ∧ 8 * (s / 8) + 8 * i + 8 ≤ s + len := by
    rw [hget hi, beq_iff_eq, Option.some.injEq, eq_full_iff]
    constructor
    · intro h
      have hfirst := (hbits hi (by omega)).mp (h 0 (by omega))
      have hlast := (hbits hi (by omega)).mp (h 7 (by omega))
      omega
    · exact fun h j hj => (hbits hi hj).mpr (by omega)
  refine ⟨length_turnMask _ _ _, fun i hi j hj => hbits hi hj, fun i hi => ?_, hle, ?_, ?_, ?_⟩
  · constructor
    · intro hne
      by_contra hge
      refine hne (BitVec.eq_of_getLsbD_eq fun j hj => ?_)
      rw [BitVec.getLsbD_zero]
      exact hclear hi hj (by omega)
    · intro hlt hzero
      have hin := before_end (s := s) hpos hlt
      have hset := (hbits (i := i) (j := max s (8 * (s / 8) + 8 * i) - (8 * (s / 8) + 8 * i)) hi (by omega)).mpr (by omega)
      rw [hzero, BitVec.getLsbD_zero] at hset
      cases hset
  · rw [Bool.and_eq_true, hfull (by omega), hfull (by omega)]
    omega
  · refine headSectSkip_eq (by omega) (fun j hj => hclear (by omega) (by omega) (by omega)) ?_
    exact (hbits (by omega) (by omega)).mpr (by omega)
  · refine tailSectSkip_eq (by omega) (fun j hj => hclear (by omega) (by omega) (by omega)) ?_
    exact (hbits (by omega) (by omega)).mpr (by omega)

namespace MaskOk
variable {s len i : Nat} {mask : List (BitVec 8)} {aligned : Bool}

private theorem clear (h : MaskOk s len mask aligned) {j : Nat} (hi : i < maxLbsPerIor) (hj : j < 8)
    (hout : ¬ (s ≤ 8 * (s / 8) + 8 * i + j ∧ 8 * (s / 8) + 8 * i + j < s + len)) : (mask[i]?.getD 0#8).getLsbD j = false := by
  rw [← Bool.not_eq_true, h.bits i hi j hj]
  exact hout

theorem headSectSkip_at (h : MaskOk s len mask aligned) (hpos : 0 < len) (hi : i < ioReqLbidLen s len) :
    headSectSkip (mask[i]?.getD 0#8) = s - 8 * (s / 8 + i) := by
  have hbounds := ioReqLbidLen_bounds (s := s) hpos
  have hfits := h.fits
  refine headSectSkip_eq (by omega) (fun j hj => h.clear (by omega) (by omega) (by omega)) ?_
  exact (h.bits i (by omega) _ (by omega)).mpr (by omega)

theorem tailSectSkip_at (h : MaskOk s len mask aligned) (hpos : 0 < len) (hi : i < ioReqLbidLen s len) :
    tailSectSkip (mask[i]?.getD 0#8) = some (8 * (s / 8 + i + 1) - (s + len)) := by
  have hbounds := ioReqLbidLen_bounds (s := s) hpos
  have hfits := h.fits
  refine tailSectSkip_eq (by omega) (fun j hj => h.clear (by omega) (by omega) (by omega)) ?_
  exact (h.bits i (by omega) _ (by omega)).mpr (by omega)

end MaskOk

theorem exists_maskOk {s len : Nat} (hpos : 0 < len) (hmax : len ≤ maxSectsPerRq) (hfits : s + len ≤ 2 ^ 64 - 8) :
    ∃ mask aligned, ioReqSetLbalignMask s len = some (mask, aligned) ∧ MaskOk s len mask aligned := by
  refine ⟨_, _, ?_, maskOk_turnMask hpos hmax⟩
  rw [ioReqSetLbalignMask, mask_of_fits hpos hmax hfits]
  rfl

/-- The alignment mask is right unless the last LB of the range ends at 2^64: there the sum of the
loop wraps, and it writes past the end of the mask. -/
theorem lbalign_mask_iff (s len : Nat) (hpos : 0 < len) (hmax : len ≤ maxSectsPerRq) (hend : s + len < 2 ^ 64) :
    (∃ mask aligned, ioReqSetLbalignMask s len = some (mask, aligned) ∧ MaskOk s len mask aligned) ↔
      s + len ≤ 2 ^ 64 - 8 := by
  constructor
  · rintro ⟨mask, aligned, hmask, -⟩
    by_contra hfits
    rw [ioReqSetLbalignMask, overrun_of_not_fits hpos hmax hend hfits] at hmask
    cases hmask
  · exact exists_maskOk hpos hmax

/-- A range that begins and ends inside of LBs. -/
theorem lbalign_mask_unaligned :
    ∃ mask aligned, ioReqSetLbalignMask 13 12 = some (mask, aligned) ∧ MaskOk 13 12 mask aligned :=
  (lbalign_mask_iff 13 12 (by decide) (by decide) (by decide)).mpr (by decide)

/-- One sector of the last LB of all: the whole array is filled, and more. -/
theorem lbalign_mask_overrun : 2 ^ 64 - 8 + 1 < 2 ^ 64 ∧ ioReqSetLbalignMask (2 ^ 64 - 8) 1 = none := by
  decide +kernel

end DiscoClient
