import DiscoClient.Lib.Blocks
import DiscoClient.NnClient.OvwBitmap

/-! How large the overwritten bitmap of a volume is, and how it is zeroed: discoNN_client/discoC_NNC_ovw.c.
-/
namespace DiscoClient

/-- PAGE_ALIGN with pages of 4096 bytes. -/
def pageAlign (x : BitVec 64) : BitVec 64 := (x + 4095#64) &&& ~~~4095#64

def ovwBufSize : Nat := 4096

def blankBuffer : List (BitVec 8) := List.replicate ovwBufSize 0#8

/-- The size of the bitmap of a volume, as init_ovw and ovw_clear compute it. -/
def ovwSize (capacity : BitVec 64) : Nat := (pageAlign ((capacity >>> 12) >>> 3)).toNat

/-- The loop that copies the blank buffer over the bitmap, from myf_ops on; none if it writes behind the memory. -/
def blankLoop (size : Nat) (mem : List (BitVec 8)) (myfOps : Nat) : Option (List (BitVec 8)) :=
  if myfOps < size then
    if myfOps + ovwBufSize ≤ mem.length then blankLoop size (overwrite mem myfOps blankBuffer) (myfOps + ovwBufSize)
    else none
  else some mem
termination_by size - myfOps
decreasing_by simp only [ovwBufSize]; omega

namespace VolumeOvw

/-- init_ovw on the memory that vmalloc returns; none if a byte outside of it is written. -/
def initOvw (vol : VolumeOvw) (area : Option (List (BitVec 8))) (capacity : BitVec 64) : Option (Bool × VolumeOvw) :=
  match area with
  | none => some (false, { vol with ovwMemory := [] })
  | some mem => (blankLoop (ovwSize capacity) mem 0).map fun mem => (true, ⟨true, mem⟩)

/-- ovw_clear; none if a byte outside of the bitmap is written. -/
def ovwClear (vol : VolumeOvw) (capacity : BitVec 64) : Option (Bool × VolumeOvw) :=
  if vol.ovwInit then
    (blankLoop (ovwSize capacity) vol.ovwMemory 0).map fun mem => (true, { vol with ovwMemory := mem })
  else some (false, vol)

def lbBit (vol : VolumeOvw) (lbid : Nat) : Option Bool := vol.ovwMemory[lbid >>> 3]?.map fun data => data.getLsbD (lbid &&& 7)

end VolumeOvw

theorem toNat_pageAlign {x : BitVec 64} (h : x.toNat + 4095 < 2 ^ 64) :
    (pageAlign x).toNat = (x.toNat + 4095) / 4096 * 4096 := by
  have hmask (y : BitVec 64) : y &&& ~~~4095#64 = (y >>> 12) <<< 12 := by
    have hconst : ∀ i : Fin 64, (~~~4095#64).getLsbD i = decide (12 ≤ i.val) := by decide
    refine BitVec.eq_of_getLsbD_eq fun i hi => ?_
    rw [BitVec.getLsbD_and, hconst ⟨i, hi⟩, BitVec.getLsbD_shiftLeft, BitVec.getLsbD_ushiftRight]
    by_cases hlow : 12 ≤ i
    · simp [hi, hlow, Nat.not_lt.mpr hlow, Nat.add_sub_cancel' hlow]
    · simp [hlow, Nat.not_le.mp hlow]
  rw [pageAlign, hmask, BitVec.toNat_shiftLeft, BitVec.toNat_ushiftRight, BitVec.toNat_add, BitVec.toNat_ofNat,
    Nat.shiftLeft_eq, Nat.shiftRight_eq_div_pow]
  omega

theorem ovwSize_eq (capacity : BitVec 64) :
    ovwSize capacity = (capacity.toNat / 4096 / 8 + 4095) / 4096 * 4096 := by
  have hlt := capacity.isLt
  have hbytes : ((capacity >>> 12) >>> 3).toNat = capacity.toNat / 4096 / 8 := by
    rw [BitVec.toNat_ushiftRight, BitVec.toNat_ushiftRight, Nat.shiftRight_eq_div_pow, Nat.shiftRight_eq_div_pow]
  rw [ovwSize, toNat_pageAlign (by omega), hbytes]

theorem blankLoop_spec {size : Nat} (hpage : ovwBufSize ∣ size) {mem : List (BitVec 8)} {myfOps : Nat}
    (hlen : mem.length = size) (hops : ovwBufSize ∣ myfOps) (hzero : ∀ i < myfOps, i < size → mem[i]? = some 0#8) :
    blankLoop size mem myfOps = some (List.replicate size 0#8) := by
  have hblank : blankBuffer.length = ovwBufSize := List.length_replicate
  fun_induction blankLoop size mem myfOps with
  | case1 mem myfOps hlt hroom ih =>
    have hroom' : myfOps + blankBuffer.length ≤ mem.length := by rwa [hblank]
    refine ih ((Overwrite.length_overwrite hroom').trans hlen) (Nat.dvd_add hops (Nat.dvd_refl _)) fun i hi hsize => ?_
    by_cases hold : i < myfOps
    · rw [Overwrite.getElem?_of_lt (by omega) hold]
      exact hzero i hold hsize
    · obtain ⟨j, rfl⟩ := Nat.exists_eq_add_of_le (Nat.not_lt.mp hold)
      have hj : j < ovwBufSize := by omega
      rw [Overwrite.getElem?_of_mem (by omega) (hj.trans_eq hblank.symm), blankBuffer, List.getElem?_replicate, if_pos hj]
  | case2 mem myfOps hlt hroom =>
    -- the next page starts inside of the bitmap, so it ends inside of it
    obtain ⟨k, hk⟩ := hpage
    obtain ⟨j, hj⟩ := hops
    have hjk : j < k := by
      rw [hk, hj] at hlt
      exact Nat.lt_of_mul_lt_mul_left hlt
    have hle : ovwBufSize * (j + 1) ≤ ovwBufSize * k := Nat.mul_le_mul_left _ hjk
    rw [Nat.mul_add, Nat.mul_one] at hle
    omega
  | case3 mem myfOps hge =>
    refine congrArg some (List.ext_getElem? fun i => ?_)
    rw [List.getElem?_replicate]
    split_ifs with hi
    · exact hzero i (by omega) hi
    · rw [List.getElem?_eq_none (by omega)]

theorem blankLoop_ovwSize {capacity : BitVec 64} {mem : List (BitVec 8)} (hlen : mem.length = ovwSize capacity) :
    blankLoop (ovwSize capacity) mem 0 = some (List.replicate (ovwSize capacity) 0#8) := by
  refine blankLoop_spec ⟨(capacity.toNat / 4096 / 8 + 4095) / 4096, ?_⟩ hlen (Nat.dvd_zero _) fun i hi => absurd hi (by omega)
  rw [ovwSize_eq, ovwBufSize, Nat.mul_comm]

structure VolumeOvw.Blank (vol : VolumeOvw) (capacity : BitVec 64) : Prop where
  length_eq : vol.ovwMemory.length = ovwSize capacity
  lbBit_eq : ∀ lb < capacity.toNat / 4096, vol.lbBit lb = some false

theorem VolumeOvw.blank_replicate {capacity : BitVec 64} (hindex : ∀ lb < capacity.toNat / 4096, lb >>> 3 < ovwSize capacity)
    (ready : Bool) : VolumeOvw.Blank ⟨ready, List.replicate (ovwSize capacity) 0#8⟩ capacity := by
  refine ⟨List.length_replicate, fun lb hlb => ?_⟩
  rw [lbBit, List.getElem?_replicate, if_pos (hindex lb hlb), Option.map_some, BitVec.getLsbD_zero]

/-- The bytes of the LBs are counted rounded down, and only whole pages of them rounded up. -/
theorem ovw_index_iff (capacity : BitVec 64) :
    (∀ lb < capacity.toNat / 4096, lb >>> 3 < ovwSize capacity) ↔
      (capacity.toNat / 4096 % 32768 = 0 ∨ 8 ≤ capacity.toNat / 4096 % 32768) := by
  rw [ovwSize_eq]
  constructor
  · intro h
    by_contra hbad
    have hlast := h (capacity.toNat / 4096 - 1) (by omega)
    rw [Nat.shiftRight_eq_div_pow] at hlast
    omega
  · intro h lb hlb
    rw [Nat.shiftRight_eq_div_pow]
    omega

/-- Every LB of a volume has its bit in the bitmap, and both functions zero just the bitmap, unless the LBs
behind its last full page are less than eight. -/
theorem ovw_sizing_iff (capacity : BitVec 64) :
    ((∀ lb < capacity.toNat / 4096, lb >>> 3 < ovwSize capacity) ∧
      (∀ (vol : VolumeOvw) (mem : List (BitVec 8)), mem.length = ovwSize capacity →
        ∃ vol', vol.initOvw (some mem) capacity = some (true, vol') ∧ vol'.Blank capacity) ∧
      (∀ vol : VolumeOvw, vol.ovwInit = true → vol.ovwMemory.length = ovwSize capacity →
        ∃ vol', vol.ovwClear capacity = some (true, vol') ∧ vol'.Blank capacity)) ↔
      (capacity.toNat / 4096 % 32768 = 0 ∨ 8 ≤ capacity.toNat / 4096 % 32768) := by
  rw [← ovw_index_iff]
  refine ⟨fun h => h.1, fun hindex => ⟨hindex, fun vol mem hlen => ?_, fun vol hinit hlen => ?_⟩⟩
  · refine ⟨⟨true, List.replicate (ovwSize capacity) 0#8⟩, ?_, VolumeOvw.blank_replicate hindex true⟩
    rw [VolumeOvw.initOvw, blankLoop_ovwSize hlen]
    rfl
  · refine ⟨{ vol with ovwMemory := List.replicate (ovwSize capacity) 0#8 }, ?_, VolumeOvw.blank_replicate hindex _⟩
    rw [VolumeOvw.ovwClear, if_pos hinit, blankLoop_ovwSize hlen]
    rfl

/-- A volume of two pages: its bitmap has no byte at all. -/
theorem ovw_two_lbs_unmapped :
    ¬ ∀ lb < (8192#64).toNat / 4096, lb >>> 3 < ovwSize 8192#64 := by
  intro h
  have hzero := h 0 (by decide)
  revert hzero
  decide

end DiscoClient
