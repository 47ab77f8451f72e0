import Mathlib.Data.BitVec

/-! A physical location as one 64-bit number: rbid in bits 32 to 63, length in bits 20 to 31, offset in
bits 0 to 19. -/
namespace DiscoClient
open BitVec

/-- compose_triple; its arguments are of type int32_t. -/
def composeTriple (rbid len offset : BitVec 32) : BitVec 64 :=
  rbid.signExtend 64 <<< 32 ||| len.signExtend 64 <<< 20 ||| offset.signExtend 64

structure Triple where
  rbid : BitVec 32
  len : BitVec 32
  offset : BitVec 32
  deriving DecidableEq, Repr

/-- decompose_triple; the length is shifted down as a signed number. -/
def decomposeTriple (val : BitVec 64) : Triple where
  rbid := (val >>> 32).truncate 32
  len := (((val <<< 32) >>> 32).truncate 32).sshiftRight 20
  offset := (val &&& 0xfffff#64).truncate 32

section
variable (rbid : BitVec 32) {len offset : BitVec 32}

theorem getLsbD_of_toNat_lt {x : BitVec 32} {n i : Nat} (h : x.toNat < 2 ^ n) (hi : n ≤ i) : x.getLsbD i = false := by
  rw [← testBit_toNat]
  exact Nat.testBit_lt_two_pow (lt_of_lt_of_le h (Nat.pow_le_pow_right (Nat.succ_pos 1) hi))

theorem getLsbD_composeTriple (hlen : len.toNat < 2 ^ 11) (hoff : offset.toNat < 2 ^ 20) {i : Nat} (hi : i < 64) :
    (composeTriple rbid len offset).getLsbD i =
      if i < 20 then offset.getLsbD i
      else if i < 32 then len.getLsbD (i - 20)
      else rbid.getLsbD (i - 32) := by
  have hlenMsb : len.msb = false := by rw [msb_eq_getLsbD_last]; exact getLsbD_of_toNat_lt hlen (by omega)
  have hoffMsb : offset.msb = false := by rw [msb_eq_getLsbD_last]; exact getLsbD_of_toNat_lt hoff (by omega)
  have hlenBit (j : Nat) (hj : 11 ≤ j) : len.getLsbD j = false := getLsbD_of_toNat_lt hlen hj
  have hoffBit (j : Nat) (hj : 20 ≤ j) : offset.getLsbD j = false := getLsbD_of_toNat_lt hoff hj
  simp only [composeTriple, getLsbD_or, getLsbD_shiftLeft, getLsbD_signExtend, hlenMsb, hoffMsb]
  grind

theorem decomposeTriple_composeTriple (hlen : len.toNat < 2 ^ 11) (hoff : offset.toNat < 2 ^ 20) :
    decomposeTriple (composeTriple rbid len offset) = ⟨rbid, len, offset⟩ := by
  obtain ⟨val, hval⟩ : ∃ val, val = composeTriple rbid len offset := ⟨_, rfl⟩
  have hbits {i : Nat} (hi : i < 64) := getLsbD_composeTriple rbid hlen hoff hi
  rw [← hval] at hbits ⊢
  have hrbid : (val >>> 32).truncate 32 = rbid := by
    ext i hi
    have hbit := hbits (show i + 32 < 64 by omega)
    grind
  have hlen' : (((val <<< 32) >>> 32).truncate 32).sshiftRight 20 = len := by
    ext i hi
    have hbit := hbits (show i + 20 < 64 by omega)
    have hhigh : 12 ≤ i → len.getLsbD i = false := fun h => getLsbD_of_toNat_lt hlen (by omega)
    have htop : val.getLsbD 31 = false := by
      rw [hbits (by omega)]
      exact getLsbD_of_toNat_lt hlen (Nat.le_refl 11)
    grind
  have hoff' : (val &&& 0xfffff#64).truncate 32 = offset := by
    ext i hi
    have hbit := hbits (show i < 64 by omega)
    have hmask : (0xfffff#64).getLsbD i = decide (i < 20) := Nat.testBit_two_pow_sub_one 20 i
    have hhigh : 20 ≤ i → offset.getLsbD i = false := fun h => getLsbD_of_toNat_lt hoff h
    grind
  rw [decomposeTriple, hrbid, hlen', hoff']

end

/-! ### The documented widths -/

theorem len_decomposeTriple_msb (rbid : BitVec 32) (len : BitVec 12) (offset : BitVec 20) :
    (decomposeTriple (composeTriple rbid (len.setWidth 32) (offset.setWidth 32))).len.msb = len.msb := by
  have hlenMsb : (len.setWidth 32).msb = false := by grind
  have hoffMsb : (offset.setWidth 32).msb = false := by grind
  have htop : (composeTriple rbid (len.setWidth 32) (offset.setWidth 32)).getLsbD 31 = len.getLsbD 11 := by
    simp only [composeTriple, getLsbD_or, getLsbD_shiftLeft, getLsbD_signExtend, hlenMsb, hoffMsb]
    grind
  rw [decomposeTriple]
  grind

/-- Composing a location that was taken apart keeps its lower half and sets its upper half where bit 31 is set. -/
theorem getLsbD_composeTriple_decomposeTriple (val : BitVec 64) {i : Nat} (hi : i < 64) :
    (composeTriple (decomposeTriple val).rbid (decomposeTriple val).len (decomposeTriple val).offset).getLsbD i =
      (val.getLsbD i || (decide (32 ≤ i) && val.getLsbD 31)) := by
  have hmask (i : Nat) : (0xfffff#64).getLsbD i = decide (i < 20) := Nat.testBit_two_pow_sub_one 20 i
  have hoffMsb : ((val &&& 0xfffff#64).truncate 32).msb = false := by grind
  simp only [composeTriple, decomposeTriple, getLsbD_or, getLsbD_shiftLeft, getLsbD_signExtend, hoffMsb]
  grind

/-- Lengths and offsets of their documented widths come back just when the length is below 2^11, and a
64-bit number just when its bit 31 is clear or its upper half is all ones. -/
theorem triple_round_trip_iff (rbid : BitVec 32) (len : BitVec 12) (offset : BitVec 20) (val : BitVec 64) :
    (decomposeTriple (composeTriple rbid (len.setWidth 32) (offset.setWidth 32)) =
        ⟨rbid, len.setWidth 32, offset.setWidth 32⟩ ↔ len.toNat < 2 ^ 11) ∧
    (composeTriple (decomposeTriple val).rbid (decomposeTriple val).len (decomposeTriple val).offset = val ↔
        val.getLsbD 31 = false ∨ (val >>> 32).truncate 32 = BitVec.allOnes 32) := by
  refine ⟨⟨fun h => ?_, fun h => ?_⟩, ⟨fun h => ?_, fun h => ?_⟩⟩
  · have hmsb := len_decomposeTriple_msb rbid len offset
    rw [h] at hmsb
    have hlow : len.msb = false := by grind
    rw [msb_eq_decide, decide_eq_false_iff_not] at hlow
    omega
  · refine decomposeTriple_composeTriple rbid ?_ ?_
    · rw [toNat_setWidth]
      omega
    · rw [toNat_setWidth]
      omega
  · rw [or_iff_not_imp_left, Bool.not_eq_false]
    intro htop
    ext i hi
    have hbit := getLsbD_composeTriple_decomposeTriple val (show i + 32 < 64 by omega)
    rw [h, htop] at hbit
    rw [getElem_allOnes]
    grind
  · refine eq_of_getLsbD_eq fun i hi => ?_
    rw [getLsbD_composeTriple_decomposeTriple val hi]
    rcases h with htop | hones
    · rw [htop, Bool.and_false, Bool.or_false]
    · by_cases hi32 : 32 ≤ i
      · have hbit : ((val >>> 32).truncate 32).getLsbD (i - 32) = true := by
          rw [hones, getLsbD_allOnes]
          exact decide_eq_true (by omega)
        grind
      · grind

/-- A length of 2048 LBs comes back negative, and the number it was packed into is not what its parts pack to. -/
theorem triple_len_comes_back_negative :
    decomposeTriple (composeTriple 5 2048 7) = ⟨5, -2048, 7⟩ ∧
    composeTriple 5 (-2048) 7 ≠ composeTriple 5 2048 7 := by
  decide

end DiscoClient
