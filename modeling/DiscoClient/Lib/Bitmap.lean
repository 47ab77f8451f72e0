import Mathlib.Data.List.Basic

/-! Bitmaps that are stored in bytes, the least significant bit first. -/

namespace Bitmap
variable {mem : List (BitVec 8)} {i j : Nat}

def bit (mem : List (BitVec 8)) (i : Nat) : Bool := (mem[i / 8]?.getD 0#8).getLsbD (i % 8)

def putBit (data : BitVec 8) (i : Nat) (v : Bool) : BitVec 8 := if v then data ||| 1#8 <<< i else data &&& ~~~(1#8 <<< i)

theorem getLsbD_putBit (data : BitVec 8) (v : Bool) (hj : j < 8) :
    (putBit data i v).getLsbD j = if i = j then v else data.getLsbD j := by
  have hone : (1#8 <<< i).getLsbD j = decide (i = j) := by
    rw [BitVec.getLsbD_shiftLeft, BitVec.getLsbD_one]
    simp only [hj, decide_true, Bool.true_and]
    grind
  cases v with
  | true =>
    rw [putBit, if_pos rfl, BitVec.getLsbD_or, hone]
    by_cases h : i = j <;> simp [h]
  | false =>
    rw [putBit, if_neg Bool.false_ne_true, BitVec.getLsbD_and, BitVec.getLsbD_not, hone]
    by_cases h : i = j <;> simp [h, hj]

theorem bit_set (v : Bool) {data : BitVec 8} (hdata : mem[i / 8]? = some data) :
    bit (mem.set (i / 8) (putBit data (i % 8) v)) j = if i = j then v else bit mem j := by
  have hlt := (List.getElem?_eq_some_iff.mp hdata).1
  rw [bit, List.getElem?_set]
  by_cases hbyte : i / 8 = j / 8
  · rw [if_pos hbyte, if_pos hlt, Option.getD_some, getLsbD_putBit _ _ (Nat.mod_lt _ (by decide)),
      bit, ← hbyte, hdata, Option.getD_some]
    exact if_congr (by omega) rfl rfl
  · rw [if_neg hbyte, if_neg fun h => hbyte (congrArg (· / 8) h)]
    rfl

theorem set_or_set (p q : Prop) [Decidable p] [Decidable q] :
    (if p then some true else none).or (if q then some true else none) = if q ∨ p then some true else none := by
  by_cases hp : p <;> by_cases hq : q <;> simp [hp, hq]

/-- One bitmap is another one with writes done to it, given as the value each index gets, if any. -/
structure Wrote (mem : List (BitVec 8)) (f : Nat → Option Bool) (mem' : List (BitVec 8)) : Prop where
  length_eq : mem'.length = mem.length
  bit_eq : ∀ j, bit mem' j = (f j).getD (bit mem j)

namespace Wrote
variable {mem' mem'' : List (BitVec 8)} {f g : Nat → Option Bool}

theorem refl (mem : List (BitVec 8)) : Wrote mem (fun _ => none) mem := ⟨rfl, fun _ => rfl⟩

theorem congr (h : Wrote mem f mem') (hfg : ∀ j, f j = g j) : Wrote mem g mem' :=
  ⟨h.length_eq, fun j => hfg j ▸ h.bit_eq j⟩

theorem trans (h : Wrote mem f mem') (h' : Wrote mem' g mem'') : Wrote mem (fun j => (g j).or (f j)) mem'' := by
  refine ⟨h'.length_eq.trans h.length_eq, fun j => ?_⟩
  rw [h'.bit_eq, h.bit_eq]
  cases g j <;> rfl

theorem set (v : Bool) {data : BitVec 8} (hdata : mem[i / 8]? = some data) :
    Wrote mem (fun j => if i = j then some v else none) (mem.set (i / 8) (putBit data (i % 8) v)) := by
  refine ⟨List.length_set, fun j => ?_⟩
  rw [bit_set v hdata]
  split <;> rfl

end Wrote
end Bitmap
