import DiscoClient.Common.SysDef
import DiscoClient.Metadata.MdQuery

namespace DiscoClient
open List

def rbidRun (rbid offset : BitVec 32) (n : Nat) : List (BitVec 32 × BitVec 32) :=
  (List.range n).map fun k => (rbid, offset + BitVec.ofNat 32 k)

def lbLen (val : BitVec 64) : Nat := (decomposeTriple val).len.toNat

/-- RBID and offset of every LB that triplets name, in order. -/
def lbLocs (vals : List (BitVec 64)) : List (BitVec 32 × BitVec 32) :=
  vals.flatMap fun val => rbidRun (decomposeTriple val).rbid (decomposeTriple val).offset (lbLen val)

def lbCount (vals : List (BitVec 64)) : Nat := (vals.map lbLen).sum

def Fits (val : BitVec 64) : Prop := (decomposeTriple val).offset.toNat + lbLen val ≤ 2 ^ 20

section
variable {rbid offset : BitVec 32} {vals : List (BitVec 64)} {val : BitVec 64} {n m i : Nat}

theorem length_rbidRun : (rbidRun rbid offset n).length = n := by
  rw [rbidRun, length_map, length_range]

theorem getElem?_rbidRun (hi : i < n) : (rbidRun rbid offset n)[i]? = some (rbid, offset + BitVec.ofNat 32 i) := by
  rw [rbidRun, List.getElem?_map, List.getElem?_range hi]
  rfl

theorem rbidRun_add (n m : Nat) :
    rbidRun rbid offset (n + m) = rbidRun rbid offset n ++ rbidRun rbid (offset + BitVec.ofNat 32 n) m := by
  rw [rbidRun, rbidRun, rbidRun, range_add, map_append, map_map]
  refine congrArg _ (map_congr_left fun k _ => ?_)
  rw [Function.comp_apply, BitVec.ofNat_add, BitVec.add_assoc]

theorem lbLocs_cons : lbLocs (val :: vals) =
    rbidRun (decomposeTriple val).rbid (decomposeTriple val).offset (lbLen val) ++ lbLocs vals :=
  flatMap_cons

theorem lbCount_cons : lbCount (val :: vals) = lbLen val + lbCount vals := sum_cons

theorem length_lbLocs : (lbLocs vals).length = lbCount vals := by
  induction vals with
  | nil => rfl
  | cons val vals ih => rw [lbLocs_cons, length_append, length_rbidRun, ih, lbCount_cons]

private theorem slt_of_small {x y : BitVec 32} (hx : x.toNat < 2 ^ 31) (hy : y.toNat < 2 ^ 31) :
    x.slt y = decide (x.toNat < y.toNat) := by
  rw [BitVec.slt, BitVec.toInt_eq_toNat_of_lt (by omega), BitVec.toInt_eq_toNat_of_lt (by omega)]
  exact decide_eq_decide.mpr Int.ofNat_lt

/-- The loop of _split_metadata finds the location of an LB. -/
theorem splitTriplet_eq (prev i : Nat) (hprev : prev ≤ i) (hi : i < 2 ^ 31) (hsum : prev + lbCount vals < 2 ^ 31) :
    splitTriplet (BitVec.ofNat 32 i) (BitVec.ofNat 32 prev) vals = (lbLocs vals)[i - prev]?.getD (0, 0) := by
  induction vals generalizing prev with
  | nil => rfl
  | cons val vals ih =>
    rw [lbCount_cons] at hsum
    have hadd : ((decomposeTriple val).len + BitVec.ofNat 32 prev).toNat = lbLen val + prev := by
      rw [BitVec.toNat_add, BitVec.toNat_ofNat, Nat.add_mod_mod]
      exact Nat.mod_eq_of_lt (by rw [lbLen] at hsum; omega)
    have hnat : (BitVec.ofNat 32 i).toNat = i := Nat.mod_eq_of_lt (by omega)
    have hcmp : (BitVec.ofNat 32 i).slt ((decomposeTriple val).len + BitVec.ofNat 32 prev) =
        decide (i < lbLen val + prev) := by
      rw [slt_of_small (by rw [hnat]; exact hi) (by rw [hadd]; omega), hnat, hadd]
    rw [lbLocs_cons, splitTriplet]
    simp only [hcmp, decide_eq_true_eq]
    split_ifs with hin
    · rw [List.getElem?_append_left (by rw [length_rbidRun]; omega), getElem?_rbidRun (by omega)]
      refine Prod.ext rfl (BitVec.eq_of_toNat_eq ?_)
      change ((decomposeTriple val).offset + BitVec.ofNat 32 i - BitVec.ofNat 32 prev).toNat =
        ((decomposeTriple val).offset + BitVec.ofNat 32 (i - prev)).toNat
      simp only [BitVec.toNat_sub, BitVec.toNat_add, BitVec.toNat_ofNat]
      omega
    · have hnext : BitVec.ofNat 32 prev + (decomposeTriple val).len = BitVec.ofNat 32 (prev + lbLen val) := by
        rw [BitVec.ofNat_add, lbLen, BitVec.ofNat_toNat, BitVec.setWidth_eq]
      rw [hnext, ih _ (by omega) (by omega), List.getElem?_append_right (by rw [length_rbidRun]; omega), length_rbidRun]
      exact congrArg (fun j => (lbLocs vals)[j]?.getD (0, 0)) (by omega)

theorem contTripletLoop_spec (rbid offset : BitVec 32) (vals : List (BitVec 64)) (retLen : Nat) (accumLen : BitVec 32)
    (hsum : accumLen.toNat + lbCount vals < 2 ^ 11) :
    ∃ k, (contTripletLoop rbid offset vals retLen accumLen).1 = retLen + k ∧
      (contTripletLoop rbid offset vals retLen accumLen).2.toNat = accumLen.toNat + lbCount (vals.take k) ∧
      rbidRun rbid offset (contTripletLoop rbid offset vals retLen accumLen).2.toNat =
        rbidRun rbid offset accumLen.toNat ++ lbLocs (vals.take k) := by
  induction vals generalizing retLen accumLen with
  | nil => exact ⟨0, rfl, rfl, (append_nil _).symm⟩
  | cons val vals ih =>
    rw [contTripletLoop]
    split_ifs with hrbid hoff
    · exact ⟨0, rfl, rfl, (append_nil _).symm⟩
    · exact ⟨0, rfl, rfl, (append_nil _).symm⟩
    · rw [lbCount_cons] at hsum
      have hadd : (accumLen + (decomposeTriple val).len).toNat = accumLen.toNat + lbLen val := by
        rw [BitVec.toNat_add]
        exact Nat.mod_eq_of_lt (by rw [lbLen] at hsum; omega)
      obtain ⟨k, hret, haccum, hrun⟩ := ih (retLen + 1) (accumLen + (decomposeTriple val).len) (by omega)
      refine ⟨k + 1, by omega, ?_, ?_⟩
      · rw [haccum, hadd, take_succ_cons, lbCount_cons, Nat.add_assoc]
      · rw [hrun, hadd, rbidRun_add, take_succ_cons, lbLocs_cons, append_assoc, not_not.mp hrbid,
          ← not_not.mp hoff, BitVec.ofNat_toNat, BitVec.setWidth_eq]

theorem offset_lt (val : BitVec 64) : (decomposeTriple val).offset.toNat < 2 ^ 20 := by
  have hle : (val &&& 0xfffff#64).toNat ≤ 2 ^ 20 - 1 := by
    rw [BitVec.toNat_and]
    exact Nat.and_le_right
  change (BitVec.setWidth 32 (val &&& 0xfffff#64)).toNat < 2 ^ 20
  rw [BitVec.toNat_setWidth]
  omega

theorem lbLocs_append (vals vals' : List (BitVec 64)) : lbLocs (vals ++ vals') = lbLocs vals ++ lbLocs vals' :=
  flatMap_append

theorem lbCount_append (vals vals' : List (BitVec 64)) : lbCount (vals ++ vals') = lbCount vals + lbCount vals' := by
  rw [lbCount, map_append, sum_append]
  rfl

theorem lbCount_take_le (vals : List (BitVec 64)) (k : Nat) : lbCount (vals.take k) ≤ lbCount vals := by
  rw [← take_append_drop k vals, lbCount_append, take_append_drop]
  exact Nat.le_add_right _ _

theorem lbLocs_composeTriple (rbid : BitVec 32) (hlen : n < 2 ^ 11) (hoff : offset.toNat < 2 ^ 20) :
    lbLocs [composeTriple rbid (BitVec.ofNat 32 n) offset] = rbidRun rbid offset n := by
  have hnat : (BitVec.ofNat 32 n).toNat = n := Nat.mod_eq_of_lt (by omega)
  rw [lbLocs_cons, lbLen, decomposeTriple_composeTriple rbid (by omega) hoff, hnat]
  exact append_nil _

theorem getContTripletLength_spec (hsum : lbCount (val :: vals) < 2 ^ 11) :
    ∃ k, (getContTripletLength val vals).1 = 1 + k ∧ (0 < k →
      lbLocs [composeTriple (decomposeTriple val).rbid (getContTripletLength val vals).2 (decomposeTriple val).offset] =
        lbLocs (val :: vals.take k)) := by
  rw [getContTripletLength]
  split_ifs with hnil
  · exact ⟨0, rfl, fun h => absurd h (Nat.lt_irrefl 0)⟩
  · rw [lbCount_cons, lbLen] at hsum
    obtain ⟨k, hret, haccum, hrun⟩ := contTripletLoop_spec (decomposeTriple val).rbid
      (decomposeTriple val).offset vals 1 (decomposeTriple val).len hsum
    generalize contTripletLoop (decomposeTriple val).rbid (decomposeTriple val).offset vals 1 (decomposeTriple val).len = r
      at hret haccum hrun ⊢
    refine ⟨k, hret, fun _ => ?_⟩
    have hle := lbCount_take_le vals k
    have hcompose := lbLocs_composeTriple (decomposeTriple val).rbid (n := r.2.toNat) (by omega) (offset_lt val)
    rw [BitVec.ofNat_toNat, BitVec.setWidth_eq] at hcompose
    rw [hcompose, hrun, lbLocs_cons]
    rfl

theorem lbLocs_mergeTripletLoop (fuel : Nat) (vals : List (BitVec 64)) (hfuel : vals.length ≤ fuel)
    (hsum : lbCount vals < 2 ^ 11) : lbLocs (mergeTripletLoop fuel vals) = lbLocs vals := by
  induction fuel generalizing vals with
  | zero => rw [length_eq_zero_iff.mp (Nat.le_zero.mp hfuel), mergeTripletLoop]
  | succ fuel ih =>
    cases vals with
    | nil => rfl
    | cons val vals =>
      obtain ⟨k, hret, hmerged⟩ := getContTripletLength_spec hsum
      rw [mergeTripletLoop]
      simp only [hret]
      rw [Nat.add_comm 1 k, drop_succ_cons]
      have hsplit : lbCount vals = lbCount (vals.take k) + lbCount (vals.drop k) := by
        rw [← lbCount_append, take_append_drop]
      rw [lbCount_cons] at hsum
      rw [length_cons] at hfuel
      have hrest := ih (vals.drop k) (by rw [length_drop]; omega) (by omega)
      rw [← singleton_append, lbLocs_append, hrest]
      have hall : lbLocs (val :: vals) = lbLocs (val :: vals.take k) ++ lbLocs (vals.drop k) := by
        rw [← lbLocs_append, cons_append, take_append_drop]
      rw [hall]
      split_ifs with hlong
      · rw [hmerged (by omega)]
      · obtain rfl : k = 0 := by omega
        rfl

end
end DiscoClient
