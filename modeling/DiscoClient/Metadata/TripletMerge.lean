import DiscoClient.Metadata.MdTriplets

namespace DiscoClient
open List

def storedTriplet (val : BitVec 64) (vals : List (BitVec 64)) : BitVec 64 :=
  if (getContTripletLength val vals).1 > 1 then
    composeTriple (decomposeTriple val).rbid (getContTripletLength val vals).2 (decomposeTriple val).offset
  else val

/-- The while loop of merge_lr_triplet on rbid_len_offset: the array, and store_index. -/
def mergeInPlaceLoop : Nat → List (BitVec 64) → Nat → Nat → List (BitVec 64) × Nat
  | 0, arr, _, storeIndex => (arr, storeIndex)
  | fuel + 1, arr, start, storeIndex =>
    match arr.drop start with
    | [] => (arr, storeIndex)
    | val :: vals =>
      mergeInPlaceLoop fuel (arr.set storeIndex (storedTriplet val vals)) (start + (getContTripletLength val vals).1)
        (storeIndex + 1)

/-- What is left of a data node's triplets: as many as num_phyLocs says. -/
def mergeInPlace (arr : List (BitVec 64)) : List (BitVec 64) :=
  match mergeInPlaceLoop arr.length arr 0 0 with
  | (arr, numPhyLocs) => arr.take numPhyLocs

/-- The body of the loop of merge_lr_triplet over the metadata items, on the arrays. -/
def mergeLrTripletInPlace (item : MdataItem) : MdataItem :=
  if item.valid then
    { item with udataDnLoc := item.udataDnLoc.map fun loc => { loc with rbidLenOffset := mergeInPlace loc.rbidLenOffset } }
  else item

def Mergeable (val next : BitVec 64) : Prop :=
  (decomposeTriple next).rbid = (decomposeTriple val).rbid ∧
    (decomposeTriple val).offset + (decomposeTriple val).len = (decomposeTriple next).offset

section
variable {val : BitVec 64} {vals arr : List (BitVec 64)} {fuel start storeIndex : Nat}

theorem contTripletLoop_fst_le (rbid offset : BitVec 32) (vals : List (BitVec 64)) (retLen : Nat) (accumLen : BitVec 32) :
    retLen ≤ (contTripletLoop rbid offset vals retLen accumLen).1 := by
  induction vals generalizing retLen accumLen with
  | nil => exact Nat.le_refl _
  | cons val vals ih =>
    rw [contTripletLoop]
    split_ifs
    · exact Nat.le_refl _
    · exact Nat.le_refl _
    · exact Nat.le_of_succ_le (ih (retLen + 1) _)

theorem getContTripletLength_pos (val : BitVec 64) (vals : List (BitVec 64)) : 1 ≤ (getContTripletLength val vals).1 := by
  rw [getContTripletLength]
  split_ifs
  · exact Nat.le_refl _
  · exact contTripletLoop_fst_le _ _ _ _ _

theorem mergeTripletLoop_cons (fuel : Nat) (val : BitVec 64) (vals : List (BitVec 64)) :
    mergeTripletLoop (fuel + 1) (val :: vals) =
      storedTriplet val vals :: mergeTripletLoop fuel ((val :: vals).drop (getContTripletLength val vals).1) := rfl

/-- What is stored lies before what is still to be read, so reading goes on in the triplets as they were. -/
theorem mergeInPlaceLoop_eq (hle : storeIndex ≤ start) :
    (mergeInPlaceLoop fuel arr start storeIndex).1.take (mergeInPlaceLoop fuel arr start storeIndex).2 =
      arr.take storeIndex ++ mergeTripletLoop fuel (arr.drop start) := by
  induction fuel generalizing arr start storeIndex with
  | zero => rw [mergeInPlaceLoop, mergeTripletLoop, append_nil]
  | succ fuel ih =>
    rw [mergeInPlaceLoop]
    cases hdrop : arr.drop start with
    | nil => exact (append_nil _).symm
    | cons val vals =>
      have hpos := getContTripletLength_pos val vals
      have hlt : start < arr.length := by
        by_contra hge
        rw [drop_eq_nil_of_le (by omega)] at hdrop
        cases hdrop
      have htake : (arr.set storeIndex (storedTriplet val vals)).take (storeIndex + 1) =
          arr.take storeIndex ++ [storedTriplet val vals] := by
        rw [take_add_one, take_set_of_le (Nat.le_refl _), List.getElem?_set_self (by omega)]
        rfl
      have hunread : (arr.set storeIndex (storedTriplet val vals)).drop (start + (getContTripletLength val vals).1) =
          (val :: vals).drop (getContTripletLength val vals).1 := by
        rw [drop_set_of_lt (by omega), ← hdrop, drop_drop]
      rw [ih (by omega), htake, hunread, mergeTripletLoop_cons, append_assoc, singleton_append]

theorem mergeInPlace_eq (arr : List (BitVec 64)) : mergeInPlace arr = mergeTripletLoop arr.length arr :=
  mergeInPlaceLoop_eq (Nat.le_refl 0)

theorem mergeLrTripletInPlace_eq (item : MdataItem) : mergeLrTripletInPlace item = mergeLrTriplet item := by
  simp only [mergeLrTripletInPlace, mergeLrTriplet, mergeInPlace_eq]

theorem contTripletLoop_stops (rbid offset : BitVec 32) (vals : List (BitVec 64)) (retLen : Nat) (accumLen : BitVec 32)
    {next : BitVec 64} {rest : List (BitVec 64)}
    (hnext : vals.drop ((contTripletLoop rbid offset vals retLen accumLen).1 - retLen) = next :: rest) :
    ¬((decomposeTriple next).rbid = rbid ∧
      offset + (contTripletLoop rbid offset vals retLen accumLen).2 = (decomposeTriple next).offset) := by
  induction vals generalizing retLen accumLen with
  | nil =>
    rw [drop_nil] at hnext
    cases hnext
  | cons val vals ih =>
    rw [contTripletLoop] at hnext ⊢
    split_ifs at hnext ⊢ with hrbid hoff
    · rw [Nat.sub_self, drop_zero] at hnext
      obtain ⟨rfl, rfl⟩ := List.cons.inj hnext
      exact fun h => hrbid h.1
    · rw [Nat.sub_self, drop_zero] at hnext
      obtain ⟨rfl, rfl⟩ := List.cons.inj hnext
      exact fun h => hoff h.2
    · have hle := contTripletLoop_fst_le rbid offset vals (retLen + 1) (accumLen + (decomposeTriple val).len)
      refine ih (retLen + 1) (accumLen + (decomposeTriple val).len) ?_
      rwa [show (contTripletLoop rbid offset vals (retLen + 1) (accumLen + (decomposeTriple val).len)).1 - retLen =
        ((contTripletLoop rbid offset vals (retLen + 1) (accumLen + (decomposeTriple val).len)).1 - (retLen + 1)) + 1
        by omega, drop_succ_cons] at hnext

theorem decomposeTriple_storedTriplet (hsum : lbCount (val :: vals) < 2 ^ 11) (hvals : vals ≠ []) :
    decomposeTriple (storedTriplet val vals) =
      ⟨(decomposeTriple val).rbid, (getContTripletLength val vals).2, (decomposeTriple val).offset⟩ := by
  rw [lbCount_cons, lbLen] at hsum
  rw [storedTriplet, getContTripletLength, if_neg hvals]
  obtain ⟨k, hret, haccum, -⟩ := contTripletLoop_spec (decomposeTriple val).rbid (decomposeTriple val).offset vals 1
    (decomposeTriple val).len hsum
  generalize contTripletLoop (decomposeTriple val).rbid (decomposeTriple val).offset vals 1 (decomposeTriple val).len = r
    at hret haccum ⊢
  have hle := lbCount_take_le vals k
  split_ifs with hlong
  · exact decomposeTriple_composeTriple _ (by omega) (offset_lt val)
  · obtain rfl : k = 0 := by omega
    have hlen : r.2 = (decomposeTriple val).len := BitVec.eq_of_toNat_eq (by rw [haccum]; rfl)
    rw [hlen]

theorem storedTriplet_fields (hsum : lbCount (val :: vals) < 2 ^ 11) :
    (decomposeTriple (storedTriplet val vals)).rbid = (decomposeTriple val).rbid ∧
      (decomposeTriple (storedTriplet val vals)).offset = (decomposeTriple val).offset := by
  by_cases hvals : vals = []
  · subst hvals
    exact ⟨rfl, rfl⟩
  · rw [decomposeTriple_storedTriplet hsum hvals]
    exact ⟨rfl, rfl⟩

/-- The triplet that the while loop comes to next does not go on where the stored one ends. -/
theorem not_mergeable_next (hsum : lbCount (val :: vals) < 2 ^ 11) {next : BitVec 64} {rest : List (BitVec 64)}
    (hnext : (val :: vals).drop (getContTripletLength val vals).1 = next :: rest) :
    ¬ Mergeable (storedTriplet val vals) next := by
  have hvals : vals ≠ [] := by
    rintro rfl
    cases hnext
  rw [Mergeable, decomposeTriple_storedTriplet hsum hvals]
  have hpos := getContTripletLength_pos val vals
  rw [show (getContTripletLength val vals).1 = ((getContTripletLength val vals).1 - 1) + 1 by omega,
    drop_succ_cons] at hnext
  rw [getContTripletLength, if_neg hvals] at hnext ⊢
  exact contTripletLoop_stops _ _ _ _ _ hnext

theorem isChain_mergeTripletLoop (fuel : Nat) (vals : List (BitVec 64)) (hsum : lbCount vals < 2 ^ 11) :
    (mergeTripletLoop fuel vals).IsChain fun val next => ¬ Mergeable val next := by
  induction fuel generalizing vals with
  | zero => exact List.IsChain.nil
  | succ fuel ih =>
    cases vals with
    | nil => exact List.IsChain.nil
    | cons val vals =>
      have hrest : lbCount ((val :: vals).drop (getContTripletLength val vals).1) < 2 ^ 11 := by
        rw [← take_append_drop (getContTripletLength val vals).1 (val :: vals), lbCount_append] at hsum
        omega
      rw [mergeTripletLoop_cons]
      have hchain := ih _ hrest
      -- the next stored triplet starts where the next one to read does
      cases hdrop : (val :: vals).drop (getContTripletLength val vals).1 with
      | nil =>
        cases fuel with
        | zero => exact List.IsChain.singleton _
        | succ fuel => exact List.IsChain.singleton _
      | cons next rest =>
        cases fuel with
        | zero => exact List.IsChain.singleton _
        | succ fuel =>
          rw [hdrop] at hrest hchain
          rw [mergeTripletLoop_cons] at hchain ⊢
          obtain ⟨hrbid, hoff⟩ := storedTriplet_fields hrest
          refine isChain_cons_cons.mpr ⟨?_, hchain⟩
          rw [Mergeable, hrbid, hoff]
          exact not_mergeable_next hsum hdrop

end

/-- merge_lr_triplet keeps what LBs a data node's triplets name, and leaves no two neighbours to merge. -/
theorem merge_lr_triplet_exact (item : MdataItem) (hvalid : item.valid = true) (j : Nat) (loc : MdDnLoc)
    (hloc : item.udataDnLoc[j]? = some loc) (hsum : lbCount loc.rbidLenOffset ≤ 33) :
    ∃ vals, (mergeLrTripletInPlace item).udataDnLoc[j]? = some { loc with rbidLenOffset := vals } ∧
      lbLocs vals = lbLocs loc.rbidLenOffset ∧ vals.IsChain fun val next => ¬ Mergeable val next := by
  refine ⟨mergeInPlace loc.rbidLenOffset, ?_, ?_, ?_⟩
  · rw [mergeLrTripletInPlace, if_pos hvalid, List.getElem?_map, hloc]
    rfl
  · rw [mergeInPlace_eq, lbLocs_mergeTripletLoop _ _ (Nat.le_refl _) (by omega)]
  · rw [mergeInPlace_eq]
    exact isChain_mergeTripletLoop _ _ (by omega)

def itemToMerge : MdataItem := ⟨true, [1, 2, 3], [⟨1, 2, [composeTriple 3 1 4, composeTriple 3 1 5, composeTriple 7 1 6]⟩]⟩

theorem itemToMerge_lbCount : lbCount [composeTriple 3 1 4, composeTriple 3 1 5, composeTriple 7 1 6] = 3 := by
  have hlen (rbid offset : BitVec 32) (hoff : offset.toNat < 2 ^ 20) : lbLen (composeTriple rbid 1 offset) = 1 := by
    rw [lbLen, decomposeTriple_composeTriple rbid (by decide) hoff]
    rfl
  rw [lbCount, map_cons, map_cons, map_cons, hlen 3 4 (by decide), hlen 3 5 (by decide), hlen 7 6 (by decide)]
  rfl

theorem merge_lr_triplet_three : ∃ vals,
    (mergeLrTripletInPlace itemToMerge).udataDnLoc[0]? = some ⟨1, 2, vals⟩ ∧
      lbLocs vals = lbLocs [composeTriple 3 1 4, composeTriple 3 1 5, composeTriple 7 1 6] ∧
      vals.IsChain fun val next => ¬ Mergeable val next :=
  merge_lr_triplet_exact itemToMerge rfl 0 ⟨1, 2, [composeTriple 3 1 4, composeTriple 3 1 5, composeTriple 7 1 6]⟩ rfl
    (by rw [itemToMerge_lbCount]; decide)

end DiscoClient
