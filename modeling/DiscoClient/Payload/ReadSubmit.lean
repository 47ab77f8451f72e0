import DiscoClient.Payload.ReadAck

namespace DiscoClient
open List

namespace MdItem

private theorem countP_lt_length {α : Type*} {l : List α} {f g : α → Bool} (hdisj : ∀ x, f x = true → g x = false)
    {x : α} (hx : x ∈ l) (hf : f x = false) (hg : g x = false) : l.countP f + l.countP g < l.length := by
  have hle (l : List α) : l.countP f + l.countP g ≤ l.length := by
    induction l with
    | nil => exact Nat.le_refl 0
    | cons y l ih =>
      have hy := hdisj y
      rw [countP_cons, countP_cons, length_cons]
      cases hfy : f y with
      | false => cases g y <;> simp <;> omega
      | true =>
        rw [hy hfy]
        simp
        omega
  obtain ⟨l₁, l₂, rfl⟩ := append_of_mem hx
  have h₁ := hle l₁
  have h₂ := hle l₂
  simp only [countP_append, countP_cons, hf, hg, length_append, length_cons,
    Bool.false_eq_true, if_false]
  omega

theorem checkCiUserStatus_wait {md : MdItem} {i : Nat} (hi : i < md.numDnLoc) (hinit : md.udataStatus i = .init)
    (hdata : ∀ r, md.udataStatus r ≠ .readOk) : md.checkCiUserStatus.1 = true := by
  have hcount : md.numStatus .mdErr + md.numStatus .diskFailure < md.numDnLoc := by
    have h := countP_lt_length (l := List.range md.numDnLoc) (f := fun i => decide (md.udataStatus i = .mdErr))
      (g := fun i => decide (md.udataStatus i = .diskFailure)) (fun x hx => by simp_all) (mem_range.mpr hi)
      (by simp [hinit]) (by simp [hinit])
    rwa [length_range] at h
  have hnone : ((List.range md.numDnLoc).any fun i => decide (md.udataStatus i = .readOk)) = false := by
    simp [hdata]
  rw [checkCiUserStatus, hnone, if_neg (by decide), dnReadAckCheckWait, if_neg (by omega), if_neg (by omega)]
  split_ifs
  · rfl
  · omega
  all_goals rfl

end MdItem

namespace PayloadReq
variable {p : PayloadReq}

structure SameReq (p t : PayloadReq) : Prop where
  mdItem : t.mdItem = p.mdItem
  trueMD : t.trueMD = p.trueMD
  stat : t.stat = p.stat
  calls : t.calls = p.calls
  freed : t.freed = p.freed

theorem submitDnUdReadReq_some {start i : Nat} (hnext : getNextDnIndex p.mdItem start = some i)
    (hi : i < p.mdItem.numDnLoc) (bk : Nat) (hbk : p.numDnUdReq = bk) (hlt : bk < p.mdItem.numDnLoc)
    (hmax : bk < maxNumReplica) :
    p.submitDnUdReadReq start =
      (({ p with numDnUdReq := p.numDnUdReq + 1, lastReadReplicaIdx := i, lastReadDnBkIdx := bk } :
        PayloadReq).submitDnUDataReadRequest i bk, true) := by
  have h1 : ¬ ((bk : Int) ≥ maxNumReplica) := by omega
  have h2 : ¬ ((bk : Int) ≥ p.mdItem.numDnLoc ∨ (bk : Int) < 0) := by omega
  simp only [submitDnUdReadReq, allocBkDnUdReq, genSubmitDnReadReq, hnext, hbk, if_neg h1, if_neg h2,
    if_neg (Nat.not_le.mpr hi), Int.toNat_natCast]

theorem submitDnUdReadReq_cases (p : PayloadReq) (start : Nat) :
    p.submitDnUdReadReq start = ({ p with numDnUdReq := p.numDnUdReq + 1 }, false) ∨
    ∃ i, getNextDnIndex p.mdItem start = some i ∧ i < p.mdItem.numDnLoc ∧ SameReq p (p.submitDnUdReadReq start).1 ∧
      (p.submitDnUdReadReq start).1.tried = p.tried ++ [i] := by
  unfold submitDnUdReadReq genSubmitDnReadReq
  dsimp only [allocBkDnUdReq]
  cases hnext : getNextDnIndex p.mdItem start with
  | none => exact .inl rfl
  | some i =>
    generalize (if p.numDnUdReq ≥ maxNumReplica then (-1 : Int) else p.numDnUdReq) = bk
    dsimp only
    split_ifs with h1 h2
    · exact .inl rfl
    · exact .inl rfl
    · exact .inr ⟨i, rfl, Nat.lt_of_not_le h1, ⟨rfl, rfl, rfl, rfl, rfl⟩, rfl⟩

theorem getNextDnIndex_init {md : MdItem} {start i : Nat} (h : getNextDnIndex md start = some i) :
    md.udataStatus i = .init := by
  simpa using List.find?_some h

/-- The commit after a submission is out of reach: the replica just asked has not answered. -/
theorem readNextDn_eq (hdata : ∀ r, p.mdItem.udataStatus r ≠ .readOk) (bk loc : Nat) :
    p.readNextDn bk loc = ((p.submitDnUdReadReq loc).1, false) := by
  unfold readNextDn
  rcases submitDnUdReadReq_cases p loc with h | ⟨i, hi, hlt, hsame, -⟩
  · rw [h]
    rfl
  · obtain ⟨r, hr⟩ : ∃ r, r = p.submitDnUdReadReq loc := ⟨_, rfl⟩
    rw [← hr] at hsame ⊢
    have hwait : r.1.mdItem.checkCiUserStatus.1 = true := by
      rw [hsame.mdItem]
      exact MdItem.checkCiUserStatus_wait hlt (getNextDnIndex_init hi) hdata
    dsimp only
    rw [hwait]
    cases r.2 <;> rfl

def noted (p : PayloadReq) (e : ReadResult) : PayloadReq :=
  { p with
    mdItem := p.mdItem.updateDnUDataStat e.req.dnLocIdx e.result
    arrDnUdReq := if e.result = .readNa then p.arrDnUdReq else Function.update p.arrDnUdReq e.req.bkIdx none
    numDnUdReq := if e.result = .readNa then p.numDnUdReq else p.numDnUdReq - 1
    numReadFailDn := if e.result = .diskFailure then p.numReadFailDn + 1 else p.numReadFailDn
    dnReqs := if e.result = .readNa then p.dnReqs else p.dnReqs.erase e.req }

theorem updateDnUDataStat_noData {md : MdItem} {e : ReadResult} (hfail : e.result.isReadFailure = true)
    (hdata : ∀ r, md.udataStatus r ≠ .readOk) (r : Nat) :
    (md.updateDnUDataStat e.req.dnLocIdx e.result).udataStatus r ≠ .readOk := by
  change Function.update md.udataStatus e.req.dnLocIdx e.result r ≠ .readOk
  by_cases hr : r = e.req.dnLocIdx
  · rw [hr, Function.update_self]
    intro he
    rw [he] at hfail
    cases hfail
  · rw [Function.update_of_ne hr]
    exact hdata r

theorem handleDnAckRead_eq {e : ReadResult} (htrue : p.trueMD = true) (hfail : e.result.isReadFailure = true)
    (hdata : ∀ r, p.mdItem.udataStatus r ≠ .readOk) :
    p.handleDnAckRead e.req e.result = ((p.noted e).submitDnUdReadReq e.req.dnLocIdx).1 := by
  have hdata' := updateDnUDataStat_noData hfail hdata
  obtain ⟨req, result⟩ := e
  cases result with
  | readNa =>
    simp only [handleDnAckRead, readDnEndfn, readDnBody, if_true, htrue, readDnTrueMDRep, Bool.false_eq_true, if_false, noted,
      reduceCtorEq]
  | mdErr =>
    simp only [handleDnAckRead, readDnEndfn, readDnBody, reduceCtorEq, htrue, if_true, if_false, readDnTrueMDRep, noted]
    rw [readNextDn_eq (by exact hdata')]
    rfl
  | diskFailure =>
    simp only [handleDnAckRead, readDnEndfn, readDnBody, reduceCtorEq, htrue, if_true, if_false, readDnTrueMDRep, noted]
    rw [readNextDn_eq (by exact hdata')]
    rfl
  | _ => cases hfail

end PayloadReq
end DiscoClient
