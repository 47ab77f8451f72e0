import DiscoClient.IoManager.UserCommitStep

namespace DiscoClient.UserCommitState
variable {rqs : Nat → BlkRq} {off : Nat} {s : UserCommitState}

def FailsAtStart (s : UserCommitState) : UserCommitEvent → Prop
  | .submit base _ ok => ok = false → base = s.pos
  | _ => True

instance (s : UserCommitState) : ∀ e, Decidable (s.FailsAtStart e)
  | .submit .. => inferInstanceAs (Decidable (_ → _))
  | .hold .. => isTrue trivial
  | .complete .. => isTrue trivial

theorem step_inv {e : UserCommitEvent} (h : ∃ off, Inv rqs off s)
    (he : ((userCommitMachine rqs).restrict FailsAtStart).enabled s e) :
    ∃ off, Inv rqs off ((userCommitMachine rqs).step s e) := by
  obtain ⟨off, h⟩ := h
  cases e with
  | submit base stop ok =>
    obtain ⟨⟨hb, hst⟩, hstart⟩ := he
    cases ok with
    | true => exact h.submit hb hst
    | false =>
      obtain rfl := hstart rfl
      exact h.submit_fail hst
  | hold base stop => exact ⟨off, h.hold he.1.1 he.1.2.1 he.1.2.2.2.1⟩
  | complete k result => exact ⟨off, h.complete k result⟩

theorem Inv.group_refs (h : Inv rqs off s) {base stop j : Nat} (hb : base ≤ s.pos) (hst : s.pos < stop)
    (hj : s.pos ≤ j ∧ j < s.pos + (s.nextGroup rqs base stop).mergeLen) :
    0 < (s.withRefs base (s.nextGroup rqs base stop) j).numRefIor ∧
    (s.withRefs base (s.nextGroup rqs base stop) j).numRefIor ≤ 3 := by
  obtain ⟨next, off', hg⟩ := nextGroup_spec h hb hst
  by_cases hnew : s.pos < j ∨ (j = s.pos ∧ off = 0)
  · rw [hg.first_refs h hnew hj.2]
    split_ifs <;> omega
  · have hhead : j = s.pos ∧ 0 < off := by omega
    have hbegun := h.begun j (Or.inr hhead)
    have hle := h.openCnt_le j
    rw [if_pos hhead.1, Outstanding, if_pos (Nat.succ_pos _)] at hbegun
    rw [hg.begun_eq h (Or.inr hhead), hbegun]
    exact ⟨Nat.succ_pos _, Nat.succ_le_succ hle⟩

/-- The failure path takes one reference from each block request of the group it is
called for, and from no other, exactly when that group starts the array. -/
theorem Inv.fail_refs_iff (h : Inv rqs off s) {base stop : Nat} (hb : base ≤ s.pos) (hst : s.pos < stop) :
    (∀ j, ((s.submit rqs base stop false).rq j).numRefIor +
      (if s.pos ≤ j ∧ j < s.pos + (s.nextGroup rqs base stop).mergeLen then 1 else 0) =
      (s.withRefs base (s.nextGroup rqs base stop) j).numRefIor) ↔ base = s.pos := by
  obtain ⟨next, off', hg⟩ := nextGroup_spec h hb hst
  have hlen := hg.len_pos
  have hrq (j : Nat) : (s.submit rqs base stop false).rq j =
      if s.pos ≤ j ∧ j < base + (s.nextGroup rqs base stop).mergeLen then
        failFreeRq (s.withRefs base (s.nextGroup rqs base stop) j)
      else s.withRefs base (s.nextGroup rqs base stop) j := by
    have hpos : base + (s.pos - base) = s.pos := by omega
    simp only [UserCommitState.submit, Bool.false_eq_true, if_false, initIorFailFreeAllRq, forRqs_apply, hpos]
  constructor
  · intro hall
    by_contra hne
    -- the last block request of the group is not reached by the loop
    have hlast := hall (s.pos + (s.nextGroup rqs base stop).mergeLen - 1)
    rw [hrq, if_neg (by omega), if_pos (by omega)] at hlast
    omega
  · rintro rfl j
    rw [hrq]
    by_cases hj : s.pos ≤ j ∧ j < s.pos + (s.nextGroup rqs s.pos stop).mergeLen
    · obtain ⟨hpos, hle⟩ := h.group_refs hb hst hj
      rw [if_pos hj, if_pos hj]
      obtain ⟨o, ho⟩ : ∃ o, (s.withRefs s.pos (s.nextGroup rqs s.pos stop) j).numRefIor = o + 1 :=
        Nat.exists_eq_succ_of_ne_zero (Nat.ne_of_gt hpos)
      have hdec : (failFreeRq (s.withRefs s.pos (s.nextGroup rqs s.pos stop) j)).numRefIor = o := by
        rw [ho] at hle
        simp only [failFreeRq, ho, atomicDec_succ (show o < 2^32 by omega)]
        split_ifs <;> rfl
      rw [hdec, ho]
    · rw [if_neg hj, if_neg hj, Nat.add_zero]

/-- In every run whose failing groups start their arrays: a block request all of whose groups have been
built is told once, when every IO request that holds it has ended, whether all succeeded; one with sectors
to come has been told nothing. A failing group takes its own references, and no others, exactly when it
starts its array. -/
theorem block_requests_committed_once (rqs : Nat → BlkRq) (es : List UserCommitEvent)
    (h : ((userCommitMachine rqs).restrict FailsAtStart).Legal (init rqs) es) :
    let s := (userCommitMachine rqs).exec (init rqs) es
    (∀ j, j < s.pos → (∃ io ∈ s.ios, io.contains j = true) ∧
      (s.rq j).commits = if s.openCnt j = 0 then [decide (s.failCnt j = 0)] else []) ∧
    (∀ j, s.pos ≤ j → (s.rq j).commits = []) ∧
    ∀ base stop, (userCommitMachine rqs).enabled s (.submit base stop false) →
      ((∀ j, ((s.submit rqs base stop false).rq j).numRefIor +
        (if s.pos ≤ j ∧ j < s.pos + (s.nextGroup rqs base stop).mergeLen then 1 else 0) =
        (s.withRefs base (s.nextGroup rqs base stop) j).numRefIor) ↔ base = s.pos) := by
  obtain ⟨off, hinv⟩ : ∃ off, Inv rqs off ((userCommitMachine rqs).exec (init rqs) es) :=
    GuardedMachine.exec_invariant ⟨0, Inv.init⟩ (fun t e ht he => step_inv ht he) h
  intro s
  change Inv rqs off s at hinv
  clear_value s
  refine ⟨fun j hj => ⟨List.countP_pos_iff.mp (hinv.used j hj), ?_⟩, fun j hj => ?_,
    fun base stop hen => hinv.fail_refs_iff hen.1 hen.2⟩
  · have hb := hinv.begun j (Or.inl hj)
    rw [if_neg (Nat.ne_of_lt hj), Nat.add_zero, Outstanding] at hb
    by_cases ho : s.openCnt j = 0
    · rw [if_neg (by omega)] at hb
      rw [if_pos ho, hb]
    · rw [if_pos (by omega)] at hb
      rw [if_neg ho, hb]
  · by_cases hhead : j = s.pos ∧ 0 < off
    · have hb := hinv.begun j (Or.inr hhead)
      rw [if_pos hhead.1, Outstanding, if_pos (Nat.succ_pos _)] at hb
      rw [hb]
    · exact (hinv.fresh j (by omega)).2.2

def sparseReads (j : Nat) : BlkRq :=
  ⟨(j * 16) % 2^64, 8, .read, Nat.mod_lt _ (by decide), by decide, by decide⟩

theorem block_requests_committed_once_one_failed :
    ((userCommitMachine sparseReads).restrict FailsAtStart).Legal (init sparseReads)
      [.submit 0 2 true, .submit 1 2 false, .complete 0 true] ∧
    ∀ j, j < 2 → (((userCommitMachine sparseReads).exec (init sparseReads)
      [.submit 0 2 true, .submit 1 2 false, .complete 0 true]).rq j).commits = [decide (j = 0)] := by
  have hl : ((userCommitMachine sparseReads).restrict FailsAtStart).Legal (init sparseReads)
      [.submit 0 2 true, .submit 1 2 false, .complete 0 true] := by decide
  obtain ⟨hdone, -⟩ := block_requests_committed_once sparseReads _ hl
  refine ⟨hl, fun j hj => ?_⟩
  rw [(hdone j hj).2]
  have hcases : j = 0 ∨ j = 1 := by omega
  rcases hcases with rfl | rfl <;> decide

/-- Two reads in one array: the second group fails, the loop over it is empty, and the
block request is never committed although its only IO request has failed. -/
theorem failed_group_keeps_reference :
    ¬∀ (rqs : Nat → BlkRq) (es : List UserCommitEvent), (userCommitMachine rqs).Legal (init rqs) es →
      ∀ j, j < ((userCommitMachine rqs).exec (init rqs) es).pos →
        ((userCommitMachine rqs).exec (init rqs) es).openCnt j = 0 →
        (((userCommitMachine rqs).exec (init rqs) es).rq j).commits.length = 1 := by
  intro hall
  have hlegal : (userCommitMachine sparseReads).Legal (init sparseReads)
      [.submit 0 2 true, .submit 0 2 false] := by
    simp only [GuardedMachine.legal_cons, GuardedMachine.legal_nil, userCommitMachine, and_true]
    decide
  exact absurd (hall sparseReads _ hlegal 1 (by decide) (by decide)) (by decide)

end DiscoClient.UserCommitState
