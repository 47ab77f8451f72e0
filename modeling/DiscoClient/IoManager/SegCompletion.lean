import DiscoClient.IoManager.SegSteps

namespace DiscoClient
open List

/-- Every read of a partial write succeeds. -/
def SegReq.ReadPhaseSafe (s : SegReq) : SegEvent → Prop
  | .readEnd _ ioRes _ => s.dirTrue = .write → ioRes = true
  | _ => True

namespace SegReq
variable {s : SegReq}

private theorem reading_readEnd (h : Delivering 0 s) (hlen : 0 < s.lbLen) {k : Nat} {ioRes : Bool} {numFailDn : Nat}
    (hk : k < s.reads.length) (hsafe : s.ReadPhaseSafe (.readEnd k ioRes numFailDn)) :
    (segMachine.step s (.readEnd k ioRes numFailDn)).Phase := by
  have htake := h.take hk
  by_cases hu : ({ s with reads := s.reads.eraseIdx k } : SegReq).undelivered = []
  · refine htake.last hlen hu fun hd => ⟨hsafe hd, fun _ => ?_⟩
    -- the LB is that of a valid item, and the loop does not run
    have hend : s.invalEnd = 0 := (h.single hd).2.resolve_left (ne_nil_of_length_pos (Nat.zero_lt_of_lt hk))
    exact Nat.le_antisymm h.loop_le (hend ▸ Nat.zero_le _)
  · exact htake.more hu hsafe

private theorem reading_invalNext (h : Delivering 0 s) (hne : s.undelivered ≠ []) (hlen : 0 < s.lbLen)
    (hi : s.invalIdx < s.invalEnd) : (s.invalMDIoDoneProc).Phase := by
  obtain ⟨md, hget, hnext⟩ := h.next hi
  simp only [invalMDIoDoneProc, hget]
  by_cases hv : md.isValid = true
  · rw [if_pos hv] at hnext ⊢
    refine .of_delivering hnext ?_
    have := h.undelivered_ne hne
    simpa using this
  · rw [if_neg hv] at hnext ⊢
    by_cases hu : ({ s with invalIdx := s.invalIdx + 1 } : SegReq).undelivered = []
    · refine hnext.last hlen hu fun hd => ⟨rfl, fun _ => ?_⟩
      have hitems := length_le_sum_of_one_le _ (mdPieces_pos s.metaData)
      rw [length_map, h.cover, (h.single hd).1] at hitems
      have hend := h.loop_end
      change s.invalIdx + 1 = s.invalEnd
      omega
    · exact hnext.more hu fun _ => rfl

theorem step_phase (h : s.Phase) (hlen : 0 < s.lbLen) {e : SegEvent} (he : segMachine.enabled s e)
    (hsafe : s.ReadPhaseSafe e) : (segMachine.step s e).Phase := by
  cases e with
  | acquired mdres items =>
    cases h with
    | acquiring h => exact h.acquired hlen he.2
    | reading h _ => exact absurd (he.1.symm.trans h.acquiring) (by decide)
    | writing h => exact absurd (he.1.symm.trans h.acquiring) (by decide)
    | finished h => exact absurd (he.1.symm.trans h.acquiring) (by decide)
  | readEnd k ioRes numFailDn =>
    have hk : k < s.reads.length := he
    cases h with
    | reading h _ => exact reading_readEnd h hlen hk hsafe
    | acquiring h => rw [h.reads] at hk; exact absurd hk (Nat.not_lt_zero k)
    | writing h => rw [h.reads] at hk; exact absurd hk (Nat.not_lt_zero k)
    | finished h => rw [h.reads] at hk; exact absurd hk (Nat.not_lt_zero k)
  | invalNext =>
    have hi : s.invalIdx < s.invalEnd := he
    cases h with
    | acquiring h => exact absurd h.loop (Nat.ne_of_lt hi)
    | reading h hne => exact reading_invalNext h hne hlen hi
    | writing h =>
      obtain ⟨heq, hidle⟩ := h.loop.step hi
      rw [show segMachine.step s .invalNext = s.invalMDIoDoneProc from rfl, heq]
      exact .writing ⟨h.acquiring, h.reads, h.stat, h.ciUser, h.userRemain, h.mdsRemain, h.ciUsers_pos, h.ends_pos,
        h.commits, h.dones, hidle, h.fault⟩
    | finished h =>
      obtain ⟨heq, hidle⟩ := h.loop.step hi
      rw [show segMachine.step s .invalNext = s.invalMDIoDoneProc from rfl, heq]
      exact .finished ⟨h.acquiring, h.reads, h.ciUsers, h.ends, h.commits, h.dones, hidle, h.fault⟩
  | writeCiUser k ioRes =>
    have hk : k < s.ciUsers.length := he
    cases h with
    | writing h => exact .writing (h.ciUserStep hk ioRes)
    | acquiring h => rw [h.ciUsers] at hk; exact absurd hk (Nat.not_lt_zero k)
    | reading h _ => rw [h.ciUsers] at hk; exact absurd hk (Nat.not_lt_zero k)
    | finished h => rw [h.ciUsers] at hk; exact absurd hk (Nat.not_lt_zero k)
  | writeEnd k =>
    have hk : k < s.ends.length := he
    cases h with
    | writing h => exact .writing (h.endStep hk)
    | acquiring h => rw [h.ends] at hk; exact absurd hk (Nat.not_lt_zero k)
    | reading h _ => rw [h.ends] at hk; exact absurd hk (Nat.not_lt_zero k)
    | finished h => rw [h.ends] at hk; exact absurd hk (Nat.not_lt_zero k)

structure Outcome (s : SegReq) : Prop where
  fault : s.fault = false
  commits : s.commits = [] ∨ s.commits = [s.lbLen]
  dones : s.dones = [] ∨ s.dones = [s.lbLen]
  quiet : s.Quiet → s.commits = [s.lbLen] ∧ s.dones = [s.lbLen]

theorem Phase.outcome (h : s.Phase) : s.Outcome := by
  cases h with
  | acquiring h =>
    refine ⟨h.fault, Or.inl ?_, Or.inl ?_, fun hq => absurd (hq.1.symm.trans h.acquiring) (by decide)⟩
    · simp [SegReq.commits, h.calls]
    · simp [SegReq.dones, h.calls]
  | reading h hne =>
    refine ⟨h.fault, Or.inl ?_, Or.inl ?_, ?_⟩
    · simp [SegReq.commits, h.calls]
    · simp [SegReq.dones, h.calls]
    · rintro ⟨-, hreads, -, -, hidx⟩
      -- no read is outstanding and the loop is over: nothing is left to deliver
      refine absurd ?_ hne
      rw [undelivered, hreads, nil_append]
      rcases h.loop_end with hend | ⟨-, hnil⟩
      · rw [invalLeft, drop_eq_nil_of_le (by omega)]
        rfl
      · exact hnil
  | writing h =>
    refine ⟨h.fault, ?_, ?_, ?_⟩
    · rw [h.commits]
      split_ifs
      · exact Or.inr rfl
      · exact Or.inl rfl
    · rw [h.dones]
      split_ifs
      · exact Or.inr rfl
      · exact Or.inl rfl
    · rintro ⟨-, -, husers, hends, -⟩
      exact ⟨h.commits.trans (if_pos husers), h.dones.trans (if_pos hends)⟩
  | finished h => exact ⟨h.fault, Or.inr h.commits, Or.inr h.dones, fun _ => ⟨h.commits, h.dones⟩⟩

structure Extends (s t : SegReq) : Prop where
  lbLen : t.lbLen = s.lbLen
  calls : s.calls <+: t.calls

section Extends
variable {t : SegReq}

variable (h : s.Extends t)
include h

theorem Extends.commitUser (r : Bool) : s.Extends (t.commitUser r) := by
  unfold SegReq.commitUser
  split_ifs
  · exact h
  · exact ⟨h.lbLen, h.calls.trans (prefix_append _ _)⟩

theorem Extends.callIoDone : s.Extends t.callIoDone :=
  ⟨h.lbLen, h.calls.trans (prefix_append _ _)⟩

theorem Extends.writePLCiUser (n : Nat) (r : Bool) : s.Extends (t.writePLCiUser n r) := by
  simp only [SegReq.writePLCiUser]
  split_ifs
  · apply Extends.commitUser
    exact ⟨h.lbLen, h.calls⟩
  · exact ⟨h.lbLen, h.calls⟩

theorem Extends.writePLEndfn (n : Nat) : s.Extends (t.writePLEndfn n) := by
  simp only [SegReq.writePLEndfn]
  split_ifs
  · exact ⟨h.lbLen, h.calls⟩
  · apply Extends.callIoDone
    exact ⟨h.lbLen, h.calls⟩
  · exact ⟨h.lbLen, h.calls⟩

theorem Extends.pwWPhase : s.Extends t.pwWPhase := by
  unfold SegReq.pwWPhase
  by_cases ho : t.pwResetReq.ovw = true
  · rw [if_pos ho]
    simp only [pwWPhaseOvw]
    split_ifs <;> exact ⟨h.lbLen, h.calls⟩
  · rw [if_neg ho]
    exact ⟨h.lbLen, h.calls⟩

theorem Extends.readAllDone : s.Extends t.readAllDone := by
  simp only [SegReq.readAllDone]
  split_ifs
  · exact ⟨h.lbLen, h.calls⟩
  · exact ⟨h.lbLen, h.calls⟩
  · apply Extends.callIoDone
    apply Extends.commitUser
    exact ⟨h.lbLen, h.calls⟩

theorem Extends.readEndfn (n : Nat) (r : Bool) (f : Nat) : s.Extends (t.readEndfn n r f) := by
  unfold SegReq.readEndfn
  split_ifs
  · unfold readPLEndfn
    dsimp only
    split_ifs
    · exact ⟨h.lbLen, h.calls⟩
    · apply Extends.readAllDone
      exact ⟨h.lbLen, h.calls⟩
  · simp only [partialWReadPLEndfn]
    split_ifs
    · exact ⟨h.lbLen, h.calls⟩
    · apply Extends.writePLEndfn
      apply Extends.commitUser
      exact ⟨h.lbLen, h.calls⟩
    · exact ⟨h.lbLen, h.calls⟩
    · exact ⟨h.lbLen, h.calls⟩
    · apply Extends.pwWPhase
      exact ⟨h.lbLen, h.calls⟩

theorem Extends.acquireMDEndfn (mdres : Bool) (items : List MdEntry) :
    s.Extends (t.acquireMDEndfn mdres items) := by
  unfold SegReq.acquireMDEndfn
  by_cases hchk : ({ t with acquiring := false, metaData := items } : SegReq).checkMetadataStatus mdres = true
  · rw [if_pos hchk]
    have hc : s.Extends ({ t with acquiring := false, metaData := items }.commitUser false) := by
      apply Extends.commitUser
      exact ⟨h.lbLen, h.calls⟩
    apply Extends.callIoDone
    exact ⟨hc.lbLen, hc.calls⟩
  · rw [if_neg hchk]
    cases t.opcode <;> dsimp only <;> split <;> exact ⟨h.lbLen, h.calls⟩

end Extends

theorem step_extends (s : SegReq) (e : SegEvent) : s.Extends (segMachine.step s e) := by
  have hframe (t : SegReq) (hl : t.lbLen = s.lbLen) (hc : t.calls = s.calls) : s.Extends t :=
    ⟨hl, hc ▸ prefix_rfl⟩
  cases e with
  | acquired mdres items => exact (hframe s rfl rfl).acquireMDEndfn mdres items
  | readEnd k ioRes numFailDn =>
    simp only [segMachine]
    apply Extends.readEndfn
    exact hframe _ rfl rfl
  | invalNext =>
    simp only [segMachine, invalMDIoDoneProc]
    split
    · exact hframe _ rfl rfl
    · split_ifs
      · exact hframe _ rfl rfl
      · apply Extends.readEndfn
        exact hframe _ rfl rfl
  | writeCiUser k ioRes =>
    simp only [segMachine]
    apply Extends.writePLCiUser
    exact hframe _ rfl rfl
  | writeEnd k =>
    simp only [segMachine]
    apply Extends.writePLEndfn
    exact hframe _ rfl rfl

end SegReq
end DiscoClient
