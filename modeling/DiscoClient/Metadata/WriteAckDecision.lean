import DiscoClient.Metadata.WriteAckCounters
import Mathlib.Data.List.Induction
import Mathlib.Data.List.Perm.Subperm

namespace DiscoClient

def Truthful (n : Nat) (acks : List AckEvent) (told : Option Bool) : Prop :=
  (told = some true → (∃ idx, .ack .writeOk idx ∈ acks) ∨ ∀ idx < n, .ack .writeMemOk idx ∈ acks) ∧
  (told = some false → ∀ idx, .ack .writeOk idx ∉ acks)

/-- All n replicas were heard of with too few disk acks, and not all the others are disk errors. -/
def TooFewDiskAcks (minDiskAck n : Nat) (md : MdItem) : Prop :=
  1 ≤ md.diskack ∧ md.diskack < minDiskAck ∧ md.diskack < n ∧ md.diskack + md.diskErrAck ≠ n ∧
  (md.diskack + md.wfailConnErr = n ∨ md.diskack + md.diskErrAck + md.wfailConnErr = n)

/-- The user has been told, or the event settles it: with no minimum the first ack must be a disk ack or the
memory ack of the only replica, later acks must not end short of the minimum, and a timeout must not find a
wrapped counter. -/
def Conclusive (minDiskAck n : Nat) (s : AckRun) (e : AckEvent) : Prop :=
  s.md.ciUser = true ∨ match e with
  | .ack st _ =>
    if minDiskAck = 0 then st = .writeOk ∨ (st = .writeMemOk ∧ n = 1)
    else ¬TooFewDiskAcks minDiskAck n (s.md.countAck st)
  | .reset _ => True
  | .timeout => 0 < s.md.diskack ∨ ∀ idx, .ack .writeOk idx ∉ s.past

variable {minDiskAck n : Nat} {s : AckRun}

theorem truthful_none (acks : List AckEvent) : Truthful n acks none :=
  ⟨(fun h => nomatch h), (fun h => nomatch h)⟩

theorem truthful_success {acks : List AckEvent} : Truthful n acks (some true) ↔
    (∃ idx, .ack .writeOk idx ∈ acks) ∨ ∀ idx < n, .ack .writeMemOk idx ∈ acks := by
  simp [Truthful]

theorem truthful_failure {acks : List AckEvent} : Truthful n acks (some false) ↔
    ∀ idx, .ack .writeOk idx ∉ acks := by
  simp [Truthful]

section

variable (h : AckInv minDiskAck n s)
include h

theorem AckInv.acked (hd : s.md.diskack ≠ 0) :
    ∃ idx, .ack .writeOk idx ∈ s.past := by
  refine AckEvent.cnt_pos.mp (Nat.pos_of_ne_zero fun h0 => ?_)
  rw [h.diskack, h0] at hd
  exact absurd rfl hd

theorem AckInv.final_le :
    AckEvent.cnt .writeOk s.past + AckEvent.cnt .diskFailure s.past ≤ n := by
  rw [← AckEvent.length_finals, ← List.length_range (n := n)]
  exact (List.Nodup.subperm h.finals fun r hr => List.mem_range.mpr (h.finals_lt r hr)).length_le

theorem AckInv.all_diskErr (he : s.md.diskErrAck = n) :
    ∀ idx, .ack .writeOk idx ∉ s.past := by
  intro idx hin
  have hpos := AckEvent.cnt_pos.mpr ⟨idx, hin⟩
  have hle := h.final_le
  rw [h.diskErrAck] at he
  have h127 := i8_le (AckEvent.cnt .diskFailure s.past)
  rw [i8_of_le (by omega) (by omega)] at he
  omega

theorem timeout_truthful_iff (hu : s.md.ciUser = false) :
    Truthful n (s.past ++ [.timeout]) (s.md.onAckEvent minDiskAck .timeout).2.ciUser ↔
      Conclusive minDiskAck n s .timeout := by
  have hsig : (s.md.onAckEvent minDiskAck .timeout).2.ciUser = some (decide (s.md.diskack > 0)) := by
    simp [MdItem.onAckEvent, MdItem.timeoutCommitResult, hu]
  rw [hsig]
  by_cases hd : 0 < s.md.diskack
  · obtain ⟨idx, hin⟩ := h.acked (by omega)
    simp only [Truthful, Conclusive, hd, decide_true]
    refine iff_of_true ⟨fun _ => Or.inl ⟨idx, List.mem_append_left _ hin⟩, fun hc => absurd hc (by decide)⟩ (by simp)
  · simp [Truthful, Conclusive, hd, hu]

end

theorem first_ack_truthful_iff (h : AckInv 0 n s) (hu : s.md.ciUser = false) (st : UDataState) {idx : Nat}
    (hidx : idx < n) : Truthful n (s.past ++ [.ack st idx]) (s.md.onAckEvent 0 (.ack st idx)).2.ciUser ↔
      Conclusive 0 n s (.ack st idx) := by
  have hfirst (st' : UDataState) (i : Nat) :
      AckEvent.ack st' i ∈ s.past ++ [.ack st idx] ↔ st' = st ∧ i = idx := by
    simp [h.first rfl hu st' i]
  rw [MdItem.ack_signal 0 hu (h.mds_clear hu), MdItem.chkCiUserCriteria_zero (h.diskack_counted rfl hu st)]
  have hc : Conclusive 0 n s (.ack st idx) ↔ st = .writeOk ∨ (st = .writeMemOk ∧ n = 1) := by
    simp [Conclusive, hu]
  rw [hc, truthful_success]
  simp only [hfirst, exists_and_left, exists_eq, and_true]
  refine or_congr eq_comm ⟨fun hall => ?_, ?_⟩
  · refine ⟨(hall idx hidx).1.symm, ?_⟩
    by_contra hne
    -- some other replica has not acked
    have h0 := (hall 0 (by omega)).2
    have h1 := (hall 1 (by omega)).2
    omega
  · rintro ⟨hst, h1⟩ i hi
    exact ⟨hst.symm, by omega⟩

section Criteria
variable {md : MdItem}

theorem chkCiUserCriteria_success (hR : md.numReplica = n) (hn : 1 ≤ n) (hmin : 0 < minDiskAck)
    (h : md.chkCiUserCriteria minDiskAck = some true) : md.diskack ≠ 0 ∧ ¬TooFewDiskAcks minDiskAck n md := by
  unfold MdItem.chkCiUserCriteria at h
  unfold TooFewDiskAcks
  rw [hR] at h
  split_ifs at h with h1 h2 h3 h4
  · exact absurd h1.1 (Nat.ne_of_gt hmin)
  · constructor <;> omega
  · cases h
  · constructor <;> omega

theorem chkCiUserCriteria_failure (hR : md.numReplica = n) (h : md.chkCiUserCriteria minDiskAck = some false) :
    md.diskErrAck = n := by
  unfold MdItem.chkCiUserCriteria at h
  rw [hR] at h
  split_ifs at h with h1 h2 h3 h4
  · cases h
  · cases h
  · exact h3.symm
  · cases h

theorem chkCiMdsCriteria_iff (hR : md.numReplica = n ∧ md.numDnLoc = n)
    (h : md.chkCiUserCriteria minDiskAck = none) :
    md.chkCiMdsCriteria = true ↔ TooFewDiskAcks minDiskAck n md := by
  unfold MdItem.chkCiUserCriteria at h
  unfold MdItem.chkCiMdsCriteria TooFewDiskAcks
  rw [hR.1] at h
  rw [hR.2]
  split_ifs at h with h1 h2 h3 h4
  split_ifs <;> simp <;> omega

end Criteria

theorem ack_truthful_iff (h : AckInv minDiskAck n s) (hu : s.md.ciUser = false) (hmin : 0 < minDiskAck)
    {st : UDataState} {idx : Nat} (he : (ackMachine minDiskAck n).enabled s (.ack st idx)) (hn : 1 ≤ n) :
    Truthful n (s.past ++ [.ack st idx]) (s.md.onAckEvent minDiskAck (.ack st idx)).2.ciUser ↔
      Conclusive minDiskAck n s (.ack st idx) := by
  have hc : Conclusive minDiskAck n s (.ack st idx) ↔ ¬TooFewDiskAcks minDiskAck n (s.md.countAck st) := by
    simp [Conclusive, hu, Nat.ne_of_gt hmin]
  have h' := h.step he
  have hD : ((ackMachine minDiskAck n).step s (.ack st idx)).md.diskack = (s.md.countAck st).diskack := by
    cases st <;> rfl
  have hE : ((ackMachine minDiskAck n).step s (.ack st idx)).md.diskErrAck = (s.md.countAck st).diskErrAck := by
    cases st <;> rfl
  have hR : (s.md.countAck st).numReplica = n ∧ (s.md.countAck st).numDnLoc = n := by
    cases st <;> exact ⟨h.numReplica, h.numDnLoc⟩
  have hacked := h'.acked
  have hall := h'.all_diskErr
  rw [hD] at hacked
  rw [hE] at hall
  rw [hc, MdItem.ack_signal minDiskAck hu (h.mds_clear hu)]
  obtain ⟨c, hcdef⟩ : ∃ c, c = s.md.countAck st := ⟨_, rfl⟩
  rw [← hcdef] at hacked hall hR ⊢
  cases hcrit : c.chkCiUserCriteria minDiskAck with
  | some r =>
    cases r with
    | true =>
      obtain ⟨hne, hno⟩ := chkCiUserCriteria_success hR.1 hn hmin hcrit
      exact iff_of_true (truthful_success.mpr (Or.inl (hacked hne))) hno
    | false =>
      have hnone := hall (chkCiUserCriteria_failure hR.1 hcrit)
      refine iff_of_true (truthful_failure.mpr hnone) fun hfew => ?_
      obtain ⟨i, hi⟩ := hacked (by have := hfew.1; omega)
      exact hnone i hi
  | none =>
    have hmds := chkCiMdsCriteria_iff hR hcrit
    dsimp only
    by_cases hm : c.chkCiMdsCriteria = true
    · obtain ⟨i, hi⟩ := hacked (by have := (hmds.mp hm).1; omega)
      rw [if_pos hm, truthful_failure]
      exact iff_of_false (fun hnone => hnone i hi) fun hno => hno (hmds.mp hm)
    · rw [if_neg hm]
      exact iff_of_true (truthful_none _) fun hfew => hm (hmds.mpr hfew)

theorem step_truthful_iff (h : AckInv minDiskAck n s) (hn : 1 ≤ n) {e : AckEvent}
    (he : (ackMachine minDiskAck n).enabled s e) :
    Truthful n (s.past ++ [e]) (s.md.onAckEvent minDiskAck e).2.ciUser ↔ Conclusive minDiskAck n s e := by
  cases hu : s.md.ciUser with
  | true =>
    rw [(s.md.onAckEvent_bits minDiskAck e).2.1 hu]
    exact iff_of_true (truthful_none _) (Or.inl hu)
  | false =>
    cases e with
    | ack st idx =>
      rcases Nat.eq_zero_or_pos minDiskAck with rfl | hmin
      · exact first_ack_truthful_iff h hu st he.1
      · exact ack_truthful_iff h hu hmin he hn
    | reset idx => exact iff_of_true (truthful_none _) (Or.inr trivial)
    | timeout => exact timeout_truthful_iff h hu

def ackSignal (minDiskAck n : Nat) (past : List AckEvent) (e : AckEvent) : CommitSignal :=
  (((ackMachine minDiskAck n).exec (.init n) past).md.onAckEvent minDiskAck e).2

private theorem exec_past (s : AckRun) (es : List AckEvent) :
    ((ackMachine minDiskAck n).exec s es).past = s.past ++ es := by
  induction es generalizing s with
  | nil => simp
  | cons e es ih =>
    rw [GuardedMachine.exec_cons, ih]
    simp [ackMachine]

theorem exec_bits_sticky (minDiskAck n : Nat) (s : AckRun) (es : List AckEvent) :
    (s.md.ciUser = true → ((ackMachine minDiskAck n).exec s es).md.ciUser = true) ∧
    (s.md.ciMds = true → ((ackMachine minDiskAck n).exec s es).md.ciMds = true) := by
  induction es generalizing s with
  | nil => exact ⟨id, id⟩
  | cons e es ih =>
    obtain ⟨b1, -, b3, -⟩ := s.md.onAckEvent_bits minDiskAck e
    obtain ⟨ih1, ih2⟩ := ih ((ackMachine minDiskAck n).step s e)
    refine ⟨fun hu => ih1 (b1.trans ?_), fun hm => ih2 (b3.trans ?_)⟩
    · rw [hu, Bool.true_or]
    · rw [hm, Bool.true_or]

theorem told_of_ciUser (es : List AckEvent)
    (h : ((ackMachine minDiskAck n).exec (.init n) es).md.ciUser = true) :
    ∃ past e rest, es = past ++ e :: rest ∧ (ackSignal minDiskAck n past e).ciUser.isSome = true := by
  induction es using List.reverseRecOn with
  | nil => cases h
  | append_singleton es e ih =>
    rw [GuardedMachine.exec_append] at h
    obtain ⟨b1, -⟩ := ((ackMachine minDiskAck n).exec (.init n) es).md.onAckEvent_bits minDiskAck e
    rcases Bool.or_eq_true_iff.mp (b1.symm.trans h) with hu | hs
    · obtain ⟨past, e', rest, rfl, hs⟩ := ih hu
      exact ⟨past, e', rest ++ [e], by simp, hs⟩
    · exact ⟨es, e, [], rfl, hs⟩

theorem signalled_once (minDiskAck n : Nat) (past mid : List AckEvent) (e e' : AckEvent) :
    ((ackSignal minDiskAck n past e).ciUser.isSome = true →
      (ackSignal minDiskAck n (past ++ e :: mid) e').ciUser = none) ∧
    ((ackSignal minDiskAck n past e).ciMds = true →
      (ackSignal minDiskAck n (past ++ e :: mid) e').ciMds = false) := by
  unfold ackSignal
  rw [GuardedMachine.exec_append, GuardedMachine.exec_cons]
  generalize (ackMachine minDiskAck n).exec (.init n) past = s
  obtain ⟨b1, -, b3, -⟩ := s.md.onAckEvent_bits minDiskAck e
  obtain ⟨su, sm⟩ := exec_bits_sticky minDiskAck n ((ackMachine minDiskAck n).step s e) mid
  obtain ⟨-, b2, -, b4, -⟩ := ((ackMachine minDiskAck n).exec _ mid).md.onAckEvent_bits minDiskAck e'
  exact ⟨fun hs => b2 (su (b1.trans (Bool.or_eq_true_iff.mpr (Or.inr hs)))),
    fun hs => b4 (sm (b3.trans (Bool.or_eq_true_iff.mpr (Or.inr hs))))⟩

/-- For every minimum, replica count and sequence of events: each commit is signalled at
most once, the name node never before the user, and the user is told the truth at every
event exactly when every event was conclusive. -/
theorem write_ack_decisions_iff (minDiskAck n : Nat) (hn : 1 ≤ n) (es : List AckEvent)
    (h : (ackMachine minDiskAck n).Legal (.init n) es) :
    (∀ past e mid e' rest, es = past ++ e :: (mid ++ e' :: rest) →
      ((ackSignal minDiskAck n past e).ciUser.isSome = true →
        (ackSignal minDiskAck n (past ++ e :: mid) e').ciUser = none) ∧
      ((ackSignal minDiskAck n past e).ciMds = true →
        (ackSignal minDiskAck n (past ++ e :: mid) e').ciMds = false)) ∧
    (∀ past e rest, es = past ++ e :: rest → (ackSignal minDiskAck n past e).ciMds = true →
      ∃ past' e' mid, past ++ [e] = past' ++ e' :: mid ∧
        (ackSignal minDiskAck n past' e').ciUser.isSome = true) ∧
    ((∀ past e rest, es = past ++ e :: rest →
        Truthful n (past ++ [e]) (ackSignal minDiskAck n past e).ciUser) ↔
      ∀ past e rest, es = past ++ e :: rest →
        Conclusive minDiskAck n ((ackMachine minDiskAck n).exec (.init n) past) e) := by
  refine ⟨fun past e mid e' _ _ => signalled_once minDiskAck n past mid e e', fun past e rest _ hmds => ?_, ?_⟩
  · obtain ⟨-, -, -, -, b5⟩ := ((ackMachine minDiskAck n).exec (.init n) past).md.onAckEvent_bits minDiskAck e
    refine told_of_ciUser (past ++ [e]) ?_
    rw [GuardedMachine.exec_append]
    exact b5 hmds
  · refine forall_congr' fun past => forall_congr' fun e => forall_congr' fun rest => imp_congr_right fun hes => ?_
    subst hes
    obtain ⟨hpast, he, -⟩ := (GuardedMachine.legal_append _ _ _ _).mp h
    have hinv : AckInv minDiskAck n ((ackMachine minDiskAck n).exec (.init n) past) :=
      GuardedMachine.exec_invariant (AckInv.init minDiskAck n) (fun t e ht he => ht.step he) hpast
    have hiff := step_truthful_iff hinv hn he
    rw [exec_past, show (AckRun.init n).past = [] from rfl, List.nil_append] at hiff
    exact hiff

instance (minDiskAck n : Nat) (s : AckRun) (e : AckEvent) :
    Decidable ((ackMachine minDiskAck n).enabled s e) := by
  cases e <;> unfold ackMachine <;> dsimp only <;> infer_instance

theorem write_ack_decisions_two_replicas :
    (ackMachine 1 2).Legal (.init 2) [.ack .writeMemOk 0, .ack .writeOk 1, .ack .diskFailure 0] ∧
    (ackSignal 1 2 [.ack .writeMemOk 0, .ack .writeOk 1] (.ack .diskFailure 0)).ciMds = true ∧
    (∃ past e mid, [.ack .writeMemOk 0, .ack .writeOk 1, .ack .diskFailure 0] = past ++ e :: mid ∧
      (ackSignal 1 2 past e).ciUser.isSome = true) := by
  have hl : (ackMachine 1 2).Legal (.init 2) [.ack .writeMemOk 0, .ack .writeOk 1, .ack .diskFailure 0] := by
    decide
  have hmds : (ackSignal 1 2 [.ack .writeMemOk 0, .ack .writeOk 1] (.ack .diskFailure 0)).ciMds = true := by
    decide
  exact ⟨hl, hmds, (write_ack_decisions_iff 1 2 (by decide) _ hl).2.1 _ _ [] rfl hmds⟩

/-- With a minimum of two, one disk ack and two lost connections tell the user failure.
With no minimum, one memory ack of three replicas tells the user success. -/
theorem user_told_wrong :
    ((ackMachine 2 3).Legal (.init 3) [.ack .writeOk 0, .ack .writeFail 1, .ack .writeFail 2] ∧
      ¬Truthful 3 [.ack .writeOk 0, .ack .writeFail 1, .ack .writeFail 2]
        (ackSignal 2 3 [.ack .writeOk 0, .ack .writeFail 1] (.ack .writeFail 2)).ciUser) ∧
    ((ackMachine 0 3).Legal (.init 3) [.ack .writeMemOk 0] ∧
      ¬Truthful 3 [.ack .writeMemOk 0] (ackSignal 0 3 [] (.ack .writeMemOk 0)).ciUser) := by
  refine ⟨⟨by decide, fun h => ?_⟩, by decide, fun h => ?_⟩
  · exact h.2 (by decide) 0 List.mem_cons_self
  · rcases h.1 (by decide) with ⟨idx, hin⟩ | hall
    · simp at hin
    · exact absurd (hall 1 (by decide)) (by decide)

end DiscoClient
