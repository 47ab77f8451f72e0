import DiscoClient.NnClient.NnReferences

namespace DiscoClient
open ThreadPool List

def NnEvent.arrives : NnEvent → List NnPoint
  | .initDone => [.subReady]
  | .subRefReq => [.sched .submit]
  | .schedTimer c _ => [.add c, .done c, .calling .retry]
  | .addWorkQ c => [.done c]
  | .peekMDReq => [.peekFail, .peeked, .chPeeked]
  | .fcPass | .fcWait _ => [.fcDone]
  | .sendMDReq => [.sent]
  | .chSendDone => [.chSent, .chFail]
  | .chRmReqPool => [.chFail, .cancelling]
  | .findReqPool => [.cancelling]
  | .cancelTimer => [.calling .ack]
  | .timerFire => [.toRef, .reportRef]
  | .toChkState => [.toFail, .toRm]
  | .toRmWorkQ => [.calling .timer]
  | .connBack => [.rtCancel]
  | .rtCancelTimer => [.rtChk]
  | .retryChkDone => [.sched .retry]
  | .endfn w => [.ended w]
  | .endDerefReq w => [.freeing w]
  | .giveUp _ | .freeReq _ => []

def NnPoint.endsIn : NnPoint → NnReqState → Bool
  | .cancelling, st => st = .processResp
  | .toRm, st | .calling .timer, st | .ended .timer, st | .freeing .timer, st => st = .timeoutFire
  | _, _ => true

theorem NnPoint.endsIn_of_not_final {a : NnPoint} {st : NnReqState} (h : a.endsIn st = true) (hst : st.isFinal = false)
    (st' : NnReqState) : a.endsIn st' = true := by
  cases a with
  | cancelling | toRm =>
    rw [of_decide_eq_true h] at hst
    cases hst
  | calling w | ended w | freeing w =>
    cases w with
    | timer =>
      rw [of_decide_eq_true h] at hst
      cases hst
    | _ => rfl
  | _ => rfl

namespace NnReqRun
variable {s : NnReqRun} {e : NnEvent} {cfg : NnTimeConfig} {i : NnPoint}

inductive Goes (e : NnEvent) (c d : NnPoint → Nat) : Prop where
  | moves (a b : NnPoint) (hb : b ∈ e.arrives) (hd : d = ThreadPool.move c a b)
  | comes (b : NnPoint) (hb : b ∈ e.arrives) (hd : d = ThreadPool.enter c b)
  | leaves (a : NnPoint) (hd : d = ThreadPool.leave c a)
  | stays (hd : d = c)

/-- One event of the state machine at most, and only the timer function leaves the lock other than it was.
-/
structure Effect (e : NnEvent) (s t : NnReqRun) : Prop where
  threads : Goes e s.threads t.threads
  fsm : t.fsm = s.fsm ∨ ∃ ev, t.fsm = (s.updateState ev).fsm
  acquire : t.acquire = s.acquire
  reqID : t.reqID = s.reqID
  plock : e ≠ .toChkState → t.plock = s.plock

theorem effect_step (s : NnReqRun) (e : NnEvent) : Effect e s (s.step cfg e) := by
  cases e with
  | initDone =>
    rw [step]
    split_ifs
    · exact ⟨.leaves _ rfl, .inr ⟨_, rfl⟩, rfl, rfl, fun _ => rfl⟩
    · exact ⟨.moves _ _ (by simp [NnEvent.arrives]) rfl, .inr ⟨_, rfl⟩, rfl, rfl, fun _ => rfl⟩
  | schedTimer c now =>
    rw [step, NnReqRun.schedTimer]
    split_ifs
    · refine ⟨.moves _ _ ?_ rfl, .inl rfl, rfl, rfl, fun _ => rfl⟩
      cases c <;> simp [NnEvent.arrives, outOfTime]
    · exact ⟨.moves _ _ (by simp [NnEvent.arrives]) rfl, .inl rfl, rfl, rfl, fun _ => rfl⟩
    · exact ⟨.moves _ _ (by simp [NnEvent.arrives]) rfl, .inl rfl, rfl, rfl, fun _ => rfl⟩
  | addWorkQ c =>
    rw [step, NnReqRun.addWorkQ]
    split_ifs <;> exact ⟨.moves _ _ (by simp [NnEvent.arrives]) rfl, .inl rfl, rfl, rfl, fun _ => rfl⟩
  | peekMDReq =>
    rw [step, NnReqRun.peekMDReq]
    split_ifs <;> exact ⟨.comes _ (by simp [NnEvent.arrives]) rfl, .inr ⟨_, rfl⟩, rfl, rfl, fun _ => rfl⟩
  | fcWait enableFc =>
    rw [step, NnReqRun.fcWait]
    split_ifs
    · exact ⟨.leaves _ rfl, .inl rfl, rfl, rfl, fun _ => rfl⟩
    · exact ⟨.stays rfl, .inl rfl, rfl, rfl, fun _ => rfl⟩
    · exact ⟨.moves _ _ (by simp [NnEvent.arrives]) rfl, .inl rfl, rfl, rfl, fun _ => rfl⟩
  | sendMDReq => exact ⟨.moves _ _ (by simp [NnEvent.arrives]) rfl, .inr ⟨_, rfl⟩, rfl, rfl, fun _ => rfl⟩
  | chSendDone =>
    rw [step, NnReqRun.chSendDone]
    split_ifs <;> exact ⟨.moves _ _ (by simp [NnEvent.arrives]) rfl, .inr ⟨_, rfl⟩, rfl, rfl, fun _ => rfl⟩
  | chRmReqPool =>
    rw [step, NnReqRun.chRmReqPool]
    split_ifs <;> exact ⟨.moves _ _ (by simp [NnEvent.arrives]) rfl, .inr ⟨_, rfl⟩, rfl, rfl, fun _ => rfl⟩
  | findReqPool =>
    rw [step, NnReqRun.findReqPool]
    split_ifs
    · exact ⟨.stays rfl, .inr ⟨_, rfl⟩, rfl, rfl, fun _ => rfl⟩
    · exact ⟨.stays rfl, .inr ⟨_, rfl⟩, rfl, rfl, fun _ => rfl⟩
    · exact ⟨.comes _ (by simp [NnEvent.arrives]) rfl, .inr ⟨_, rfl⟩, rfl, rfl, fun _ => rfl⟩
  | timerFire =>
    refine ⟨.comes _ ?_ rfl, .inl rfl, rfl, rfl, fun _ => rfl⟩
    split_ifs <;> simp [NnEvent.arrives]
  | toChkState =>
    rw [step, NnReqRun.toChkState, NnReqRun.relPlock]
    split_ifs
    all_goals exact ⟨.moves _ _ (by simp [NnEvent.arrives]) rfl, .inr ⟨_, rfl⟩, rfl, rfl, fun h => absurd rfl h⟩
  | connBack =>
    rw [step, NnReqRun.connBack]
    split_ifs
    · exact ⟨.comes _ (by simp [NnEvent.arrives]) rfl, .inr ⟨_, rfl⟩, rfl, rfl, fun _ => rfl⟩
    · exact ⟨.stays rfl, .inr ⟨_, rfl⟩, rfl, rfl, fun _ => rfl⟩
  | retryChkDone =>
    rw [step, NnReqRun.retryChkDone]
    split_ifs
    · exact ⟨.leaves _ rfl, .inr ⟨_, rfl⟩, rfl, rfl, fun _ => rfl⟩
    · exact ⟨.moves _ _ (by simp [NnEvent.arrives]) rfl, .inr ⟨_, rfl⟩, rfl, rfl, fun _ => rfl⟩
  | subRefReq | fcPass | cancelTimer | toRmWorkQ | rtCancelTimer | endfn | endDerefReq =>
    exact ⟨.moves _ _ (by simp [NnEvent.arrives]) rfl, .inl rfl, rfl, rfl, fun _ => rfl⟩
  | giveUp | freeReq => exact ⟨.leaves _ rfl, .inl rfl, rfl, rfl, fun _ => rfl⟩

theorem threads_step_le (hi : i ∉ e.arrives) : (s.step cfg e).threads i ≤ s.threads i := by
  have heff : Effect e s (s.step cfg e) := effect_step s e
  cases heff.threads with
  | moves a b hb hd =>
    rw [hd]
    exact move_le _ _ fun h => hi (h ▸ hb)
  | comes b hb hd =>
    rw [hd]
    exact Nat.le_of_eq (enter_of_ne _ fun h => hi (h ▸ hb))
  | leaves a hd =>
    rw [hd]
    exact leave_le _ _ _
  | stays hd => rw [hd]

theorem refused_of_final (h : s.phase.isFinal = true) (e : NnReqEvent) : s.updateState e = s := by
  refine refused fun hact => ?_
  rw [NnReqEvent.sources_not_final (granted hact).1] at h
  cases h

theorem phase_step_of_final (h : s.phase.isFinal = true) (e : NnEvent) : (s.step cfg e).phase = s.phase := by
  have heff : Effect e s (s.step cfg e) := effect_step s e
  rw [phase, phase, heff.acquire]
  rcases heff.fsm with hfsm | ⟨ev, hfsm⟩
  · rw [hfsm]
  · rw [hfsm, refused_of_final h]

def EndsPlaced (s : NnReqRun) : Prop := ∀ a, 0 < s.threads a → a.endsIn s.phase = true

namespace EndsPlaced

theorem chRmReqPool (h : EndsPlaced s) (ha : 0 < s.chRmReqPool.threads .cancelling) :
    s.chRmReqPool.phase = .processResp := by
  rw [NnReqRun.chRmReqPool] at ha ⊢
  split_ifs at ha ⊢ with hact hfea
  · change 0 < ThreadPool.move s.threads .chSent .chFail .cancelling at ha
    have hold := ha.trans_le (move_le s.threads .chSent (by simp))
    rw [refused hact]
    exact of_decide_eq_true (h .cancelling hold)
  · exact (granted (not_not.mp hact)).2
  · exact (granted (not_not.mp hact)).2

theorem findReqPool (h : EndsPlaced s) (ha : 0 < s.findReqPool.threads .cancelling) :
    s.findReqPool.phase = .processResp := by
  rw [NnReqRun.findReqPool] at ha ⊢
  split_ifs at ha ⊢ with hact hfea
  · rw [refused hact]
    exact of_decide_eq_true (h .cancelling ha)
  · exact (granted (not_not.mp hact)).2
  · exact (granted (not_not.mp hact)).2

theorem toChkState (h : EndsPlaced s) (ha : 0 < s.toChkState.threads .toRm) : s.toChkState.phase = .timeoutFire := by
  have hkeep {t : NnReqRun} (lockID : Int) :
      (t.relPlock lockID).phase = t.phase ∧ (t.relPlock lockID).threads = t.threads := by
    rw [NnReqRun.relPlock]
    split_ifs <;> exact ⟨rfl, rfl⟩
  rw [NnReqRun.toChkState, (hkeep _).2] at ha
  rw [NnReqRun.toChkState, (hkeep _).1]
  split_ifs at ha ⊢ with hact hfea
  · change 0 < ThreadPool.move s.threads .toRef .toFail .toRm at ha
    have hold := ha.trans_le (move_le s.threads .toRef (by simp))
    have hsame : s.acquirePlock.updateState .timeoutFire = s.acquirePlock := refused (s := s.acquirePlock) hact
    rw [hsame]
    exact of_decide_eq_true (h .toRm hold)
  · exact (granted (not_not.mp hact)).2
  · exact (granted (not_not.mp hact)).2

end EndsPlaced

theorem endsPlaced_step (h : EndsPlaced s) (he : (machine cfg).enabled s e) : EndsPlaced (s.step cfg e) := by
  intro a ha
  by_cases hi : a ∈ e.arrives
  · cases e with
    | chRmReqPool =>
      rcases mem_pair.mp hi with rfl | rfl
      · rfl
      · exact decide_eq_true (h.chRmReqPool ha)
    | findReqPool =>
      rw [mem_singleton.mp hi] at ha ⊢
      exact decide_eq_true (h.findReqPool ha)
    | toChkState =>
      rcases mem_pair.mp hi with rfl | rfl
      · rfl
      · rw [step] at ha ⊢
        rw [h.toChkState ha]
        rfl
    | toRmWorkQ =>
      rw [mem_singleton.mp hi]
      change decide (s.phase = .timeoutFire) = true
      exact h .toRm (he.1 _ rfl)
    | endfn w =>
      rw [mem_singleton.mp hi]
      cases w with
      | timer => exact h (.calling .timer) (he.1 _ rfl)
      | _ => rfl
    | endDerefReq w =>
      rw [mem_singleton.mp hi]
      cases w with
      | timer => exact h (.ended .timer) (he.1 _ rfl)
      | _ => rfl
    | schedTimer c now =>
      simp only [NnEvent.arrives, mem_cons, not_mem_nil, or_false] at hi
      rcases hi with rfl | rfl | rfl <;> rfl
    | peekMDReq =>
      simp only [NnEvent.arrives, mem_cons, not_mem_nil, or_false] at hi
      rcases hi with rfl | rfl | rfl <;> rfl
    | chSendDone | timerFire => rcases mem_pair.mp hi with rfl | rfl <;> rfl
    | giveUp | freeReq => cases hi
    | _ =>
      rw [mem_singleton.mp hi]
      rfl
  · have hold := h a (ha.trans_le (threads_step_le hi))
    cases hf : s.phase.isFinal with
    | true => rwa [phase_step_of_final hf]
    | false => exact NnPoint.endsIn_of_not_final hold hf _

end NnReqRun
end DiscoClient
