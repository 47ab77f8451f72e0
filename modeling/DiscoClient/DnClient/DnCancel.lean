import DiscoClient.DnClient.DnSound

namespace DiscoClient
open ThreadPool

/-- The points of DNUDReq_cancel_Req. -/
def DnPoint.ofCancel : DnPoint → Bool
  | .cancelAgain | .cancelRef | .cancelRm | .cancelFree => true
  | _ => false

namespace DnReqRun
variable {s t : DnReqRun} {e : DnEvent}

/-- A cancellation has done its work once it returns, and it returns when all other threads have finished.
-/
structure CancelEnds (t : DnReqRun) : Prop where
  done : (∀ a : DnPoint, a.ofCancel = true → t.threads a = 0) →
    t.inReqPool = false ∧ t.inWorkQ = false ∧ t.freed = 1
  waits : (∀ a : DnPoint, a.ofCancel = false → t.threads a = 0) → 0 < t.threads .cancelFree → t.refCnt = 0

def Cancels (s : DnReqRun) : Prop :=
  ∀ es, machine.Legal (s.step .cancel) es → CancelEnds (machine.exec (s.step .cancel) es)

/-- The state grants the cancellation, no thread has still to queue the request, every reference is held by
a thread, and a thread about to send knows the operation code. -/
structure Cancelable (s : DnReqRun) : Prop where
  granted : s.action .cancel = .doCancelReq
  stored : s.threads .subStored = 0
  adding : s.threads .adding = 0
  refs : s.refCnt = weight DnPoint.holdsRef s.threads
  sent : 0 < s.threads .peeked → s.comm.sendDnUdReq ≠ none

section

variable (h : s.stat.isFinal = true)
include h

theorem updateState_of_final (ev : DnReqEvent) : s.updateState ev = s := by
  rw [updateState, action, dnReqUpdateState_of_isFinal h]
  rfl

theorem action_of_final (ev : DnReqEvent) : s.action ev = .noAction := by
  rw [action, dnReqUpdateState_of_isFinal h]

theorem step_initDone_of_final : s.step .initDone = s.leave .subPooled := by
  rw [step, action_of_final h, updateState_of_final h]
  rfl

theorem step_peekUpdateState_of_final :
    s.step .peekUpdateState = (s.leave .peeking).derefReq := by
  rw [step, peekUpdateState, action_of_final h, updateState_of_final h]
  rfl

theorem step_retryChkDone_of_final :
    s.step .retryChkDone = (s.leave .retrying).derefReq := by
  rw [step, retryChkDone, action_of_final h, updateState_of_final h]
  rfl

theorem step_sendDone_of_final :
    s.step .sendDone = match s.comm.sendDnUdReq with
      | some comm => ({ s with comm := comm }).move .peeked .sending
      | none => s.leave .peeked := by
  change s.sendDone = _
  unfold sendDone
  cases s.comm.sendDnUdReq <;> simp only [updateState_of_final h]

end

structure Cancelling (t : DnReqRun) : Prop where
  stat : t.stat = .cancelReq
  pool : t.inReqPool = false
  pooled : t.threads .subPooled = 0
  subGranted : t.threads .subGranted = 0
  subRef : t.threads .subRef = 0
  stored : t.threads .subStored = 0
  adding : t.threads .adding = 0
  queue : t.inWorkQ = t.feaInWorkQ
  removed : t.threads .cancelRef + t.threads .cancelRm = 0 → t.inWorkQ = false
  frees : t.freed + t.threads .cancelRef + t.threads .cancelRm + t.threads .cancelFree = 1
  finalAck : t.threads .finalAck = 0
  ackFree : t.threads .ackFree = 0
  sender : t.threads .peeked ≤ 1
  sent : 0 < t.threads .peeked → t.comm.sendDnUdReq ≠ none
  leaked : t.leaked = 0

theorem Cancelling.dropsRef (h : Cancelling t) (he : t.Enabled e) : t.dropsRef e = 0 := by
  cases e with
  | sendDone => exact if_neg (h.sent (he _ rfl))
  | unknownResp => exact absurd (he _ rfl) (by rw [h.finalAck]; decide)
  | _ => rfl

theorem Cancelling.step (h : Cancelling t) (he : t.Enabled e) : Cancelling (t.step e) := by
  have hfinal : t.stat.isFinal = true := by rw [h.stat]; rfl
  have hleak : (t.step e).leaked = 0 := by rw [leaked_step he, h.leaked, h.dropsRef he]; rfl
  have hnone {a : DnPoint} (ha : t.threads a = 0) (hpos : 0 < t.threads a) : Cancelling (t.step e) :=
    absurd hpos (by rw [ha]; decide)
  have hout (hin : t.inReqPool = true) : Cancelling (t.step e) := absurd (h.pool.symm.trans hin) Bool.false_ne_true
  cases e with
  | initDone => exact hnone h.pooled (he _ rfl)
  | subRefReq => exact hnone h.subGranted (he _ rfl)
  | storeReqID => exact hnone h.subRef (he _ rfl)
  | subAddWorkQ => exact hnone h.stored (he _ rfl)
  | retryAddWorkQ => exact hnone h.adding (he _ rfl)
  | finalAckEnd _ | unknownResp => exact hnone h.finalAck (he _ rfl)
  | ackFreeReq => exact hnone h.ackFree he.1
  | findMemAck | findFinalAck | connBack => exact hout he
  | cancel => exact hout he.1
  | cancelAgain =>
    rw [DnReqRun.step, cancelAgain, h.pool]
    exact h
  | peekUpdateState =>
    rw [step_peekUpdateState_of_final hfinal] at hleak ⊢
    exact { h with leaked := hleak }
  | retryChkDone =>
    rw [step_retryChkDone_of_final hfinal] at hleak ⊢
    exact { h with leaked := hleak }
  | sendDone =>
    have hlast : ¬ 0 < t.threads .peeked - 1 := by have := h.sender; omega
    rw [step_sendDone_of_final hfinal] at hleak ⊢
    cases hsend : t.comm.sendDnUdReq with
    | none => exact absurd hsend (h.sent (he _ rfl))
    | some comm =>
      rw [hsend] at hleak
      exact { h with
        leaked := hleak
        sender := (Nat.sub_le _ _).trans h.sender
        sent := fun hpos => absurd hpos hlast }
  | peekWorkQ =>
    have hq : (t.inWorkQ && !t.feaInWorkQ) = false := by rw [h.queue, Bool.and_not_self]
    exact { h with leaked := hleak, queue := hq, removed := fun _ => hq }
  | cancelDerefReq =>
    have hpos : 0 < t.threads .cancelRef := he _ rfl
    refine { h with leaked := hleak, removed := fun hzero => absurd hzero (Nat.succ_ne_zero _), frees := ?_ }
    have hf := h.frees
    change t.freed + (t.threads .cancelRef - 1) + (t.threads .cancelRm + 1) + t.threads .cancelFree = 1
    omega
  | cancelRmWorkQ =>
    have hpos : 0 < t.threads .cancelRm := he _ rfl
    have hq : (t.inWorkQ && !t.feaInWorkQ) = false := by rw [h.queue, Bool.and_not_self]
    refine { h with leaked := hleak, queue := hq, removed := fun _ => hq, frees := ?_ }
    have hf := h.frees
    change t.freed + t.threads .cancelRef + (t.threads .cancelRm - 1) + (t.threads .cancelFree + 1) = 1
    omega
  | cancelFreeReq =>
    have hpos : 0 < t.threads .cancelFree := he.1
    refine { h with leaked := hleak, frees := ?_ }
    have hf := h.frees
    change t.freed + 1 + t.threads .cancelRef + t.threads .cancelRm + (t.threads .cancelFree - 1) = 1
    omega
  | subDerefReq | sendEnd | memAckEnd | retryDerefReq => exact { h with leaked := hleak }

theorem weight_holdsRef_eq_zero (hzero : ∀ a : DnPoint, a.ofCancel = false → t.threads a = 0) (href : t.threads .cancelRef = 0) :
    weight DnPoint.holdsRef t.threads = 0 := weight_eq_zero_iff.mpr fun a ha => by
  cases hcancel : a.ofCancel with
  | false => exact absurd ha (by rw [hzero a hcancel]; decide)
  | true =>
    cases a <;> first | rfl | cases hcancel
    exact absurd ha (by rw [href]; decide)

theorem Cancelling.cancelEnds (h : Cancelling t) : CancelEnds t where
  done hzero := by
    have hf := h.frees
    rw [hzero .cancelRef rfl, hzero .cancelRm rfl, hzero .cancelFree rfl] at hf
    exact ⟨h.pool, h.removed (by rw [hzero .cancelRef rfl, hzero .cancelRm rfl]), hf⟩
  waits hzero hpos := by
    have hf := h.frees
    have hweight := weight_holdsRef_eq_zero hzero (by omega)
    have hleak := h.leaked
    rw [DnReqRun.leaked, hweight] at hleak
    exact sub_eq_zero.mp hleak

theorem Sound.threads_eq_zero (hs : Sound s) (hin : s.inReqPool = true) {a : DnPoint} (ha : a.willFree = 1) :
    s.freed = 0 ∧ s.threads a = 0 := by
  have hf : s.freed + weight DnPoint.willFree s.threads ≤ s.ledger.numEnded := hs.ended.freed
  rw [(hs.pooled hin).2] at hf
  refine ⟨by omega, Nat.eq_zero_of_not_pos fun hpos => ?_⟩
  have hle := le_weight DnPoint.willFree hpos
  omega

theorem step_cancel_of_granted (h : s.action .cancel = .doCancelReq) :
    s.step .cancel = ((s.updateState .cancel).refReq.rmReqNolock).enter .cancelRef := by
  rw [step, cancelReq, h]

theorem stat_of_granted (h : s.action .cancel = .doCancelReq) : (s.step .cancel).stat = .cancelReq := by
  rw [step_cancel_of_granted h]
  change (dnReqUpdateState s.stat .cancel).1 = .cancelReq
  rw [action] at h
  cases hst : s.stat <;> rw [hst] at h <;> first | rfl | cases h

theorem Cancelable.cancelling (hc : Cancelable s) (hs : Sound s) (he : s.Enabled .cancel) :
    Cancelling (s.step .cancel) := by
  have hsub : s.threads .subPooled + s.threads .subGranted + s.threads .subRef + 1 ≤ 1 := by
    have := hs.submitted
    rwa [Submitted, he.2] at this
  have hzero {a : DnPoint} (ha : a.willFree = 1) := (hs.threads_eq_zero he.1 ha).2
  have hstat := stat_of_granted hc.granted
  have hleak : (s.step .cancel).leaked = 0 := by
    rw [leaked_step he, leaked, hc.refs, sub_self]
    rfl
  rw [step_cancel_of_granted hc.granted] at hstat hleak ⊢
  refine ⟨hstat, rfl, ?_, ?_, ?_, hc.stored, hc.adding, hs.queue, fun h => absurd h ?_, ?_, hzero rfl, hzero rfl,
    hs.placed.one, hc.sent, hleak⟩
  · change s.threads .subPooled = 0
    omega
  · change s.threads .subGranted = 0
    omega
  · change s.threads .subRef = 0
    omega
  · change s.threads .cancelRef + 1 + s.threads .cancelRm ≠ 0
    omega
  · change s.freed + (s.threads .cancelRef + 1) + s.threads .cancelRm + s.threads .cancelFree = 1
    rw [(hs.threads_eq_zero he.1 (a := .cancelRef) rfl).1, hzero (a := .cancelRef) rfl, hzero (a := .cancelRm) rfl,
      hzero (a := .cancelFree) rfl]

theorem Cancelable.cancels (hc : Cancelable s) (hs : Sound s) (he : s.Enabled .cancel) : Cancels s := fun _ hlegal =>
  (GuardedMachine.exec_invariant (I := Cancelling) (hc.cancelling hs he) (fun _ _ ht he' => ht.step he')
    hlegal).cancelEnds

end DnReqRun
end DiscoClient
