import DiscoClient.DnClient.DnTerminal

namespace DiscoClient
open ThreadPool DnPoint

namespace DnPoint

def holdsRef : DnPoint → Nat
  | .subRef | .subStored | .subQueued | .peeking | .peeked | .sending | .memAck | .finalAck | .retrying | .adding
  | .added | .cancelRef => 1
  | _ => 0

end DnPoint

namespace DnReqRun
variable {s : DnReqRun} {e : DnEvent}

def leaked (s : DnReqRun) : Int := s.refCnt - weight DnPoint.holdsRef s.threads

/-- The steps that keep their reference: a send with an unknown operation code, and an unknown response. -/
def dropsRef (s : DnReqRun) : DnEvent → Nat
  | .sendDone => if s.comm.sendDnUdReq = none then 1 else 0
  | .unknownResp => 1
  | _ => 0

theorem leaked_found (s : DnReqRun) : (s.refReq.derefReq).leaked = s.leaked + (0 : Nat) := by
  change s.refCnt + 1 - 1 - _ = s.leaked + (0 : Nat)
  rw [add_sub_cancel_right]
  exact (add_zero _).symm

theorem leaked_cancelReq (s : DnReqRun) : s.cancelReq.leaked = s.leaked := by
  rw [cancelReq, ← add_zero s.leaked]
  split
  · exact surplus_ref rfl rfl rfl
  · exact surplus_enter rfl (by simp [enter, updateState, holdsRef])
  · exact (add_zero _).symm

theorem leaked_step (he : s.Enabled e) : (s.step e).leaked = s.leaked + s.dropsRef e := by
  cases e with
  | initDone =>
    rw [step]
    split_ifs
    · exact surplus_kept (he _ rfl) rfl rfl rfl
    · exact surplus_leave (he _ rfl) rfl rfl
  | subRefReq => exact surplus_move (he _ rfl) rfl rfl
  | storeReqID | subAddWorkQ | retryAddWorkQ | cancelRmWorkQ => exact surplus_kept (he _ rfl) rfl rfl rfl
  | cancelDerefReq => exact surplus_move (he _ rfl) rfl (by simp [step, derefReq, move, holdsRef, dropsRef])
  | subDerefReq | sendEnd | memAckEnd | retryDerefReq => exact surplus_deref (he _ rfl) rfl rfl rfl
  | peekWorkQ => exact surplus_ref rfl rfl rfl
  | peekUpdateState =>
    rw [step, DnReqRun.peekUpdateState]
    split_ifs
    · exact surplus_kept (he _ rfl) rfl rfl rfl
    · exact surplus_deref (he _ rfl) rfl rfl rfl
  | sendDone =>
    rw [step, DnReqRun.sendDone, dropsRef]
    cases s.comm.sendDnUdReq with
    | some comm => exact surplus_kept (he _ rfl) rfl rfl rfl
    | none => exact surplus_leave (he _ rfl) rfl rfl
  | findMemAck =>
    rw [step, DnReqRun.findMemAck]
    split_ifs
    · exact surplus_ref rfl rfl rfl
    · exact leaked_found s
  | findFinalAck =>
    rw [step, DnReqRun.findFinalAck]
    split_ifs
    · exact leaked_found s
    · exact leaked_found s
    · exact surplus_ref rfl rfl rfl
  | finalAckEnd doFree =>
    cases doFree with
    | true => exact surplus_move (he _ rfl) rfl (by simp [step, derefReq, move, holdsRef, dropsRef])
    | false => exact surplus_deref (he _ rfl) rfl rfl rfl
  | unknownResp => exact surplus_leave (he _ rfl) rfl rfl
  | ackFreeReq | cancelFreeReq => exact surplus_leave he.1 rfl rfl
  | connBack =>
    rw [step, DnReqRun.connBack]
    split_ifs
    · exact surplus_ref rfl rfl rfl
    · exact (add_zero _).symm
  | retryChkDone =>
    rw [step, DnReqRun.retryChkDone]
    split_ifs
    · exact surplus_kept (he _ rfl) rfl rfl rfl
    · exact surplus_deref (he _ rfl) rfl rfl rfl
  | cancel => exact (leaked_cancelReq s).trans (add_zero _).symm
  | cancelAgain =>
    rw [step, DnReqRun.cancelAgain]
    split_ifs
    · rw [leaked_cancelReq]
      exact surplus_leave (he _ rfl) rfl rfl
    · exact (add_zero _).symm

def dropped : DnReqRun → List DnEvent → Nat
  | _, [] => 0
  | s, e :: es => s.dropsRef e + dropped (s.step e) es

theorem leaked_exec {es : List DnEvent} (h : machine.Legal s es) : (machine.exec s es).leaked = s.leaked + s.dropped es := by
  induction es generalizing s with
  | nil => exact (add_zero _).symm
  | cons e es ih =>
    have hrest : (machine.exec (s.step e) es).leaked = (s.step e).leaked + (s.step e).dropped es := ih h.2
    have hone := leaked_step h.1
    change (machine.exec (s.step e) es).leaked = s.leaked + ((s.dropsRef e + (s.step e).dropped es : Nat) : Int)
    omega

/-- In every interleaving the count of a request is the number of threads that hold a reference and of
the steps that have dropped theirs, so a thread that waits to free it goes on when all others have
finished, unless a step has dropped one. -/
theorem references_counted (comm : DnReqComm) (es : List DnEvent) (h : machine.Legal (init comm) es) :
    (machine.exec (init comm) es).refCnt =
      weight DnPoint.holdsRef (machine.exec (init comm) es).threads + (init comm).dropped es ∧
    ((machine.exec (init comm) es).refCnt = 0 ↔
      (∀ point, 0 < (machine.exec (init comm) es).threads point → point.holdsRef = 0) ∧ (init comm).dropped es = 0) := by
  have hleak := leaked_exec h
  have hinit : (init comm).leaked = 0 := by
    change (0 : Int) - (weight holdsRef (ThreadPool.enter (fun _ => 0) .subPooled) : Nat) = 0
    rw [weight_enter, weight_zero]
    rfl
  rw [hinit, leaked] at hleak
  refine ⟨by omega, ?_⟩
  rw [← weight_eq_zero_iff]
  omega

/-- A read without payload is sent again under the code of the first send, and its answer is of unknown type. -/
def resentEvents : List DnEvent :=
  [.initDone, .subRefReq, .storeReqID, .subAddWorkQ, .subDerefReq, .peekWorkQ, .peekUpdateState, .sendDone, .sendEnd,
    .connBack, .retryChkDone, .retryAddWorkQ, .retryDerefReq, .peekWorkQ, .peekUpdateState, .sendDone, .findFinalAck,
    .unknownResp]

/-- Both references stay, although no thread is left that holds one. -/
theorem references_counted_resent :
    machine.Legal (init ⟨.read, false, true⟩) resentEvents ∧
    (machine.exec (init ⟨.read, false, true⟩) resentEvents).refCnt =
      weight DnPoint.holdsRef (machine.exec (init ⟨.read, false, true⟩) resentEvents).threads + 2 ∧
    (∀ point, (machine.exec (init ⟨.read, false, true⟩) resentEvents).threads point = 0) := by
  have hlegal : machine.Legal (init ⟨.read, false, true⟩) resentEvents := by decide
  have hdropped : (init ⟨.read, false, true⟩).dropped resentEvents = 2 := by decide
  have hcount := (references_counted ⟨.read, false, true⟩ resentEvents hlegal).1
  rw [hdropped] at hcount
  exact ⟨hlegal, hcount, fun point => by cases point <;> decide⟩

end DnReqRun
end DiscoClient
