import DiscoClient.NnClient.NnQueueingStep

namespace DiscoClient
open ThreadPool

namespace NnPoint

def holdsRef : NnPoint → Nat
  | .subInit | .subReady | .freeing _ => 0
  | _ => 1

end NnPoint

namespace NnReqRun
variable {s : NnReqRun} {e : NnEvent} {cfg : NnTimeConfig}

def leaked (s : NnReqRun) : Int := surplus NnPoint.holdsRef s.refCnt s.threads

/-- The steps that return without giving their reference back: a send worker that flow control holds
back finds a state other than SENDING, and a retry is refused. -/
def dropsRef (s : NnReqRun) : NnEvent → Nat
  | .fcWait _ => if s.fsm.stNnReq ≠ .sending then 1 else 0
  | .retryChkDone => if s.action .retryChkDone ≠ .doAddWorkQ then 1 else 0
  | _ => 0

theorem leaked_step (he : (machine cfg).enabled s e) : (s.step cfg e).leaked = s.leaked + s.dropsRef e := by
  obtain ⟨hpoint, hready⟩ := he
  cases e with
  | initDone =>
    rw [step]
    split_ifs
    · exact surplus_leave (hpoint _ rfl) rfl rfl
    · exact surplus_kept (hpoint _ rfl) rfl rfl rfl
  | subRefReq => exact surplus_move (hpoint _ rfl) rfl (by simp [step, refReq, move, NnPoint.holdsRef, dropsRef])
  | schedTimer c now =>
    rw [step, NnReqRun.schedTimer]
    split_ifs
    · cases c <;> exact surplus_kept (hpoint _ rfl) rfl rfl rfl
    · exact surplus_kept (hpoint _ rfl) rfl rfl rfl
    · exact surplus_kept (hpoint _ rfl) rfl rfl rfl
  | addWorkQ c =>
    rw [step, NnReqRun.addWorkQ]
    split_ifs <;> exact surplus_kept (hpoint _ rfl) rfl rfl rfl
  | peekMDReq =>
    rw [step, NnReqRun.peekMDReq]
    split_ifs
    all_goals exact surplus_ref rfl rfl rfl
  | fcPass | cancelTimer | toRmWorkQ | rtCancelTimer =>
    exact surplus_kept (hpoint _ rfl) rfl rfl rfl
  | fcWait enableFc =>
    rw [step, NnReqRun.fcWait, dropsRef]
    split_ifs
    · exact surplus_leave (hpoint _ rfl) rfl rfl
    · exact (add_zero _).symm
    · exact surplus_kept (hpoint _ rfl) rfl rfl rfl
  | sendMDReq => exact surplus_kept (hpoint _ rfl) rfl rfl rfl
  | chSendDone =>
    rw [step, NnReqRun.chSendDone]
    split_ifs <;> exact surplus_kept (hpoint _ rfl) rfl rfl rfl
  | chRmReqPool =>
    rw [step, NnReqRun.chRmReqPool]
    split_ifs <;> exact surplus_kept (hpoint _ rfl) rfl rfl rfl
  | findReqPool =>
    rw [step, NnReqRun.findReqPool]
    split_ifs
    · exact (add_zero _).symm
    · exact (add_zero _).symm
    · exact surplus_ref rfl rfl rfl
  | timerFire =>
    refine surplus_ref rfl rfl ?_
    split_ifs <;> rfl
  | toChkState =>
    rw [step, NnReqRun.toChkState, NnReqRun.relPlock]
    split_ifs <;> exact surplus_kept (hpoint _ rfl) rfl rfl rfl
  | connBack =>
    rw [step, NnReqRun.connBack]
    split_ifs
    · exact surplus_ref rfl rfl rfl
    · change surplus NnPoint.holdsRef (s.refCnt + 1 - 1) s.threads = s.leaked + (0 : Nat)
      rw [add_sub_cancel_right]
      exact (add_zero _).symm
  | retryChkDone =>
    rw [step, NnReqRun.retryChkDone, dropsRef]
    split_ifs
    · exact surplus_leave (hpoint _ rfl) rfl rfl
    · exact surplus_kept (hpoint _ rfl) rfl rfl rfl
  | giveUp a =>
    have hlast : a.holdsRef = 1 := by
      cases a <;> first | rfl | cases hready
    exact surplus_deref (hpoint _ rfl) rfl rfl hlast
  | endfn w => exact surplus_kept (hpoint _ rfl) rfl rfl rfl
  | endDerefReq w => exact surplus_move (hpoint _ rfl) rfl (by simp [step, derefReq, move, NnPoint.holdsRef, dropsRef])
  | freeReq w => exact surplus_leave (hpoint _ rfl) rfl rfl

end NnReqRun
end DiscoClient
