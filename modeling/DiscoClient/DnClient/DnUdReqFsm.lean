import Mathlib.Logic.Basic

/-! State machine of a data node request: discoC_DNUDReq_fsm.c. -/
namespace DiscoClient

/-- DNUDREQ_FSM_state_t; START and END only bound the enumeration. -/
inductive DnReqState where
  | init
  | waitSend
  | sending
  | waitResp
  | processResp
  | retryReq
  | cancelReq
  deriving DecidableEq, Repr

/-- DNUDREQ_FSM_TREvent_t. -/
inductive DnReqEvent where
  | initDone
  | peekWorkQ
  | sendDone
  | findReqOkMemAck
  | findReqOk
  | connBack
  | retryChkDone
  | cancel
  deriving DecidableEq, Repr

/-- DNUDREQ_FSM_action_t, without its bounds. -/
inductive DnReqAction where
  | noAction
  | doAddWorkQ
  | doSend
  | doWaitResp
  | doProcessResp
  | doRetryReq
  | doCancelReq
  | doRetryCancelReq
  deriving DecidableEq, Repr

/-- DNUDReq_update_state, taken as one step under the state lock. -/
def dnReqUpdateState : DnReqState → DnReqEvent → DnReqState × DnReqAction
  | .init, .initDone => (.waitSend, .doAddWorkQ)
  | .waitSend, .peekWorkQ => (.sending, .doSend)
  | .waitSend, .cancel => (.cancelReq, .doCancelReq)
  | .sending, .sendDone => (.waitResp, .doWaitResp)
  | .sending, .cancel => (.cancelReq, .doCancelReq)
  | .waitResp, .findReqOkMemAck => (.waitResp, .doProcessResp)
  | .waitResp, .findReqOk => (.processResp, .doProcessResp)
  | .waitResp, .connBack => (.retryReq, .doRetryReq)
  | .waitResp, .cancel => (.cancelReq, .doCancelReq)
  | .retryReq, .retryChkDone => (.waitSend, .doAddWorkQ)
  | .retryReq, .cancel => (.cancelReq, .doRetryCancelReq)
  | st, _ => (st, .noAction)

def DnReqState.isFinal : DnReqState → Bool
  | .processResp | .cancelReq => true
  | _ => false

def DnReqEvent.endsBy : DnReqEvent → DnReqAction → Bool
  | .findReqOk, .doProcessResp | .cancel, .doCancelReq => true
  | _, _ => false

theorem dnReqUpdateState_of_isFinal {st : DnReqState} (h : st.isFinal = true) (e : DnReqEvent) :
    dnReqUpdateState st e = (st, .noAction) := by
  cases st <;> first | rfl | cases h

theorem isFinal_of_endsBy {st : DnReqState} {e : DnReqEvent} (h : e.endsBy (dnReqUpdateState st e).2 = true) :
    (dnReqUpdateState st e).1.isFinal = true := by
  cases e with
  | findReqOk | cancel => cases st <;> first | rfl | cases h
  | initDone | peekWorkQ | sendDone | findReqOkMemAck | connBack | retryChkDone => cases st <;> cases h

end DiscoClient
