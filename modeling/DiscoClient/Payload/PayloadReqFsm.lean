import Mathlib.Logic.Basic

/-! State machine of a payload request: payload_request_fsm.c. -/
namespace DiscoClient

/-- PLREQ_FSM_state_t; START and END only bound the enumeration. -/
inductive PlReqState where
  | init
  | waitIoDone
  | ciCaller
  | toCheck
  deriving DecidableEq, Repr

/-- PLREQ_FSM_TREvent_t. -/
inductive PlReqEvent where
  | initDone
  | ciCaller
  | toFireChk
  | toFireChkDone
  deriving DecidableEq, Repr

/-- PLREQ_FSM_action_t, without its bounds. -/
inductive PlReqAction where
  | noAction
  | rwData
  | doCiCaller
  | doToFireChk
  | doWaitData
  deriving DecidableEq, Repr

def PlReqEvent.ofCode : Nat → Option PlReqEvent
  | 0 => some .initDone
  | 1 => some .ciCaller
  | 2 => some .toFireChk
  | 3 => some .toFireChkDone
  | _ => none

/-- The numbers of the actions; PLREQ_A_START is 0. -/
def PlReqAction.code : PlReqAction → Nat
  | .noAction => 1
  | .rwData => 2
  | .doCiCaller => 3
  | .doToFireChk => 4
  | .doWaitData => 5

/-- PLReq_update_state, taken as one step under the state lock. -/
def plReqUpdateState : PlReqState → PlReqEvent → PlReqState × PlReqAction
  | .init, .initDone => (.waitIoDone, .rwData)
  | .waitIoDone, .ciCaller => (.ciCaller, .doCiCaller)
  | .waitIoDone, .toFireChk => (.toCheck, .doToFireChk)
  | .toCheck, .ciCaller => (.ciCaller, .doCiCaller)
  | .toCheck, .toFireChkDone => (.waitIoDone, .doWaitData)
  | st, _ => (st, .noAction)

/-- PLReq_update_state called with a number: the timeout handlers pass an action where an
event is expected. -/
def plReqUpdateStateCode (st : PlReqState) (code : Nat) : PlReqState × PlReqAction :=
  match PlReqEvent.ofCode code with
  | some e => plReqUpdateState st e
  | none => (st, .noAction)

end DiscoClient
