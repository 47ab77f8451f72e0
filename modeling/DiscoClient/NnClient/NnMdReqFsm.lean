import Mathlib.Data.List.Basic

/-! The two state machines of a name node metadata request: discoC_NNMDReq_fsm.c. Only the one of
requests that acquire metadata knows of a timeout. -/
namespace DiscoClient

/-- NNMDgetReq_FSM_state_t. -/
inductive NnReqState where
  | init
  | waitSend
  | sending
  | waitResp
  | processResp
  | retryReq
  | timeoutFire
  deriving DecidableEq, Repr

/-- NNMDgetReq_FSM_TREvent_t. -/
inductive NnReqEvent where
  | initDone
  | peekWorkQ
  | sendDone
  | findReqOk
  | timeoutFire
  | connBack
  | retryChkDone
  deriving DecidableEq, Repr

/-- NNMDgetReq_FSM_action_t. -/
inductive NnReqAction where
  | noAction
  | doAddWorkQ
  | doSend
  | doWaitResp
  | doProcessResp
  | doToProcess
  | doRetryReq
  deriving DecidableEq, Repr

def nnMDgetReqUpdateState : NnReqState → NnReqEvent → NnReqState × NnReqAction
  | .init, .initDone => (.waitSend, .doAddWorkQ)
  | .waitSend, .peekWorkQ => (.sending, .doSend)
  | .waitSend, .timeoutFire => (.timeoutFire, .doToProcess)
  | .sending, .sendDone => (.waitResp, .doWaitResp)
  | .sending, .timeoutFire => (.timeoutFire, .doToProcess)
  | .waitResp, .findReqOk => (.processResp, .doProcessResp)
  | .waitResp, .timeoutFire => (.timeoutFire, .doToProcess)
  | .waitResp, .connBack => (.retryReq, .doRetryReq)
  | .retryReq, .retryChkDone => (.waitSend, .doAddWorkQ)
  | st, _ => (st, .noAction)

/-- NNMDciReq_FSM_state_t. -/
inductive NnCiReqState where
  | init
  | waitSend
  | sending
  | waitResp
  | processResp
  | retryReq
  deriving DecidableEq, Repr

/-- NNMDciReq_FSM_TREvent_t. -/
inductive NnCiReqEvent where
  | initDone
  | peekWorkQ
  | sendDone
  | findReqOk
  | connBack
  | retryChkDone
  deriving DecidableEq, Repr

/-- NNMDciReq_FSM_action_t. -/
inductive NnCiReqAction where
  | noAction
  | doAddWorkQ
  | doSend
  | doWaitResp
  | doProcessResp
  | doRetryReq
  deriving DecidableEq, Repr

def nnMDciReqUpdateState : NnCiReqState → NnCiReqEvent → NnCiReqState × NnCiReqAction
  | .init, .initDone => (.waitSend, .doAddWorkQ)
  | .waitSend, .peekWorkQ => (.sending, .doSend)
  | .sending, .sendDone => (.waitResp, .doWaitResp)
  | .waitResp, .findReqOk => (.processResp, .doProcessResp)
  | .waitResp, .connBack => (.retryReq, .doRetryReq)
  | .retryReq, .retryChkDone => (.waitSend, .doAddWorkQ)
  | st, _ => (st, .noAction)

def NnCiReqState.toGet : NnCiReqState → NnReqState
  | .init => .init
  | .waitSend => .waitSend
  | .sending => .sending
  | .waitResp => .waitResp
  | .processResp => .processResp
  | .retryReq => .retryReq

def NnCiReqAction.toGet : NnCiReqAction → NnReqAction
  | .noAction => .noAction
  | .doAddWorkQ => .doAddWorkQ
  | .doSend => .doSend
  | .doWaitResp => .doWaitResp
  | .doProcessResp => .doProcessResp
  | .doRetryReq => .doRetryReq

def NnReqEvent.toCi : NnReqEvent → Option NnCiReqEvent
  | .initDone => some .initDone
  | .peekWorkQ => some .peekWorkQ
  | .sendDone => some .sendDone
  | .findReqOk => some .findReqOk
  | .timeoutFire => none
  | .connBack => some .connBack
  | .retryChkDone => some .retryChkDone

theorem nnMDciReqUpdateState_toGet (st : NnCiReqState) {e : NnReqEvent} {c : NnCiReqEvent} (h : e.toCi = some c) :
    nnMDgetReqUpdateState st.toGet e = ((nnMDciReqUpdateState st c).1.toGet, (nnMDciReqUpdateState st c).2.toGet) := by
  cases e <;> cases h <;> cases st <;> rfl

/-- NNMDReq_fsm_t; NNMDReq_init_fsm starts both machines. -/
structure NnReqFsm where
  stNnReq : NnReqState
  stNnCiReq : NnCiReqState
  deriving DecidableEq, Repr

namespace NnReqFsm
variable {fsm : NnReqFsm} {acquire : Bool} {e : NnReqEvent}

def phase (acquire : Bool) (fsm : NnReqFsm) : NnReqState := if acquire then fsm.stNnReq else fsm.stNnCiReq.toGet

/-- The call of NNMDgetReq_update_state or NNMDciReq_update_state, whichever the request uses. -/
def update (acquire : Bool) (fsm : NnReqFsm) (e : NnReqEvent) : NnReqFsm × NnReqAction :=
  if acquire then
    let (st, action) := nnMDgetReqUpdateState fsm.stNnReq e
    ({ fsm with stNnReq := st }, action)
  else
    match e.toCi with
    | none => (fsm, .noAction)
    | some c =>
      let (st, action) := nnMDciReqUpdateState fsm.stNnCiReq c
      ({ fsm with stNnCiReq := st }, action.toGet)

theorem update_of_granted (h : (update acquire fsm e).2 ≠ .noAction) :
    nnMDgetReqUpdateState (phase acquire fsm) e = (phase acquire (update acquire fsm e).1, (update acquire fsm e).2) := by
  cases acquire with
  | true => rfl
  | false =>
    cases hci : e.toCi with
    | none =>
      rw [update, hci] at h
      exact absurd rfl h
    | some c =>
      rw [update, hci]
      exact nnMDciReqUpdateState_toGet fsm.stNnCiReq hci

theorem update_action (h : e ≠ .timeoutFire) :
    (update acquire fsm e).2 = (nnMDgetReqUpdateState (phase acquire fsm) e).2 := by
  cases acquire with
  | true => rfl
  | false =>
    cases hci : e.toCi with
    | none => cases e <;> first | exact absurd rfl h | cases hci
    | some c =>
      rw [update, hci]
      exact (congrArg Prod.snd (nnMDciReqUpdateState_toGet fsm.stNnCiReq hci)).symm

theorem update_of_refused (h : (update acquire fsm e).2 = .noAction) : (update acquire fsm e).1 = fsm := by
  obtain ⟨get, ci⟩ := fsm
  cases acquire
  · cases e <;> cases ci <;> first | rfl | cases h
  · cases e <;> cases get <;> first | rfl | cases h

end NnReqFsm

namespace NnReqEvent

def grant : NnReqEvent → NnReqAction
  | .initDone => .doAddWorkQ
  | .peekWorkQ => .doSend
  | .sendDone => .doWaitResp
  | .findReqOk => .doProcessResp
  | .timeoutFire => .doToProcess
  | .connBack => .doRetryReq
  | .retryChkDone => .doAddWorkQ

def sources : NnReqEvent → List NnReqState
  | .initDone => [.init]
  | .peekWorkQ => [.waitSend]
  | .sendDone => [.sending]
  | .findReqOk => [.waitResp]
  | .timeoutFire => [.waitSend, .sending, .waitResp]
  | .connBack => [.waitResp]
  | .retryChkDone => [.retryReq]

def target : NnReqEvent → NnReqState
  | .initDone => .waitSend
  | .peekWorkQ => .sending
  | .sendDone => .waitResp
  | .findReqOk => .processResp
  | .timeoutFire => .timeoutFire
  | .connBack => .retryReq
  | .retryChkDone => .waitSend

end NnReqEvent

theorem nnMDgetReqUpdateState_eq (st : NnReqState) (e : NnReqEvent) :
    nnMDgetReqUpdateState st e = if st ∈ e.sources then (e.target, e.grant) else (st, .noAction) := by
  cases st <;> cases e <;> rfl

theorem NnReqEvent.grant_ne (e : NnReqEvent) : e.grant ≠ .noAction := by
  cases e <;> decide

def NnReqState.isFinal : NnReqState → Bool
  | .processResp | .timeoutFire => true
  | _ => false

theorem NnReqEvent.sources_not_final {e : NnReqEvent} {st : NnReqState} (h : st ∈ e.sources) : st.isFinal = false := by
  have hall : ∀ st ∈ e.sources, st.isFinal = false := by cases e <;> decide
  exact hall st h

end DiscoClient
