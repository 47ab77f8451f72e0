import Mathlib.Logic.Basic

/-! State machine of an IO request: discoC_IOReq_fsm.c. An event that a state does not handle is ignored. -/
namespace DiscoClient

/-- IOR_FSM_state_t; START and END only bound the enumeration. -/
inductive IorFsmState where
  | init
  | rwUserData
  | ovlpWait
  | reportMD
  | selfHealing
  | reqDone
  deriving DecidableEq, Repr, Inhabited

/-- IOR_FSM_TREvent_t. -/
inductive IorFsmEvent where
  | initDone
  | ovlpOtherIo
  | ovlpIoDone
  | rwUDataDone
  | reportMDDone
  | healDone
  | ioSegIoDone
  | ioSegReportMDDone
  deriving DecidableEq, Repr

/-- IOR_FSM_action_t. -/
inductive IorFsmAction where
  | noAction
  | addOvlpWaitQ
  | submitIo
  | doReportMD
  | doHealing
  | freeReq
  | ioSegIoDoneCiIor
  | ioSegMDReportDoneCiIor
  deriving DecidableEq, Repr

/-- IOReq_update_state, taken as one step under the state lock. -/
def ioReqUpdateState : IorFsmState → IorFsmEvent → IorFsmState × IorFsmAction
  | .init, .initDone => (.rwUserData, .submitIo)
  | .init, .ovlpOtherIo => (.ovlpWait, .addOvlpWaitQ)
  | .rwUserData, .rwUDataDone => (.reportMD, .doReportMD)
  | .rwUserData, .ioSegIoDone => (.rwUserData, .ioSegIoDoneCiIor)
  | .ovlpWait, .ovlpIoDone => (.rwUserData, .submitIo)
  | .reportMD, .reportMDDone => (.selfHealing, .doHealing)
  | .reportMD, .ioSegReportMDDone => (.reportMD, .ioSegMDReportDoneCiIor)
  | .selfHealing, .healDone => (.reqDone, .freeReq)
  | st, _ => (st, .noAction)

namespace IorFsmState

def Started : IorFsmState → Prop
  | .init => False
  | .ovlpWait => False
  | _ => True

theorem Started.update {st : IorFsmState} (h : st.Started) (e : IorFsmEvent) :
    (ioReqUpdateState st e).1.Started := by
  cases st <;> cases e <;> simp_all [ioReqUpdateState, Started]

end IorFsmState
end DiscoClient
