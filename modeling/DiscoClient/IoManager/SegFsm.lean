import Mathlib.Logic.Basic

/-! State machine of a segment request: discoC_ioSegReq_fsm.c. -/
namespace DiscoClient

/-- IOSegREQ_FSM_state_t; START and END only bound the enumeration. -/
inductive SegFsmState where
  | init
  | wAcqMD
  | wUD
  | rAcqMD
  | rUD
  | aTrueMDProc
  | ci2IoSeg
  | ci2IoR
  deriving DecidableEq, Repr

/-- IOSegREQ_FSM_TREvent_t. -/
inductive SegFsmEvent where
  | init4KW
  | wAcqMDDone
  | wAllPLDone
  | initR
  | rAcqMDDone
  | rAllPLDone
  | wRPhaseDone
  | rRPhaseDone
  | mdudUnsync
  | aTrueMDDone
  deriving DecidableEq, Repr

/-- IOSegREQ_FSM_action_t. -/
inductive SegFsmAction where
  | noAction
  | retryTR
  | wAcqMD
  | doWUD
  | rAcqMD
  | doRUD
  | doATrueMDProc
  | doCi2IoSegReq
  | doCi2IoReq
  deriving DecidableEq, Repr

/-- IOSegReq_update_state, taken as one step under the state lock. -/
def ioSegReqUpdateState : SegFsmState → SegFsmEvent → SegFsmState × SegFsmAction
  | .init, .init4KW => (.wAcqMD, .wAcqMD)
  | .init, .initR => (.rAcqMD, .rAcqMD)
  | .wAcqMD, .wAcqMDDone => (.wUD, .doWUD)
  | .wUD, .wAllPLDone => (.ci2IoR, .doCi2IoReq)
  | .rAcqMD, .rAcqMDDone => (.rUD, .doRUD)
  | .rUD, .rAllPLDone => (.ci2IoSeg, .doCi2IoSegReq)
  | .rUD, .mdudUnsync => (.aTrueMDProc, .doATrueMDProc)
  | .aTrueMDProc, .rAllPLDone => (.aTrueMDProc, .retryTR)
  | .aTrueMDProc, .mdudUnsync => (.aTrueMDProc, .retryTR)
  | .aTrueMDProc, .aTrueMDDone => (.rUD, .doRUD)
  | .ci2IoSeg, .wRPhaseDone => (.wAcqMD, .wAcqMD)
  | .ci2IoSeg, .rRPhaseDone => (.ci2IoR, .doCi2IoReq)
  | st, _ => (st, .noAction)

end DiscoClient
