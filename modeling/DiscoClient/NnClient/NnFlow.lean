import DiscoClient.FlowControl.FlowResource

/-! The metadata requests of a name-node client and the flow control they share: _nnc_sendMDReq_fccongestion
grants a resource, the response or the timer releases it. -/
namespace DiscoClient

/-- A request, and whether it was granted a resource, answered, ended by its timer, or by a late retry. -/
structure FcReq where
  run : NnReqRun
  granted : Bool
  answered : Bool
  timedOut : Bool
  ranOut : Bool

namespace FcReq

def init (acquire cacheHit : Bool) (reqID : UInt32) (tDur : Int) : FcReq :=
  ⟨.init acquire cacheHit reqID tDur, false, false, false, false⟩

def cached (r : FcReq) : Bool := r.run.acquire && r.run.cacheHit

def step (cfg : NnTimeConfig) (r : FcReq) (e : NnEvent) : FcReq where
  run := r.run.step cfg e
  granted := r.granted || decide (e = .fcPass)
  answered := r.answered || decide (e = .cancelTimer)
  timedOut := r.timedOut || decide (e = .endfn .timer)
  ranOut := r.ranOut || decide (e = .endfn .retry)

def isOpen (r : FcReq) : Bool := r.granted && !r.answered && !r.timedOut && !r.ranOut

end FcReq

/-- Outside of _nnc_sendMDReq_fccongestion: parse_namenode_response and NNAckProc_reportMDReq release the
resource when the timer was cancelled, NNMDReq_acquire_TOfunc after the end function. -/
def FcRes.after (res : FcRes) (r : FcReq) : NnEvent → FcRes
  | .cancelTimer => if r.cached then res else res.decResRateMaxReqs
  | .endfn .timer => res.decResRateMaxReqs
  | _ => res

structure NnFlow where
  res : FcRes
  reqs : List FcReq

/-- A request is made or takes a step. bypass is a grant by alloc_res_no_fc, turn a turn of the loop of
_nnc_sendMDReq_fccongestion, which reads enable_fc after the wait. The limits are set from outside. -/
inductive NnFlowEvent where
  | make (acquire cacheHit : Bool) (reqID : UInt32) (tDur : Int)
  | bypass (i : Nat)
  | turn (i : Nat) (currTime ioStartTime : UInt64) (enableFc : Bool)
  | act (i : Nat) (e : NnEvent)
  | limits (isAvailable : Bool) (fcCurrRate fcCurrMaxReqs allocOutResRate : Int)
  deriving DecidableEq

namespace NnFlow

def init (res : FcRes) : NnFlow := ⟨{ res with allocOutResMax := 0 }, []⟩

def stepReq (cfg : NnTimeConfig) (s : NnFlow) (i : Nat) (e : NnEvent) : List FcReq :=
  match s.reqs[i]? with
  | none => s.reqs
  | some r => s.reqs.set i (r.step cfg e)

def turn (cfg : NnTimeConfig) (s : NnFlow) (currTime ioStartTime : UInt64) : FcRes × Int :=
  s.res.shouldTriggerFc cfg.jiffiesToMsecs currTime ioStartTime 1

def step (cfg : NnTimeConfig) (s : NnFlow) : NnFlowEvent → NnFlow
  | .make acquire cacheHit reqID tDur => { s with reqs := s.reqs ++ [.init acquire cacheHit reqID tDur] }
  | .bypass i => ⟨s.res.allocResNoFc 1, s.stepReq cfg i .fcPass⟩
  | .turn i currTime ioStartTime enableFc =>
    let out := s.turn cfg currTime ioStartTime
    ⟨out.1, s.stepReq cfg i (if out.2 = fcNoBlock then .fcPass else .fcWait enableFc)⟩
  | .act i e =>
    match s.reqs[i]? with
    | none => s
    | some r => ⟨s.res.after r e, s.reqs.set i (r.step cfg e)⟩
  | .limits isAvailable fcCurrRate fcCurrMaxReqs allocOutResRate =>
    { s with res := ⟨isAvailable, fcCurrRate, fcCurrMaxReqs, allocOutResRate, s.res.allocOutResMax⟩ }

/-- The steps that act takes. The name node only answers what was sent to it. -/
def acts (r : FcReq) : NnEvent → Bool
  | .fcPass => false
  | .fcWait _ => false
  | .findReqPool => !r.cached
  | _ => true

def enabled (cfg : NnTimeConfig) (s : NnFlow) : NnFlowEvent → Prop
  | .make _ _ _ _ => True
  | .bypass i => ∃ r ∈ s.reqs[i]?, 0 < r.run.threads .peeked
  | .turn i _ _ _ => ∃ r ∈ s.reqs[i]?, 0 < r.run.threads .peeked
  | .act i e => ∃ r ∈ s.reqs[i]?, (NnReqRun.machine cfg).enabled r.run e ∧ acts r e = true
  | .limits _ _ _ _ => True

def machine (cfg : NnTimeConfig) : GuardedMachine NnFlow NnFlowEvent where
  enabled := enabled cfg
  step := step cfg

structure Balanced (s : NnFlow) : Prop where
  count : s.res.allocOutResMax = s.reqs.countP (·.isOpen)
  nonneg : 0 ≤ s.res.allocOutResMax

def Ungranted (r : FcReq) : Prop :=
  r.granted = false ∧ r.answered = false ∧ r.timedOut = false ∧ r.ranOut = false

def endsOrderly (r : FcReq) : NnEvent → Bool
  | .endfn .timer => r.granted
  | .endfn .retry => !r.granted
  | _ => true

/-- A request is granted a resource once and before it ends, and flow control stays on while it waits. -/
def Orderly (cfg : NnTimeConfig) (s : NnFlow) : NnFlowEvent → Prop
  | .bypass i => ∀ r ∈ s.reqs[i]?, Ungranted r
  | .turn i currTime ioStartTime enableFc =>
    ∀ r ∈ s.reqs[i]?,
      if (s.turn cfg currTime ioStartTime).2 = fcNoBlock then Ungranted r
      else enableFc = true ∨ r.run.fsm.stNnReq ≠ .sending ∨ r.granted = true
  | .act i e => ∀ r ∈ s.reqs[i]?, endsOrderly r e = true
  | _ => True

end NnFlow
end DiscoClient
