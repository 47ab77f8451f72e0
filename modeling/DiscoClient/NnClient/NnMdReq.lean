import DiscoClient.Lib.GuardedMachine
import DiscoClient.Lib.ThreadPool
import DiscoClient.NnClient.NnMdReqFsm
import DiscoClient.Payload.Timeout

/-! One name node metadata request and the threads at work on it: the submitter, the workers of the two
queues, the receiver, the retry when the connection is back, and the timer. A step is what a thread does
between two points where another thread may come in. -/
namespace DiscoClient

def nnReqHbucketSize : Nat := 4001

/-- MIN_NNMDREQ_SCHED_TIME, in seconds. -/
def minNnMdReqSchedTime : UInt64 := 5

/-- Storing a number in an int32_t. -/
def i32 (x : Int) : Int := (x + 2 ^ 31) % 2 ^ 32 - 2 ^ 31

/-- Storing a number in a uint64_t. -/
def u64 (x : Int) : UInt64 := .ofNat (x % 2 ^ 64).toNat

/-- HZ and jiffies_to_msecs, which returns an unsigned int. -/
structure NnTimeConfig where
  hz : Nat
  jiffiesToMsecs : UInt64 → UInt32

def centiseconds : NnTimeConfig := ⟨100, fun j => (j * 10).toUInt32⟩

/-- Who calls NNMDReq_submit_workerQ. -/
inductive NnCaller where
  | submit
  | retry
  deriving DecidableEq, Repr

/-- The worker of the requests that hit the cache does what the receiver does. -/
inductive NnEnder where
  | ack
  | timer
  | retry
  deriving DecidableEq, Repr

inductive NnPoint where
  /-- discoC_acquire_metadata and discoC_report_metadata. -/
  | subInit | subReady
  /-- NNMDReq_submit_workerQ, and the last reference of its callers. -/
  | sched (c : NnCaller) | add (c : NnCaller) | done (c : NnCaller)
  /-- NNClient_send_MDReq. -/
  | peekFail | peeked | fcDone | sent
  /-- NNClient_send_getMDReq_cachehit. -/
  | chPeeked | chSent | chFail
  /-- NNAckProc_acquireMDReq and NNAckProc_reportMDReq. -/
  | cancelling
  /-- NNMDReq_acquire_TOfunc and NNMDReq_report_TOfunc. -/
  | toRef | toFail | toRm | reportRef
  /-- NNMDReq_retry_Req. -/
  | rtCancel | rtChk
  /-- The end function, the last reference and NNMDReq_free_Req. -/
  | calling (w : NnEnder) | ended (w : NnEnder) | freeing (w : NnEnder)
  deriving DecidableEq, Repr

instance : Fintype NnPoint := .ofList
  [.subInit, .subReady, .sched .submit, .sched .retry, .add .submit, .add .retry, .done .submit, .done .retry,
    .peekFail, .peeked, .fcDone, .sent, .chPeeked, .chSent, .chFail, .cancelling, .toRef, .toFail, .toRm, .reportRef,
    .rtCancel, .rtChk, .calling .ack, .calling .timer, .calling .retry, .ended .ack, .ended .timer, .ended .retry,
    .freeing .ack, .freeing .timer, .freeing .retry] fun a => by
  cases a with
  | sched c => cases c <;> decide
  | add c => cases c <;> decide
  | done c => cases c <;> decide
  | calling w => cases w <;> decide
  | ended w => cases w <;> decide
  | freeing w => cases w <;> decide
  | _ => decide

namespace NnPoint

def isLast : NnPoint → Bool
  | .done _ | .peekFail | .sent | .chFail | .toFail | .reportRef => true
  | _ => false

/-- The points of a timer function, for which NNMDReq_cancel_timer waits. -/
def inTimer : NnPoint → Nat
  | .toRef | .toFail | .toRm | .reportRef | .calling .timer | .ended .timer | .freeing .timer => 1
  | _ => 0

end NnPoint

/-- NNMData_Req_t: kind and ID, state machines, reference count and feature bits, the time left, whether it
is in the request pool and in a worker queue, its delayed work, and the spin lock of its bucket. Besides,
the threads at work on it, and how often it was ended and freed. -/
structure NnReqRun where
  acquire : Bool
  cacheHit : Bool
  reqID : UInt32
  fsm : NnReqFsm
  refCnt : Int
  feaInReqPool : Bool
  feaInWorkQ : Bool
  feaSchedTimer : Bool
  lastSubmitT : UInt64
  rToMsec : Int
  ciRToMsec : Int
  inReqPool : Bool
  inWorkQ : Bool
  timerQueued : Bool
  plock : Bool
  threads : NnPoint → Nat
  endCalls : Nat
  freed : Nat

namespace NnReqRun

/-- The request after NNMDReq_init_Req, with the time that NNMDReq_init_endfn gives it. -/
def init (acquire cacheHit : Bool) (reqID : UInt32) (tDur : Int) : NnReqRun where
  acquire := acquire
  cacheHit := cacheHit
  reqID := reqID
  fsm := ⟨.init, .init⟩
  refCnt := 0
  feaInReqPool := true
  feaInWorkQ := false
  feaSchedTimer := false
  lastSubmitT := 0
  rToMsec := i32 (tDur * 1000)
  ciRToMsec := i32 (tDur * 1000)
  inReqPool := true
  inWorkQ := false
  timerQueued := false
  plock := false
  threads := ThreadPool.enter (fun _ => 0) .subInit
  endCalls := 0
  freed := 0

/-- NNMDReq_ref_Req. -/
def refReq (s : NnReqRun) : NnReqRun := { s with refCnt := s.refCnt + 1 }

/-- NNMDReq_deref_Req. -/
def derefReq (s : NnReqRun) : NnReqRun := { s with refCnt := s.refCnt - 1 }

def enter (s : NnReqRun) (b : NnPoint) : NnReqRun := { s with threads := ThreadPool.enter s.threads b }

def leave (s : NnReqRun) (a : NnPoint) : NnReqRun := { s with threads := ThreadPool.leave s.threads a }

def move (s : NnReqRun) (a b : NnPoint) : NnReqRun := { s with threads := ThreadPool.move s.threads a b }

def phase (s : NnReqRun) : NnReqState := s.fsm.phase s.acquire

def action (s : NnReqRun) (e : NnReqEvent) : NnReqAction := (s.fsm.update s.acquire e).2

def updateState (s : NnReqRun) (e : NnReqEvent) : NnReqRun := { s with fsm := (s.fsm.update s.acquire e).1 }

/-- The bucket that NNMDReqPool_acquire_plock returns. -/
def bucket (s : NnReqRun) : Int := (s.reqID.toNat % nnReqHbucketSize : Nat)

/-- NNMDReqPool_acquire_plock. -/
def acquirePlock (s : NnReqRun) : NnReqRun := { s with plock := true }

/-- NNMDReqPool_rel_plock. -/
def relPlock (s : NnReqRun) (lockID : Int) : NnReqRun := if lockID = s.bucket then { s with plock := false } else s

def rmReqPool (s : NnReqRun) : NnReqRun := { s with feaInReqPool := false, inReqPool := s.inReqPool && !s.feaInReqPool }

def rmWorkQ (s : NnReqRun) : NnReqRun := { s with feaInWorkQ := false, inWorkQ := s.inWorkQ && !s.feaInWorkQ }

/-- The time left, in _get_MDReq_schedule_time. -/
def remaining (cfg : NnTimeConfig) (now : UInt64) (s : NnReqRun) : Int :=
  if s.lastSubmitT = 0 then s.rToMsec
  else
    let tDur := if timeAfter64 now s.lastSubmitT then now - s.lastSubmitT else 0
    i32 (s.rToMsec - (cfg.jiffiesToMsecs tDur).toNat)

/-- _get_MDReq_schedule_time, where a division rounds towards zero. -/
def mdReqScheduleTime (cfg : NnTimeConfig) (now : UInt64) (s : NnReqRun) : UInt64 :=
  let retTime := u64 ((i32 (s.remaining cfg now + 999)).tdiv 1000)
  (if retTime ≤ minNnMdReqSchedTime then 0 else retTime) * .ofNat cfg.hz

/-- _get_MDCIReq_schedule_time. -/
def mdCiReqScheduleTime (cfg : NnTimeConfig) (s : NnReqRun) : UInt64 := u64 (i32 (s.ciRToMsec.tdiv 1000 * cfg.hz))

def scheduleTime (cfg : NnTimeConfig) (now : UInt64) (s : NnReqRun) : UInt64 :=
  if s.acquire then s.mdReqScheduleTime cfg now else s.mdCiReqScheduleTime cfg

/-- What _get_MDReq_schedule_time leaves in the request. -/
def chargeTime (cfg : NnTimeConfig) (now : UInt64) (s : NnReqRun) : NnReqRun :=
  { s with
    lastSubmitT := if s.acquire then now else s.lastSubmitT
    rToMsec := if s.acquire then s.remaining cfg now else s.rToMsec }

/-- What NNMDReq_submit_workerQ does with -ETIME: only the retry ends the request then. -/
def outOfTime : NnCaller → NnPoint
  | .submit => .done .submit
  | .retry => .calling .retry

/-- NNMDReq_sched_timer. Its timer cannot be cancelled before the request is queued, so that setting the
feature bit and queueing the work are one step. -/
def schedTimer (cfg : NnTimeConfig) (now : UInt64) (s : NnReqRun) (c : NnCaller) : NnReqRun :=
  let t := s.chargeTime cfg now
  if s.scheduleTime cfg now = 0 then t.move (.sched c) (outOfTime c)
  else if t.feaSchedTimer then t.move (.sched c) (.done c)
  else ({ t with feaSchedTimer := true, timerQueued := true }).move (.sched c) (.add c)

/-- The critical section of NNMDReq_submit_workerQ. -/
def addWorkQ (s : NnReqRun) (c : NnCaller) : NnReqRun :=
  if s.feaInWorkQ then s.move (.add c) (.done c)
  else ({ s with feaInWorkQ := true, inWorkQ := true }).move (.add c) (.done c)

/-- _nnc_peek_MDReq by the worker whose queue the request is in. -/
def peekMDReq (s : NnReqRun) : NnReqRun :=
  let t := (s.refReq.updateState .peekWorkQ).rmWorkQ
  if s.action .peekWorkQ ≠ .doSend then t.enter .peekFail
  else if s.feaInWorkQ = false then t.enter .peekFail
  else t.enter (if s.acquire && s.cacheHit then .chPeeked else .peeked)

/-- One turn of the loop of _nnc_sendMDReq_fccongestion, which reads the state of requests that
acquire metadata. When it is not SENDING, NNClient_send_MDReq returns. -/
def fcWait (s : NnReqRun) (enableFc : Bool) : NnReqRun :=
  if s.fsm.stNnReq ≠ .sending then s.leave .peeked
  else if enableFc then s
  else s.move .peeked .fcDone

/-- _nnc_send_acquireMDReq and _nnc_send_reportMDReq: whether sending succeeds makes no difference to
the request. -/
def sendMDReq (s : NnReqRun) : NnReqRun := (s.updateState .sendDone).move .fcDone .sent

/-- NNMDgetReq_update_state in NNClient_send_getMDReq_cachehit, where all requests acquire metadata. -/
def chSendDone (s : NnReqRun) : NnReqRun :=
  if s.action .sendDone ≠ .doWaitResp then (s.updateState .sendDone).move .chPeeked .chFail
  else (s.updateState .sendDone).move .chPeeked .chSent

/-- NNMDReq_rm_ReqPool. -/
def chRmReqPool (s : NnReqRun) : NnReqRun :=
  let t := s.updateState .findReqOk
  if s.action .findReqOk ≠ .doProcessResp then t.move .chSent .chFail
  else if t.feaInReqPool = false then t.move .chSent .chFail
  else t.rmReqPool.move .chSent .cancelling

/-- NNMDReq_find_ReqPool. -/
def findReqPool (s : NnReqRun) : NnReqRun :=
  let t := s.updateState .findReqOk
  if s.action .findReqOk ≠ .doProcessResp then t
  else if t.feaInReqPool = false then t
  else t.rmReqPool.refReq.enter .cancelling

/-- NNMDReq_cancel_timer. -/
def cancelTimer (s : NnReqRun) : NnReqRun :=
  { s with feaSchedTimer := false, timerQueued := s.timerQueued && !s.feaSchedTimer }

def timerFire (s : NnReqRun) : NnReqRun :=
  (({ s with timerQueued := false }).refReq).enter (if s.acquire then .toRef else .reportRef)

/-- _NNMDReq_TO_chkState, which gives the ID of the request to NNMDReqPool_rel_plock. -/
def toChkState (s : NnReqRun) : NnReqRun :=
  let reqID := i32 s.reqID.toNat
  let t := s.acquirePlock.updateState .timeoutFire
  (if s.action .timeoutFire ≠ .doToProcess then t.move .toRef .toFail
  else if t.feaInReqPool = false then t.move .toRef .toFail
  else t.rmReqPool.move .toRef .toRm).relPlock reqID

/-- _get_NNMDReq_rlist_bk. -/
def connBack (s : NnReqRun) : NnReqRun :=
  if s.action .connBack = .doRetryReq then (s.refReq.updateState .connBack).enter .rtCancel
  else (s.refReq.updateState .connBack).derefReq

/-- _retryReq_update_state in NNMDReq_retry_Req, which returns when it fails. -/
def retryChkDone (s : NnReqRun) : NnReqRun :=
  if s.action .retryChkDone ≠ .doAddWorkQ then (s.updateState .retryChkDone).leave .rtChk
  else (s.updateState .retryChkDone).move .rtChk (.sched .retry)

end NnReqRun

/-- A thread takes its next step or comes to the request: peek if it is queued, find and connBack if it is
in the pool. -/
inductive NnEvent where
  | initDone | subRefReq
  | schedTimer (c : NnCaller) (now : UInt64) | addWorkQ (c : NnCaller)
  | peekMDReq | fcPass | fcWait (enableFc : Bool) | sendMDReq
  | chSendDone | chRmReqPool
  | findReqPool | cancelTimer
  | timerFire | toChkState | toRmWorkQ
  | connBack | rtCancelTimer | retryChkDone
  | giveUp (a : NnPoint)
  | endfn (w : NnEnder) | endDerefReq (w : NnEnder) | freeReq (w : NnEnder)
  deriving DecidableEq, Repr

/-- A thread submits the request at jiffy 1. -/
def NnReqRun.submission : List NnEvent :=
  [.initDone, .subRefReq, .schedTimer .submit 1, .addWorkQ .submit, .giveUp (.done .submit)]

namespace NnEvent

def point : NnEvent → Option NnPoint
  | .initDone => some .subInit
  | .subRefReq => some .subReady
  | .schedTimer c _ => some (.sched c)
  | .addWorkQ c => some (.add c)
  | .fcPass | .fcWait _ => some .peeked
  | .sendMDReq => some .fcDone
  | .chSendDone => some .chPeeked
  | .chRmReqPool => some .chSent
  | .cancelTimer => some .cancelling
  | .toChkState => some .toRef
  | .toRmWorkQ => some .toRm
  | .rtCancelTimer => some .rtCancel
  | .retryChkDone => some .rtChk
  | .giveUp a => some a
  | .endfn w => some (.calling w)
  | .endDerefReq w => some (.ended w)
  | .freeReq w => some (.freeing w)
  | .peekMDReq | .findReqPool | .timerFire | .connBack => none

end NnEvent

namespace NnReqRun

def step (cfg : NnTimeConfig) (s : NnReqRun) : NnEvent → NnReqRun
  | .initDone =>
    if s.action .initDone ≠ .doAddWorkQ then (s.updateState .initDone).leave .subInit
    else (s.updateState .initDone).move .subInit .subReady
  | .subRefReq => s.refReq.move .subReady (.sched .submit)
  | .schedTimer c now => s.schedTimer cfg now c
  | .addWorkQ c => s.addWorkQ c
  | .peekMDReq => s.peekMDReq
  | .fcPass => s.move .peeked .fcDone
  | .fcWait enableFc => s.fcWait enableFc
  | .sendMDReq => s.sendMDReq
  | .chSendDone => s.chSendDone
  | .chRmReqPool => s.chRmReqPool
  | .findReqPool => s.findReqPool
  | .cancelTimer => s.cancelTimer.move .cancelling (.calling .ack)
  | .timerFire => s.timerFire
  | .toChkState => s.toChkState
  | .toRmWorkQ => s.rmWorkQ.move .toRm (.calling .timer)
  | .connBack => s.connBack
  | .rtCancelTimer => s.cancelTimer.move .rtCancel .rtChk
  | .retryChkDone => s.retryChkDone
  | .giveUp a => s.derefReq.leave a
  | .endfn w => ({ s with endCalls := s.endCalls + 1 }).move (.calling w) (.ended w)
  | .endDerefReq w => s.derefReq.move (.ended w) (.freeing w)
  | .freeReq w => ({ s with freed := s.freed + 1 }).leave (.freeing w)

def Ready (s : NnReqRun) : NnEvent → Prop
  | .peekMDReq => s.inWorkQ = true
  | .findReqPool | .connBack => s.inReqPool = true ∧ s.plock = false
  | .chRmReqPool | .toChkState => s.plock = false
  | .timerFire => s.timerQueued = true
  -- cancel_delayed_work_sync waits for a timer function that runs
  | .cancelTimer | .rtCancelTimer => s.feaSchedTimer = true → ThreadPool.weight NnPoint.inTimer s.threads = 0
  | .giveUp a => a.isLast = true
  -- NNMDReq_free_Req waits until nobody refers to the request
  | .freeReq _ => s.refCnt = 0
  | _ => True

instance (s : NnReqRun) (e : NnEvent) : Decidable (s.Ready e) := by
  cases e <;> unfold Ready <;> infer_instance

def machine (cfg : NnTimeConfig) : GuardedMachine NnReqRun NnEvent where
  enabled s e := (∀ a ∈ e.point, 0 < s.threads a) ∧ s.Ready e
  step := step cfg

instance (cfg : NnTimeConfig) (s : NnReqRun) (e : NnEvent) : Decidable ((machine cfg).enabled s e) :=
  inferInstanceAs (Decidable ((∀ a ∈ e.point, 0 < s.threads a) ∧ _))

end NnReqRun
end DiscoClient
