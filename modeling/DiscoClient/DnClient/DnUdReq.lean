import DiscoClient.DnClient.DnSend
import DiscoClient.DnClient.DnUdReqFsm
import DiscoClient.Lib.GuardedMachine
import DiscoClient.Lib.ThreadPool

/-! One data node request and the threads at work on it: submission, the send worker, ack workers, the retry
when a connection is back, and cancellation. A step is one atomic operation, or one critical section of the
pool lock or the queue lock. -/
namespace DiscoClient

inductive DnPoint where
  /-- submit_DNUData_Read_Request and submit_DNUData_Write_Request. -/
  | subPooled | subGranted | subRef | subStored | subQueued
  /-- _DNCWker_peek_Req_workQ, DNCWker_send_DNUDReq. -/
  | peeking | peeked | sending
  /-- _process_dnAck. -/
  | memAck | finalAck | ackFree
  /-- DNClientMgr_resend_DNUDReq. -/
  | retrying | adding | added
  /-- DNUDReq_cancel_Req. -/
  | cancelAgain | cancelRef | cancelRm | cancelFree
  deriving DecidableEq, Repr

instance : Fintype DnPoint := .ofList
  [.subPooled, .subGranted, .subRef, .subStored, .subQueued, .peeking, .peeked, .sending, .memAck, .finalAck,
    .ackFree, .retrying, .adding, .added, .cancelAgain, .cancelRef, .cancelRm, .cancelFree] fun a => by cases a <;> decide

/-- DNUData_Req_t: state, reference count and feature bits, whether it is in the request pool and in a
worker queue, and whether its ID is stored for the caller. Besides, the threads at work on it, the grants,
and how often it left the pool and was freed. -/
structure DnReqRun where
  stat : DnReqState
  comm : DnReqComm
  refCnt : Int
  feaInReqPool : Bool
  feaInWorkQ : Bool
  inReqPool : Bool
  inWorkQ : Bool
  stored : Bool
  threads : DnPoint → Nat
  granted : List (DnReqEvent × DnReqAction)
  poolRms : Nat
  freed : Nat

namespace DnReqRun

/-- The request after DNUDReq_init_Req, which has added it to the pool. -/
def init (comm : DnReqComm) : DnReqRun where
  stat := .init
  comm := comm
  refCnt := 0
  feaInReqPool := true
  feaInWorkQ := false
  inReqPool := true
  inWorkQ := false
  stored := false
  threads := ThreadPool.enter (fun _ => 0) .subPooled
  granted := []
  poolRms := 0
  freed := 0

/-- DNUDReq_ref_Req. -/
def refReq (s : DnReqRun) : DnReqRun := { s with refCnt := s.refCnt + 1 }

/-- DNUDReq_deref_Req. -/
def derefReq (s : DnReqRun) : DnReqRun := { s with refCnt := s.refCnt - 1 }

def enter (s : DnReqRun) (b : DnPoint) : DnReqRun := { s with threads := ThreadPool.enter s.threads b }

def leave (s : DnReqRun) (a : DnPoint) : DnReqRun := { s with threads := ThreadPool.leave s.threads a }

def move (s : DnReqRun) (a b : DnPoint) : DnReqRun := { s with threads := ThreadPool.move s.threads a b }

/-- The action that DNUDReq_update_state returns. -/
def action (s : DnReqRun) (e : DnReqEvent) : DnReqAction := (dnReqUpdateState s.stat e).2

/-- DNUDReq_update_state. -/
def updateState (s : DnReqRun) (e : DnReqEvent) : DnReqRun :=
  { s with
    stat := (dnReqUpdateState s.stat e).1
    granted := if s.action e = .noAction then s.granted else s.granted ++ [(e, s.action e)] }

/-- DNUDReqPool_rmReq_nolock. -/
def rmReqNolock (s : DnReqRun) : DnReqRun := { s with inReqPool := false, poolRms := s.poolRms + 1 }

/-- DNCWker_add_Req_workQ: the request is queued unless its feature bit was set before. -/
def addReqWorkQ (s : DnReqRun) : DnReqRun := { s with feaInWorkQ := true, inWorkQ := s.inWorkQ || !s.feaInWorkQ }

/-- DNCWker_rm_Req_workQ: the request is taken out if its feature bit was set. The send worker
takes a request from its queue in the same way. -/
def rmReqWorkQ (s : DnReqRun) : DnReqRun := { s with feaInWorkQ := false, inWorkQ := s.inWorkQ && !s.feaInWorkQ }

/-- discoC_free_pool at the end of DNUDReq_free_Req. -/
def freePool (s : DnReqRun) : DnReqRun := { s with freed := s.freed + 1 }

/-- _peekReq_update_state, after the request has been taken from the queue. -/
def peekUpdateState (s : DnReqRun) : DnReqRun :=
  if s.action .peekWorkQ = .doSend then (s.updateState .peekWorkQ).move .peeking .peeked
  else ((s.updateState .peekWorkQ).leave .peeking).derefReq

/-- The head of DNCWker_send_DNUDReq. The request is sent even if no longer SENDING; with an unknown
operation code the worker drops it and keeps its reference. -/
def sendDone (s : DnReqRun) : DnReqRun :=
  match s.comm.sendDnUdReq with
  | some comm => ({ s.updateState .sendDone with comm := comm }).move .peeked .sending
  | none => (s.updateState .sendDone).leave .peeked

/-- find_DNUDReq_ReqPool for a memory ack. -/
def findMemAck (s : DnReqRun) : DnReqRun :=
  if s.action .findReqOkMemAck = .doProcessResp then ((s.refReq.updateState .findReqOkMemAck)).enter .memAck
  else (s.refReq.updateState .findReqOkMemAck).derefReq

/-- find_DNUDReq_ReqPool for every other ack. -/
def findFinalAck (s : DnReqRun) : DnReqRun :=
  let t := s.refReq.updateState .findReqOk
  if s.action .findReqOk ≠ .doProcessResp then t.derefReq
  else if t.feaInReqPool = false then t.derefReq
  else ({ t with feaInReqPool := false }).rmReqNolock.enter .finalAck

/-- _get_DNUDReq_rlist_bk for a request to the data node that is back. -/
def connBack (s : DnReqRun) : DnReqRun :=
  if s.action .connBack = .doRetryReq then ((s.updateState .connBack).refReq).enter .retrying
  else s.updateState .connBack

/-- DNUDReq_retry_Req up to its call of DNCWker_add_Req_workQ. -/
def retryChkDone (s : DnReqRun) : DnReqRun :=
  if s.action .retryChkDone = .doAddWorkQ then (s.updateState .retryChkDone).move .retrying .adding
  else ((s.updateState .retryChkDone).leave .retrying).derefReq

/-- The critical section of DNUDReq_cancel_Req, which leaves the feature bit of the pool set. -/
def cancelReq (s : DnReqRun) : DnReqRun :=
  match s.action .cancel with
  | .doCancelReq => ((s.updateState .cancel).refReq.rmReqNolock).enter .cancelRef
  | .doRetryCancelReq => (s.updateState .cancel).enter .cancelAgain
  | _ => s.updateState .cancel

/-- The caller is told to retry; its action is not reset, so it comes again also when the request has left
the pool. -/
def cancelAgain (s : DnReqRun) : DnReqRun := if s.inReqPool then (s.leave .cancelAgain).cancelReq else s

end DnReqRun

/-- A thread takes its next step or comes to the request: peek if it is queued, the finds, connBack and
cancel if it is in the pool. -/
inductive DnEvent where
  | initDone | subRefReq | storeReqID | subAddWorkQ | subDerefReq
  | peekWorkQ | peekUpdateState | sendDone | sendEnd
  | findMemAck | memAckEnd
  | findFinalAck | finalAckEnd (doFree : Bool) | unknownResp | ackFreeReq
  | connBack | retryChkDone | retryAddWorkQ | retryDerefReq
  | cancel | cancelAgain | cancelDerefReq | cancelRmWorkQ | cancelFreeReq
  deriving DecidableEq, Repr

namespace DnEvent

def point : DnEvent → Option DnPoint
  | .initDone => some .subPooled
  | .subRefReq => some .subGranted
  | .storeReqID => some .subRef
  | .subAddWorkQ => some .subStored
  | .subDerefReq => some .subQueued
  | .peekUpdateState => some .peeking
  | .sendDone => some .peeked
  | .sendEnd => some .sending
  | .memAckEnd => some .memAck
  | .finalAckEnd _ | .unknownResp => some .finalAck
  | .ackFreeReq => some .ackFree
  | .retryChkDone => some .retrying
  | .retryAddWorkQ => some .adding
  | .retryDerefReq => some .added
  | .cancelAgain => some .cancelAgain
  | .cancelDerefReq => some .cancelRef
  | .cancelRmWorkQ => some .cancelRm
  | .cancelFreeReq => some .cancelFree
  | .peekWorkQ | .findMemAck | .findFinalAck | .connBack | .cancel => none

end DnEvent

namespace DnReqRun

def step (s : DnReqRun) : DnEvent → DnReqRun
  | .initDone =>
    if s.action .initDone = .doAddWorkQ then (s.updateState .initDone).move .subPooled .subGranted
    else (s.updateState .initDone).leave .subPooled
  | .subRefReq => s.refReq.move .subGranted .subRef
  | .storeReqID => ({ s with stored := true }).move .subRef .subStored
  | .subAddWorkQ => s.addReqWorkQ.move .subStored .subQueued
  | .subDerefReq => s.derefReq.leave .subQueued
  | .peekWorkQ => s.refReq.rmReqWorkQ.enter .peeking
  | .peekUpdateState => s.peekUpdateState
  | .sendDone => s.sendDone
  | .sendEnd => s.derefReq.leave .sending
  | .findMemAck => s.findMemAck
  | .memAckEnd => s.derefReq.leave .memAck
  | .findFinalAck => s.findFinalAck
  | .finalAckEnd true => s.derefReq.move .finalAck .ackFree
  | .finalAckEnd false => s.derefReq.leave .finalAck
  | .unknownResp => s.leave .finalAck
  | .ackFreeReq => s.freePool.leave .ackFree
  | .connBack => s.connBack
  | .retryChkDone => s.retryChkDone
  | .retryAddWorkQ => s.addReqWorkQ.move .adding .added
  | .retryDerefReq => s.derefReq.leave .added
  | .cancel => s.cancelReq
  | .cancelAgain => s.cancelAgain
  | .cancelDerefReq => s.derefReq.move .cancelRef .cancelRm
  | .cancelRmWorkQ => s.rmReqWorkQ.move .cancelRm .cancelFree
  | .cancelFreeReq => s.freePool.leave .cancelFree

def Enabled (s : DnReqRun) (e : DnEvent) : Prop :=
  match e with
  | .peekWorkQ => s.inWorkQ = true
  | .findMemAck | .findFinalAck | .connBack => s.inReqPool = true
  -- the caller knows the ID only once it is stored
  | .cancel => s.inReqPool = true ∧ s.stored = true
  -- DNUDReq_free_Req waits until nobody refers to the request
  | .ackFreeReq => 0 < s.threads .ackFree ∧ s.refCnt = 0
  | .cancelFreeReq => 0 < s.threads .cancelFree ∧ s.refCnt = 0
  | e => ∀ a ∈ e.point, 0 < s.threads a

instance (s : DnReqRun) (e : DnEvent) : Decidable (s.Enabled e) := by
  cases e <;> unfold Enabled <;> infer_instance

def machine : GuardedMachine DnReqRun DnEvent where
  enabled := Enabled
  step := step

instance (s : DnReqRun) (e : DnEvent) : Decidable (machine.enabled s e) := inferInstanceAs (Decidable (s.Enabled e))

end DnReqRun
end DiscoClient
