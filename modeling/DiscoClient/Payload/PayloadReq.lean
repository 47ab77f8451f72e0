import DiscoClient.Common.SysDef
import DiscoClient.Lib.CyclicScan
import DiscoClient.Metadata.ReadStatus
import DiscoClient.Payload.PayloadReqFsm

/-! Payload requests: the buckets of their data node requests, the choice of the replica
to read, and the end of a request. -/
namespace DiscoClient

/-- PLREQ_READ_TO_CNT: how often the timer of a request may fire. -/
def plReqReadToCnt : Nat := 5

structure DnUdReq where
  id : Nat
  bkIdx : Nat
  dnLocIdx : Nat
  deriving DecidableEq, Repr

/-- Calls of the functions a caller registers in PLReq_func_t. -/
inductive PlCall where
  | ciUser (numLb : Nat) (ioRes : Bool)
  | cpData
  | reportMDErr (numLb : Nat)
  | endReq (lbLen : Nat) (ioRes : Bool) (numFailDn : Nat)
  deriving DecidableEq, Repr

def PlCall.isEnd : PlCall → Bool
  | .endReq _ _ _ => true
  | _ => false

/-- payload_req_t with its metadata item, the data node requests whose results are still to come, the replicas
it was read from, the calls it has made and the IDs it has handed to DNClientMgr_cancel_DNUDReq. Jiffies are
uint64_t. An ID is taken to be new: DNClientMgr_gen_DNUDReqID counts in a uint32_t and skips 0, and a wrapped
ID is one that no outstanding request has. -/
structure PayloadReq where
  opcode : IoDir
  mdItem : MdItem
  trueMD : Bool
  numHbids : Nat
  stat : PlReqState
  rToChkCnt : Int
  tCiCaller : UInt64
  timerOn : Bool
  inReqPool : Bool
  inCallerPool : Bool
  numDnUdReq : Int
  arrDnUdReq : Nat → Option Nat
  lastReadReplicaIdx : Nat
  lastReadDnBkIdx : Nat
  numReadFailDn : Nat
  dnReqs : List DnUdReq
  nextDnReqID : Nat
  tried : List Nat
  calls : List PlCall
  cancelled : List Nat
  freed : Nat

namespace PayloadReq

/-- PLReq_allocBK_DNUDReq. -/
def allocBkDnUdReq (p : PayloadReq) : PayloadReq × Int :=
  let bkIdx := p.numDnUdReq
  ({ p with numDnUdReq := p.numDnUdReq + 1 }, if bkIdx ≥ maxNumReplica then -1 else bkIdx)

/-- PLReq_rm_DNUDReq. -/
def rmDnUdReq (p : PayloadReq) (bkIdx : Nat) : PayloadReq :=
  { p with arrDnUdReq := Function.update p.arrDnUdReq bkIdx none, numDnUdReq := p.numDnUdReq - 1 }

/-- What PLReq_cancel_DNUDReq and _PLReq_free_allDNReq do for bucket i. After DNClientMgr_cancel_DNUDReq no
result of the request comes: the DN client frees it, or leaves it in its pool in a state that lets no ack
through. -/
def cancelBucket (bkSkip : Option Nat) (p : PayloadReq) (i : Nat) : PayloadReq :=
  if bkSkip = some i then p
  else
    match p.arrDnUdReq i with
    | none => p
    | some id =>
      { p.rmDnUdReq i with
        dnReqs := p.dnReqs.filter fun d => decide (d.id ≠ id)
        cancelled := p.cancelled ++ [id] }

/-- Their loop over the buckets. -/
def cancelBuckets (p : PayloadReq) (bkSkip : Option Nat) : PayloadReq :=
  (List.range maxNumReplica).foldl (cancelBucket bkSkip) p

/-- PLReq_cancel_DNUDReq. -/
def cancelDnUdReq (p : PayloadReq) (bkSkip : Option Nat) : PayloadReq :=
  if p.numDnUdReq = (if bkSkip = none then 0 else 1) then p else p.cancelBuckets bkSkip

/-- PLMgr_free_PLReq, with the references to the request gone. -/
def freePlReq (p : PayloadReq) : PayloadReq :=
  let p := if p.numDnUdReq = 0 then p else p.cancelBuckets none
  { p with freed := p.freed + 1 }

/-- The feature PLREQ_FEA_TIMER_ON is cleared. -/
def clearTimerOn (p : PayloadReq) : PayloadReq := { p with timerOn := false }

/-- PLReq_cancel_timer in a thread of the DN client: cancel_delayed_work_sync returns once the handler of the
timer is not running. The handler itself does not come back from it. -/
def cancelTimer (p : PayloadReq) : PayloadReq := p.clearTimerOn

/-- PLReq_rm_ReqPool. -/
def rmReqPool (p : PayloadReq) : PayloadReq := { p with inReqPool := false }

/-- The call of rm_PLReq_CallerReq. -/
def rmCallerReq (p : PayloadReq) : PayloadReq := { p with inCallerPool := false }

def call (p : PayloadReq) (c : PlCall) : PayloadReq := { p with calls := p.calls ++ [c] }

/-- get_next_DN_index, when the client does not run in its self test mode. -/
def getNextDnIndex (md : MdItem) (startIndex : Nat) : Option Nat :=
  (cyclicFrom md.numDnLoc startIndex).find? fun i => decide (md.udataStatus i = .init)

/-- submit_DNUData_Read_Request; its allocations succeed. -/
def submitDnUDataReadRequest (p : PayloadReq) (dnLocIdx bkIdx : Nat) : PayloadReq :=
  { p with
    arrDnUdReq := Function.update p.arrDnUdReq bkIdx (some p.nextDnReqID)
    dnReqs := p.dnReqs ++ [⟨p.nextDnReqID, bkIdx, dnLocIdx⟩]
    nextDnReqID := p.nextDnReqID + 1
    tried := p.tried ++ [dnLocIdx] }

/-- _gen_submit_DNReadReq: false stands for a negative return value. -/
def genSubmitDnReadReq (p : PayloadReq) (dnLocIdx : Nat) (bkIdx : Int) : PayloadReq × Bool :=
  match getNextDnIndex p.mdItem dnLocIdx with
  | none => (p, false)
  | some i =>
    if i ≥ p.mdItem.numDnLoc then (p, false)
    else if bkIdx ≥ p.mdItem.numDnLoc ∨ bkIdx < 0 then (p, false)
    else
      (({ p with lastReadReplicaIdx := i, lastReadDnBkIdx := bkIdx.toNat }).submitDnUDataReadRequest
        i bkIdx.toNat, true)

/-- PLMgr_submit_DNUDReadReq. The bucket stays counted when the submission fails. -/
def submitDnUdReadReq (p : PayloadReq) (replicaIdx : Nat) : PayloadReq × Bool :=
  let (p, bkIdx) := p.allocBkDnUdReq
  p.genSubmitDnReadReq replicaIdx bkIdx

/-- _PLReq_read_ciCaller. -/
def readCiCaller (p : PayloadReq) (ioResult : Bool) : PayloadReq :=
  p.rmReqPool.rmCallerReq.call (.endReq p.numHbids ioResult p.numReadFailDn)

/-- _submit_read_PLReq for an item with n replicas, of which PLMgr_Read_selectDN chooses
the first to read. -/
def submitReadPlReq (n replicaIdx numHbids : Nat) (trueMD : Bool) : PayloadReq :=
  (submitDnUdReadReq
    { opcode := .read
      mdItem := .init n
      trueMD := trueMD
      numHbids := numHbids
      stat := (plReqUpdateState .init .initDone).1
      rToChkCnt := plReqReadToCnt
      tCiCaller := 0
      timerOn := true
      inReqPool := true
      inCallerPool := true
      numDnUdReq := 0
      arrDnUdReq := fun _ => none
      lastReadReplicaIdx := 0
      lastReadDnBkIdx := 0
      numReadFailDn := 0
      dnReqs := []
      nextDnReqID := 1
      tried := []
      calls := []
      cancelled := []
      freed := 0 } replicaIdx).1

end PayloadReq
end DiscoClient
