import DiscoClient.DnClient.DnAck
import DiscoClient.Lib.RefTrace
import DiscoClient.Payload.Release

namespace DiscoClient

inductive PlRef where
  | payload
  | dn (id : Nat)
  deriving DecidableEq, Repr

abbrev PlTrace := List (RefEvent PlRef)

/-- The state in which a cancellation finds each data node request, if it is in the pool. -/
abbrev DnPoolView := Nat → Option DnReqState

namespace DnPoolView

/-- The state machine lets DNUDReq_cancel_Req take the request. -/
def grants (pool : DnPoolView) (id : Nat) : Bool :=
  match pool id with
  | none => false
  | some st => (dnReqUpdateState st .cancel).2 = .doCancelReq

/-- DNUDReq_cancel_Req: DNUDReq_free_Req waits for the other references. -/
def cancelReq (pool : DnPoolView) (id : Nat) : PlTrace :=
  if pool.grants id then [.ref (.dn id), .deref (.dn id), .wait (.dn id)] else []

def cancelReqs (pool : DnPoolView) (ids : List Nat) : PlTrace := ids.flatMap pool.cancelReq

end DnPoolView

namespace PayloadReq

/-- The IDs handed to DNClientMgr_cancel_DNUDReq since the request was p. -/
def idsSince (p q : PayloadReq) : List Nat := q.cancelled.drop p.cancelled.length

/-- PLMgr_free_PLReq, with the wait of PLReq_free_Req. -/
def freeTrace (pool : DnPoolView) (p : PayloadReq) : PlTrace := pool.cancelReqs (p.idsSince p.freePlReq) ++ [.wait .payload]

/-- The references submit_DNUData_Read_Request holds on the requests that p has submitted until it
is q. -/
def submitTrace (p q : PayloadReq) : PlTrace :=
  (List.range' p.nextDnReqID (q.nextDnReqID - p.nextDnReqID)).flatMap fun id => [.ref (.dn id), .deref (.dn id)]

/-- An end function holds a reference to the payload request, which it gives back before the free. -/
def endTrace (pool : DnPoolView) (p : PayloadReq) (r : PayloadReq × Bool) : PlTrace :=
  .ref .payload :: ((p.submitTrace r.1 ++ pool.cancelReqs (p.idsSince r.1)) ++ [.deref .payload]) ++
    if r.2 then r.1.freeTrace pool else []

def endfnTrace (minDiskAck : Nat) (now : UInt64) (pool : DnPoolView) (p : PayloadReq) (result : UDataState)
    (bkIdx dnLocIdx : Nat) : PlTrace :=
  p.endTrace pool (p.endfnBody minDiskAck now result bkIdx dnLocIdx)

/-- PLReq_TO_handler_gut between its own reference and the free; the second result is whether it comes so far.
_rPLReq_TO_try_replica calls PLReq_readDN_endfn, and when that does not return its reference is held for ever. -/
def toHandlerTrace (cfg : ToConfig) (now : UInt64) (pool : DnPoolView) (p : PayloadReq) : PlTrace × Bool :=
  let q := p.toFire
  if (plReqUpdateState p.stat .toFireChk).2 = .doToFireChk ∧ q.opcode = .read ∧ q.rToChkCnt > 0 then
    if q.rToTryReplica.2 then
      (q.endTrace pool (q.readDnBody .readNa q.lastReadDnBkIdx q.lastReadReplicaIdx), true)
    else ([.ref .payload], false)
  else (pool.cancelReqs (p.idsSince (p.toHandlerBody cfg now).1), true)

/-- PLReq_TO_handler_gut. -/
def timeoutTrace (cfg : ToConfig) (now : UInt64) (pool : DnPoolView) (p : PayloadReq) : PlTrace :=
  let (es, returned) := p.toHandlerTrace cfg now pool
  let (q, doFree) := p.toHandlerBody cfg now
  .ref .payload :: es ++
    if returned then .deref .payload :: if doFree then q.freeTrace pool else [] else []

/-- A data node request whose ID is in no bucket but its own. -/
structure OwnDnReq (p : PayloadReq) extends DnUdReq where
  own : ∀ i, p.arrDnUdReq i = some id → i = bkIdx

end PayloadReq

/-- The responses for which find_DNUDReq_ReqPool leaves the request in the pool. -/
def DnUdResp.isMemAck : DnUdResp → Bool
  | .memAck | .writeAndGetOldMemAck => true
  | _ => false

/-- The send worker has lost the connection: READ_DN_CONN_ERR, and _send_DNWReq_fail, which tells the caller
after time_wait_IOdone_conn_lost. -/
def connLostOutcome (dir : IoDir) (lostLong : Bool) : AckOutcome :=
  match dir with
  | .read => handleDnAckRead .disconnected
  | .write => if lostLong then handleDnAckWrite .disconnected else ⟨[], true, false⟩

theorem processDnAck_derefs (eij : Option ErrInject) (opcode : DnUdReqOpcode) (resp : DnUdResp) :
    (processDnAck eij opcode resp).doFree = true → (processDnAck eij opcode resp).derefs = true := by
  have hread (resp : DnUdResp) : (handleDnAckRead resp).derefs = true := by cases resp <;> rfl
  have hwrite (resp : DnUdResp) : (handleDnAckWrite resp).derefs = true := by cases resp <;> rfl
  rw [processDnAck]
  cases injectedResp eij resp with
  | none => exact fun _ => rfl
  | some resp =>
    have herr : (handleDnAckIoError opcode resp).derefs = true := by
      rw [handleDnAckIoError]
      split_ifs
      · exact hread resp
      · exact hwrite resp
    cases resp with
    | disconnected | other => exact fun h => absurd h Bool.false_ne_true
    | errIoException | errIoFailLunOk | errLunFail => exact fun _ => herr
    | _ => exact fun _ => rfl

theorem connLostOutcome_derefs (dir : IoDir) (lostLong : Bool) : (connLostOutcome dir lostLong).derefs = true := by
  cases dir <;> cases lostLong <;> rfl

theorem processDnAck_memAck {resp : DnUdResp} (h : resp.isMemAck = true) (eij : Option ErrInject)
    (opcode : DnUdReqOpcode) : processDnAck eij opcode resp = ⟨[.writeMemOk], true, false⟩ := by
  cases resp <;> first | (cases eij <;> rfl) | cases h

/-- An ack worker may find that the state machine does not give it the data node request. -/
inductive PlEntry where
  | ack (found : Bool) (eij : Option ErrInject) (opcode : DnUdReqOpcode) (resp : DnUdResp)
  | connLost (lostLong : Bool)
  | timeout
  deriving DecidableEq, Repr

namespace PayloadReq

/-- A handler of the DN client holds a reference to its own request and calls the end function at most once.
-/
def handlerTrace (minDiskAck : Nat) (now : UInt64) (pool : DnPoolView) (p : PayloadReq) (d : DnUdReq)
    (o : AckOutcome) : PlTrace :=
  .ref (.dn d.id) :: o.results.flatMap (fun result => p.endfnTrace minDiskAck now pool result d.bkIdx d.dnLocIdx) ++
    (if o.derefs then [.deref (.dn d.id)] else []) ++ if o.doFree then [.wait (.dn d.id)] else []

def entryTrace (cfg : ToConfig) (minDiskAck : Nat) (now : UInt64) (pool : DnPoolView) (p : PayloadReq) (d : DnUdReq) :
    PlEntry → PlTrace
  | .ack false _ _ _ => [.ref (.dn d.id), .deref (.dn d.id)]
  | .ack true eij opcode resp =>
    p.handlerTrace minDiskAck now (if resp.isMemAck then pool else Function.update pool d.id none) d
      (processDnAck eij opcode resp)
  | .connLost lostLong => p.handlerTrace minDiskAck now pool d (connLostOutcome p.opcode lostLong)
  | .timeout => p.timeoutTrace cfg now pool

end PayloadReq
end DiscoClient
