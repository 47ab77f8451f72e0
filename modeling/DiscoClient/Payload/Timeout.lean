import DiscoClient.Metadata.WriteAck
import DiscoClient.Payload.ReadAck

namespace DiscoClient

/-- What the handler reads of the configuration, and jiffies_to_msecs. -/
structure ToConfig where
  highRespWriteIo : Bool
  timeWaitOtherReplica : Nat
  jiffiesToMsecs : UInt64 → Nat

/-- time_after64 a b: the difference is negative as a signed number. -/
def timeAfter64 (a b : UInt64) : Bool := decide (2 ^ 63 ≤ (b - a).toNat)

namespace PayloadReq

/-- PLReq_readDN_endfn with UData_S_READ_NA for a read that cannot go to another replica, as far as
PLReq_cancel_timer. -/
def untilCancelTimer (p : PayloadReq) : PayloadReq :=
  let p := { p with mdItem := p.mdItem.updateDnUDataStat p.lastReadReplicaIdx .readNa }
  ({ p.rmDnUdReq p.lastReadDnBkIdx with stat := .ciCaller }).clearTimerOn

/-- _rPLReq_TO_try_replica; the second result is whether the call returns. _PLReq_1st_hbidErr, which alone
lets the end function free the request here, calls PLReq_cancel_timer, and cancel_delayed_work_sync waits for
the work that is running: the handler that makes the call. -/
def rToTryReplica (p : PayloadReq) : PayloadReq × Bool :=
  let (q, doFree) := p.readDnBody .readNa p.lastReadDnBkIdx p.lastReadReplicaIdx
  if doFree then
    if p.timerOn then (p.untilCancelTimer, false) else (q.freePlReq, true)
  else (q, true)

/-- _rPLReq_TO_timeup; the second result is whether to free the request. -/
def rToTimeup (p : PayloadReq) : PayloadReq × Bool :=
  let (stat, action) := plReqUpdateStateCode p.stat PlReqAction.doCiCaller.code
  let p := { p with stat := stat }
  if action = .doCiCaller then
    ((p.clearTimerOn.cancelDnUdReq none).readCiCaller false, true)
  else (p, false)

/-- _readPLReq_TO_handle. -/
def readToHandle (p : PayloadReq) : PayloadReq × Bool :=
  if p.rToChkCnt > 0 then
    let (p, returned) := p.rToTryReplica
    if returned then ({ p with stat := (plReqUpdateState p.stat .toFireChkDone).1 }, false) else (p, false)
  else p.rToTimeup

/-- _wPLReq_chk_wait_otherReplica. -/
def chkWaitOtherReplica (cfg : ToConfig) (now : UInt64) (p : PayloadReq) : Bool :=
  timeAfter64 p.tCiCaller now ||
    decide (cfg.jiffiesToMsecs (now - p.tCiCaller) < cfg.timeWaitOtherReplica)

def chkWPlReqWait (cfg : ToConfig) (now : UInt64) (p : PayloadReq) : Bool :=
  if p.rToChkCnt ≤ 0 then false
  else if p.mdItem.ciUser = false then true
  else if cfg.highRespWriteIo then chkWaitOtherReplica cfg now p
  else true

/-- The call of ciUser_CallerReq, when MData_timeout_commitResult or an ack asks for it. -/
def ciUserCallerReq (p : PayloadReq) (now : UInt64) (ciUser : Option Bool) : PayloadReq :=
  match ciUser with
  | none => p
  | some ciUserRet => ({ p with tCiCaller := now }).call (.ciUser p.numHbids ciUserRet)

/-- _writePLReq_TO_handle. -/
def writeToHandle (cfg : ToConfig) (now : UInt64) (p : PayloadReq) : PayloadReq × Bool :=
  if chkWPlReqWait cfg now p then
    ({ p with stat := (plReqUpdateState p.stat .toFireChkDone).1 }, false)
  else
    let (md, signal) := p.mdItem.timeoutCommitResult
    let p := ({ p with mdItem := md }).ciUserCallerReq now signal.ciUser
    let (stat, action) := plReqUpdateStateCode p.stat PlReqAction.doCiCaller.code
    let p := { p with stat := stat }
    if action ≠ .doCiCaller then (p, false)
    else if signal.ciMds then
      ((p.clearTimerOn.rmReqPool.cancelDnUdReq none).rmCallerReq.call (.endReq p.numHbids false 0), true)
    else (p, false)

/-- The request when PLReq_TO_handler_gut asks the state machine. -/
def toFire (p : PayloadReq) : PayloadReq :=
  { p with rToChkCnt := p.rToChkCnt - 1, stat := (plReqUpdateState p.stat .toFireChk).1 }

/-- PLReq_TO_handler_gut up to its call of PLMgr_free_PLReq. -/
def toHandlerBody (cfg : ToConfig) (now : UInt64) (p : PayloadReq) : PayloadReq × Bool :=
  if (plReqUpdateState p.stat .toFireChk).2 ≠ .doToFireChk then (p.toFire, false)
  else if p.opcode = .read then p.toFire.readToHandle
  else p.toFire.writeToHandle cfg now

/-- PLReq_TO_handler_gut. -/
def toHandlerGut (cfg : ToConfig) (now : UInt64) (p : PayloadReq) : PayloadReq :=
  let (p, doFree) := p.toHandlerBody cfg now
  if doFree then p.freePlReq else p

/-- PLReq_writeDN_endfn up to its call of PLMgr_free_PLReq. -/
def writeDnBody (minDiskAck : Nat) (now : UInt64) (p : PayloadReq) (result : UDataState) (bkIdx dnLocIdx : Nat) :
    PayloadReq × Bool :=
  let p := { p with mdItem := p.mdItem.updateDnUDataStat dnLocIdx result }
  let p := if result = .writeOk ∨ result = .diskFailure then p.rmDnUdReq bkIdx else p
  let (md, signal) := p.mdItem.writeAckCommitResult minDiskAck result
  let p := ({ p with mdItem := md }).ciUserCallerReq now signal.ciUser
  if signal.ciMds then
    let (stat, action) := plReqUpdateState p.stat .ciCaller
    let p := { p with stat := stat }
    if action = .doCiCaller then
      ((p.cancelTimer.rmReqPool.cancelDnUdReq (some bkIdx)).rmCallerReq.call (.endReq p.numHbids true 0), true)
    else (p, false)
  else (p, false)

/-- PLReq_writeDN_endfn. -/
def writeDnEndfn (minDiskAck : Nat) (now : UInt64) (p : PayloadReq) (result : UDataState) (bkIdx dnLocIdx : Nat) :
    PayloadReq :=
  let (p, doFree) := p.writeDnBody minDiskAck now result bkIdx dnLocIdx
  if doFree then p.freePlReq else p

variable {p : PayloadReq} {cfg : ToConfig} {now : UInt64}

/-- An action in place of an event: the check ends as if the request should go on waiting. -/
theorem updateStateCode_doCiCaller :
    plReqUpdateStateCode .toCheck PlReqAction.doCiCaller.code = (.waitIoDone, .doWaitData) := rfl

theorem toHandlerBody_fire (h : p.stat = .waitIoDone) : p.toHandlerBody cfg now =
    let q : PayloadReq := { p with rToChkCnt := p.rToChkCnt - 1, stat := .toCheck }
    if p.opcode = .read then q.readToHandle else q.writeToHandle cfg now := by
  rw [toHandlerBody, toFire, h]
  exact if_neg (by decide)

theorem toHandlerBody_of_ne (h : p.stat ≠ .waitIoDone) :
    p.toHandlerBody cfg now = ({ p with rToChkCnt := p.rToChkCnt - 1 }, false) := by
  rw [toHandlerBody, toFire]
  cases hs : p.stat with
  | waitIoDone => exact absurd hs h
  | init | ciCaller | toCheck => rfl

theorem readToHandle_timeup (h : p.stat = .toCheck) (hcnt : p.rToChkCnt ≤ 0) :
    p.readToHandle = ({ p with stat := .waitIoDone }, false) := by
  rw [readToHandle, if_neg (Int.not_lt.mpr hcnt), rToTimeup, h, updateStateCode_doCiCaller]
  rfl

theorem ciUserCallerReq_stat (p : PayloadReq) (now : UInt64) (r : Option Bool) :
    (p.ciUserCallerReq now r).stat = p.stat ∧ (p.ciUserCallerReq now r).mdItem = p.mdItem := by
  cases r <;> exact ⟨rfl, rfl⟩

theorem writeToHandle_eq (h : p.stat = .toCheck) : p.writeToHandle cfg now =
    ({ (if chkWPlReqWait cfg now p then p
        else ({ p with mdItem := p.mdItem.timeoutCommitResult.1 }).ciUserCallerReq now
          p.mdItem.timeoutCommitResult.2.ciUser) with stat := .waitIoDone }, false) := by
  obtain ⟨q, hq⟩ : ∃ q, q = ({ p with mdItem := p.mdItem.timeoutCommitResult.1 }).ciUserCallerReq now
    p.mdItem.timeoutCommitResult.2.ciUser := ⟨_, rfl⟩
  have hstat : q.stat = .toCheck := by rw [hq, (ciUserCallerReq_stat _ _ _).1, h]
  rw [writeToHandle]
  dsimp only
  rw [← hq, hstat, updateStateCode_doCiCaller, h]
  split_ifs with hwait hact
  · rfl
  · rfl
  all_goals exact absurd (by decide) hact

end PayloadReq
end DiscoClient
