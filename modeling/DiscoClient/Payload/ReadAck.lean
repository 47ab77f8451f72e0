import DiscoClient.Lib.GuardedMachine
import DiscoClient.Payload.PayloadReq

/-! Results of data node reads: payload_Req_IODone.c, with replica protection. -/
namespace DiscoClient
namespace PayloadReq

/-- _PLReq_read_nextDN; the second result is whether to free the request. The early return
is taken when no further read could be submitted. -/
def readNextDn (p : PayloadReq) (bkIdx dnLocIdx : Nat) : PayloadReq × Bool :=
  let (p, submitted) := p.submitDnUdReadReq dnLocIdx
  if !submitted then (p, false)
  else
    let (keepWait, ciUserRet) := p.mdItem.checkCiUserStatus
    if keepWait then (p, false)
    else
      let (stat, action) := plReqUpdateState p.stat .ciCaller
      let p := { p with stat := stat }
      if action = .doCiCaller then ((p.cancelTimer.cancelDnUdReq (some bkIdx)).readCiCaller ciUserRet, true)
      else (p, false)

/-- _PLReq_1st_hbidErr. -/
def firstHbidErr (p : PayloadReq) (bkIdx : Nat) : PayloadReq × Bool :=
  let (stat, action) := plReqUpdateState p.stat .ciCaller
  let p := { p with stat := stat }
  if action = .doCiCaller then ((p.cancelTimer.cancelDnUdReq (some bkIdx)).call (.reportMDErr p.numHbids), true)
  else (p, false)

/-- The case UData_S_READ_OK. -/
def readOk (p : PayloadReq) (bkIdx : Nat) : PayloadReq × Bool :=
  let p := p.rmDnUdReq bkIdx
  let (stat, action) := plReqUpdateState p.stat .ciCaller
  let p := { p with stat := stat }
  if action = .doCiCaller then
    let p := { p with mdItem := { p.mdItem with ciUser := true } }
    (((p.cancelTimer.call .cpData).cancelDnUdReq (some bkIdx)).readCiCaller true, true)
  else (p, false)

/-- _PLReq_readDN_NonTrueMD. -/
def readDnNonTrueMD (p : PayloadReq) (result : UDataState) (bkIdx dnLocIdx : Nat) : PayloadReq × Bool :=
  match result with
  | .readOk => p.readOk bkIdx
  | .readNa =>
    if p.mdItem.numReplica > 1 then ((p.submitDnUdReadReq dnLocIdx).1, false)
    else (p.rmDnUdReq bkIdx).firstHbidErr bkIdx
  | .mdErr => (p.rmDnUdReq bkIdx).firstHbidErr bkIdx
  | .diskFailure =>
    let p := { p.rmDnUdReq bkIdx with numReadFailDn := p.numReadFailDn + 1 }
    if p.mdItem.numReplica > 1 then p.readNextDn bkIdx dnLocIdx else p.firstHbidErr bkIdx
  | _ => (p, false)

/-- _PLReq_readDN_TrueMD_REP. -/
def readDnTrueMDRep (p : PayloadReq) (result : UDataState) (bkIdx dnLocIdx : Nat) : PayloadReq × Bool :=
  match result with
  | .readOk => p.readOk bkIdx
  | .readNa => ((p.submitDnUdReadReq dnLocIdx).1, false)
  | .mdErr => (p.rmDnUdReq bkIdx).readNextDn bkIdx dnLocIdx
  | .diskFailure =>
    ({ p.rmDnUdReq bkIdx with numReadFailDn := p.numReadFailDn + 1 }).readNextDn bkIdx dnLocIdx
  | _ => (p, false)

/-- PLReq_readDN_endfn up to its call of PLMgr_free_PLReq; the second result is whether that
call is made. -/
def readDnBody (p : PayloadReq) (result : UDataState) (bkIdx dnLocIdx : Nat) : PayloadReq × Bool :=
  let p := { p with mdItem := p.mdItem.updateDnUDataStat dnLocIdx result }
  if p.trueMD then p.readDnTrueMDRep result bkIdx dnLocIdx else p.readDnNonTrueMD result bkIdx dnLocIdx

/-- PLReq_readDN_endfn. -/
def readDnEndfn (p : PayloadReq) (result : UDataState) (bkIdx dnLocIdx : Nat) : PayloadReq :=
  let (p, doFree) := p.readDnBody result bkIdx dnLocIdx
  if doFree then p.freePlReq else p

/-- handle_DNAck_Read for an outstanding request: the DN client keeps it when the data
node is not available, and frees it otherwise. -/
def handleDnAckRead (p : PayloadReq) (d : DnUdReq) (result : UDataState) : PayloadReq :=
  let p := if result = .readNa then p else { p with dnReqs := p.dnReqs.erase d }
  p.readDnEndfn result d.bkIdx d.dnLocIdx

end PayloadReq

structure ReadResult where
  req : DnUdReq
  result : UDataState
  deriving DecidableEq, Repr

def UDataState.isReadFailure : UDataState → Bool
  | .diskFailure | .mdErr | .readNa => true
  | _ => false

def readFailMachine : GuardedMachine PayloadReq ReadResult where
  enabled p e := e.req ∈ p.dnReqs ∧ e.result.isReadFailure = true ∧ p.freed = 0
  step p e := p.handleDnAckRead e.req e.result

instance (p : PayloadReq) (e : ReadResult) : Decidable (readFailMachine.enabled p e) :=
  inferInstanceAs (Decidable (_ ∧ _ ∧ _))

end DiscoClient
