import DiscoClient.Common.SysDef
import DiscoClient.DnClient.DnSound
import DiscoClient.Metadata.MetadataItem

/-! Acks of a data node: discoC_DNAck_worker.c and discoC_DNAck_workerfun.c. -/
namespace DiscoClient

/-- DNUDResp_opcode_t; the lost connection is reported by the send worker, and other stands for
the codes that no handler knows. -/
inductive DnUdResp where
  | readPayload
  | memAck
  | diskAck
  | writeAndGetOldMemAck
  | writeAndGetOldDiskAck
  | readNoPayload
  | errIoException
  | errIoFailLunOk
  | errLunFail
  | hbidErr
  | disconnected
  | other
  deriving DecidableEq, Repr

/-- The statuses a handler calls the end function with, whether it gives its reference back and frees the
request. -/
structure AckOutcome where
  results : List UDataState
  derefs : Bool
  doFree : Bool
  deriving DecidableEq, Repr

def handleDnAckWrite : DnUdResp → AckOutcome
  | .memAck | .writeAndGetOldMemAck => ⟨[.writeMemOk], true, false⟩
  | .diskAck | .writeAndGetOldDiskAck => ⟨[.writeOk], true, true⟩
  | .disconnected => ⟨[.writeFail], true, false⟩
  | .errIoException => ⟨[.diskFailure], true, true⟩
  | _ => ⟨[], true, false⟩

def handleDnAckRead : DnUdResp → AckOutcome
  | .readPayload | .readNoPayload => ⟨[.readOk], true, true⟩
  | .hbidErr => ⟨[.mdErr], true, true⟩
  | .errIoException | .errIoFailLunOk | .errLunFail => ⟨[.diskFailure], true, true⟩
  | .disconnected => ⟨[.readNa], true, false⟩
  | _ => ⟨[.operationErr], true, false⟩

def handleDnAckIoError (opcode : DnUdReqOpcode) (resp : DnUdResp) : AckOutcome :=
  if opcode = .read then handleDnAckRead resp else handleDnAckWrite resp

def handleDnResp (opcode : DnUdReqOpcode) (resp : DnUdResp) : AckOutcome :=
  match resp with
  | .readPayload | .readNoPayload => handleDnAckRead resp
  | .memAck | .diskAck | .writeAndGetOldMemAck | .writeAndGetOldDiskAck => handleDnAckWrite resp
  | .errIoException | .errIoFailLunOk | .errLunFail => handleDnAckIoError opcode resp
  | .hbidErr => handleDnAckRead resp
  | .disconnected | .other => ⟨[], false, false⟩

/-- The types of injected errors that meet_error_inject_test returns. -/
inductive ErrInject where
  | notError
  | timeout
  | exception
  | hbidNotMatch
  deriving DecidableEq, Repr

/-- _handle_eij: the response type the ack is given, or none when it is dropped. -/
def handleEij (resp : DnUdResp) : ErrInject → Option DnUdResp
  | .notError => some resp
  | .timeout => none
  | .exception => some .errIoException
  | .hbidNotMatch => some .hbidErr

/-- The response type that _process_dnAck hands on: with error injection on, an ack of data or from
disk is looked at first. -/
def injectedResp (eij : Option ErrInject) (resp : DnUdResp) : Option DnUdResp :=
  match eij, resp with
  | some inject, .readPayload | some inject, .readNoPayload | some inject, .diskAck
  | some inject, .writeAndGetOldDiskAck => handleEij resp inject
  | _, _ => some resp

/-- _process_dnAck for a request that has been found. -/
def processDnAck (eij : Option ErrInject) (opcode : DnUdReqOpcode) (resp : DnUdResp) : AckOutcome :=
  match injectedResp eij resp with
  | some resp => handleDnResp opcode resp
  | none => ⟨[], true, false⟩

def AckOutcome.event (o : AckOutcome) : DnEvent := if o.derefs then .finalAckEnd o.doFree else .unknownResp

def UDataState.belongsTo : UDataState → IoDir → Bool
  | .readOk, .read | .mdErr, .read | .readNa, .read => true
  | .writeOk, .write | .writeMemOk, .write | .writeFail, .write => true
  | .diskFailure, _ => true
  | _, _ => false

/-- The operation code of submit_DNUData_Read_Request and submit_DNUData_Write_Request. -/
def IoDir.dnOpcode : IoDir → DnUdReqOpcode
  | .read => .read
  | .write => .write

namespace DnReqComm

def plain (r : DnReqComm) : Bool := r.sendPayload && r.doRwIo

def sent (dir : IoDir) (r : DnReqComm) : DnReqComm :=
  match dir with
  | .read => { r with opcode := r.getDnReadReqOpcode }
  | .write => { r with opcode := r.getDnWriteReqOpcode }

variable {dir : IoDir} {r : DnReqComm}

theorem sendDnUdReq_first (h : r.opcode = dir.dnOpcode) : r.sendDnUdReq = some (r.sent dir) := by
  rw [sendDnUdReq, h]
  cases dir <;> rfl

theorem sendDnUdReq_again (h : r.opcode = dir.dnOpcode) :
    (r.sent dir).sendDnUdReq = if r.plain then some (r.sent dir) else none := by
  obtain ⟨opcode, payload, io⟩ := r
  change opcode = _ at h
  subst h
  cases dir <;> cases payload <;> cases io <;> rfl

theorem opcode_sent_eq_read_iff : (r.sent dir).opcode = .read ↔ dir = .read ∧ r.plain = true := by
  obtain ⟨opcode, payload, io⟩ := r
  cases dir <;> cases payload <;> cases io <;> simp [sent, getDnReadReqOpcode, getDnWriteReqOpcode, plain]

end DnReqComm

/-- The final response types that are handled, for a request that keeps its operation code or not. -/
def DnUdResp.handled (dir : IoDir) (plain : Bool) : DnUdResp → Bool
  | .readPayload | .readNoPayload | .hbidErr => dir = .read
  | .diskAck | .writeAndGetOldDiskAck => dir = .write
  | .errIoException => true
  | .errIoFailLunOk | .errLunFail => dir = .read && plain
  | _ => false

def AckOutcome.Tells (o : AckOutcome) (dir : IoDir) : Prop :=
  (∃ st : UDataState, o.results = [st] ∧ st.belongsTo dir = true) ∧ o.event = .finalAckEnd true

theorem tells_singleton_iff (st : UDataState) (doFree : Bool) (dir : IoDir) :
    (AckOutcome.mk [st] true doFree).Tells dir ↔ st.belongsTo dir = true ∧ doFree = true := by
  constructor
  · rintro ⟨⟨st', hst, hdir⟩, hevent⟩
    cases hst
    cases hevent
    exact ⟨hdir, rfl⟩
  · rintro ⟨hdir, rfl⟩
    exact ⟨⟨st, rfl, hdir⟩, rfl⟩

theorem not_tells_nil (derefs doFree : Bool) (dir : IoDir) : ¬ (AckOutcome.mk [] derefs doFree).Tells dir := by
  rintro ⟨⟨st, hst, -⟩, -⟩
  cases hst

theorem handleDnResp_tells_iff (dir : IoDir) (r : DnReqComm) (resp : DnUdResp) :
    (handleDnResp (r.sent dir).opcode resp).Tells dir ↔ resp.handled dir r.plain = true := by
  have hio : handleDnAckIoError (r.sent dir).opcode resp =
      if dir = .read ∧ r.plain = true then handleDnAckRead resp else handleDnAckWrite resp := by
    rw [handleDnAckIoError]
    simp only [DnReqComm.opcode_sent_eq_read_iff]
  cases resp with
  | readPayload | readNoPayload | hbidErr | diskAck | writeAndGetOldDiskAck =>
    refine (tells_singleton_iff _ true dir).trans ?_
    cases dir <;> simp [DnUdResp.handled, UDataState.belongsTo]
  | memAck | writeAndGetOldMemAck =>
    refine (tells_singleton_iff _ false dir).trans ?_
    simp [DnUdResp.handled]
  | errIoException =>
    rw [handleDnResp, hio]
    split_ifs <;> exact (tells_singleton_iff _ true dir).trans (by simp [DnUdResp.handled, UDataState.belongsTo])
  | errIoFailLunOk | errLunFail =>
    rw [handleDnResp, hio]
    split_ifs with hread
    · refine (tells_singleton_iff _ true dir).trans ?_
      simp [DnUdResp.handled, UDataState.belongsTo, hread]
    · refine iff_of_false (not_tells_nil _ _ _) fun h => hread ?_
      simpa [DnUdResp.handled] using h
  | disconnected | other => exact iff_of_false (not_tells_nil _ _ _) (by simp [DnUdResp.handled])

end DiscoClient
