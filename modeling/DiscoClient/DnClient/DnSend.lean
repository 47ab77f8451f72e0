import Mathlib.Logic.Basic

/-! Operation codes of data node requests and what the send worker makes of them: discoC_DNC_workerfun.c. -/
namespace DiscoClient

/-- DNUDReq_opcode_t, without heartbeats and log cleaning. -/
inductive DnUdReqOpcode where
  | write
  | read
  | writeNoPayload
  | readNoPayload
  | writeNoIo
  | readNoIo
  | writeNoPayloadIo
  | readNoPayloadIo
  deriving DecidableEq, Repr

/-- ReqOPCode of a data node request, with the features that decide how it is sent:
DNREQ_FEA_SEND_PAYLOAD and DNREQ_FEA_DO_RW_IO. -/
structure DnReqComm where
  opcode : DnUdReqOpcode
  sendPayload : Bool
  doRwIo : Bool
  deriving DecidableEq, Repr

namespace DnReqComm

def getDnReadReqOpcode (r : DnReqComm) : DnUdReqOpcode :=
  if r.sendPayload = false ∧ r.doRwIo = true then .readNoPayload
  else if r.sendPayload = true ∧ r.doRwIo = false then .readNoIo
  else if r.sendPayload = false ∧ r.doRwIo = false then .readNoPayloadIo
  else .read

def getDnWriteReqOpcode (r : DnReqComm) : DnUdReqOpcode :=
  if r.sendPayload = false ∧ r.doRwIo = true then .writeNoPayload
  else if r.sendPayload = true ∧ r.doRwIo = false then .writeNoIo
  else if r.sendPayload = false ∧ r.doRwIo = false then .writeNoPayloadIo
  else .write

/-- DNCWker_send_DNUDReq up to the socket: DNCWker_send_readReq and DNCWker_send_writeReq store the derived
code in the request. Nothing is sent for other codes. -/
def sendDnUdReq (r : DnReqComm) : Option DnReqComm :=
  match r.opcode with
  | .read => some { r with opcode := r.getDnReadReqOpcode }
  | .write => some { r with opcode := r.getDnWriteReqOpcode }
  | _ => none

end DnReqComm
end DiscoClient
