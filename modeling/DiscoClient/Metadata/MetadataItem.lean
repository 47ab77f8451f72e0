import Mathlib.Logic.Function.Basic

/-! Metadata items: the replicas of a run of logical blocks, with what is known of the
user data on each of them. -/
namespace DiscoClient

/-- MData_state_t. -/
inductive MDataState where
  | valid
  | invalid
  | validLessReplica
  deriving DecidableEq, Repr

/-- NNMDReq_opcode_t, without the opcodes of preallocated space. -/
inductive MdOpcode where
  | queryMDataReadIo
  | queryTrueMDataReadIo
  | allocMDataAndGetOld
  | allocMDataNoOld
  | queryMDataWriteIo
  | reportReadIoResult
  | reportWriteIoResultDeprecated
  | reportWriteIoResult
  | updateHeartbeat
  deriving DecidableEq, Repr

/-- UData_state_t. -/
inductive UDataState where
  | init
  | readOk
  | writeOk
  | writeMemOk
  | diskFailure
  | mdErr
  | readNa
  | writeFail
  | operationErr
  deriving DecidableEq, Repr

/-- The part of metaD_item_t that acknowledgements use: the counters are int8_t, and
MDATA_FEA_UDataCIUser, MDATA_FEA_UDataCIMDS are bits of mdata_fea. -/
structure MdItem where
  numDnLoc : Nat
  numReplica : Nat
  udataStatus : Nat → UDataState
  memack : Int
  diskack : Int
  diskErrAck : Int
  wfailConnErr : Int
  ciUser : Bool
  ciMds : Bool

namespace MdItem

/-- MData_init_MDItem, for n replicas. -/
def init (n : Nat) : MdItem := ⟨n, n, fun _ => .init, 0, 0, 0, 0, false, false⟩

/-- MData_update_DNUDataStat. -/
def updateDnUDataStat (md : MdItem) (idx : Nat) (st : UDataState) : MdItem :=
  { md with udataStatus := Function.update md.udataStatus idx st }

end MdItem
end DiscoClient
