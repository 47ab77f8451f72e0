import DiscoClient.Lib.GuardedMachine
import DiscoClient.Metadata.MetadataItem

/-! Write acknowledgements of one metadata item: when its data is committed to the user
and to the name node. -/
namespace DiscoClient

/-- Storing a number in an int8_t. -/
def i8 (x : Int) : Int := (x + 128) % 256 - 128

/-- The result to commit to the user, and whether to commit to the name node. -/
structure CommitSignal where
  ciUser : Option Bool
  ciMds : Bool
  deriving DecidableEq, Repr

namespace MdItem

def countAck (md : MdItem) : UDataState → MdItem
  | .writeMemOk => { md with memack := i8 (md.memack + 1) }
  | .writeOk => { md with diskack := i8 (md.diskack + 1) }
  | .diskFailure => { md with diskErrAck := i8 (md.diskErrAck + 1) }
  | .writeFail => { md with wfailConnErr := i8 (md.wfailConnErr + 1) }
  | _ => md

/-- _chk_ciUser_criteria: the result to commit to the user, if it is time to. -/
def chkCiUserCriteria (md : MdItem) (minDiskAck : Nat) : Option Bool :=
  if minDiskAck = 0 ∧ (md.diskack > 0 ∨ md.memack = md.numReplica) then some true
  else if md.diskack ≥ minDiskAck ∨ md.diskack ≥ md.numReplica then some true
  else if md.numReplica = md.diskErrAck then some false
  else if md.diskack + md.diskErrAck = md.numReplica then some true
  else none

def chkCiMdsCriteria (md : MdItem) : Bool :=
  if md.diskack = md.numDnLoc then true
  else if md.diskack ≥ 1 ∧ md.diskack + md.wfailConnErr = md.numDnLoc then true
  else if md.diskack ≥ 1 ∧ md.diskack + md.diskErrAck + md.wfailConnErr = md.numDnLoc then true
  else if md.diskack + md.diskErrAck = md.numDnLoc then true
  else false

/-- MData_writeAck_commitResult. The result variable is false when the criteria for the user are not met,
also when the name node's commit then forces the one to the user. -/
def writeAckCommitResult (minDiskAck : Nat) (md : MdItem) (udstatus : UDataState) : MdItem × CommitSignal :=
  let md := md.countAck udstatus
  let crit := md.chkCiUserCriteria minDiskAck
  let ciUserRet := crit.getD false
  let ciUser := crit.isSome && !md.ciUser
  let md := { md with ciUser := md.ciUser || crit.isSome }
  let ciMds := md.chkCiMdsCriteria && !md.ciMds
  let ciUser := ciUser || (ciMds && !md.ciUser)
  ({ md with ciUser := md.ciUser || ciMds, ciMds := md.ciMds || ciMds },
    ⟨if ciUser then some ciUserRet else none, ciMds⟩)

/-- MData_timeout_commitResult. -/
def timeoutCommitResult (md : MdItem) : MdItem × CommitSignal :=
  ({ md with ciUser := true, ciMds := true },
    ⟨if md.ciUser then none else some (decide (md.diskack > 0)), !md.ciMds⟩)

/-- MData_wRetry_reset_DNLoc. -/
def wRetryResetDnLoc (md : MdItem) (idx : Nat) : MdItem :=
  match md.udataStatus idx with
  | .writeMemOk => { md.updateDnUDataStat idx .init with memack := i8 (md.memack - 1) }
  | .writeFail => { md.updateDnUDataStat idx .init with wfailConnErr := i8 (md.wfailConnErr - 1) }
  | _ => md

end MdItem

/-- An ack of a replica, its connection coming back, or the timeout of the payload request. -/
inductive AckEvent where
  | ack (udstatus : UDataState) (idx : Nat)
  | reset (idx : Nat)
  | timeout
  deriving DecidableEq, Repr

namespace AckEvent

def isWriteAck : UDataState → Bool
  | .writeMemOk | .writeOk | .diskFailure | .writeFail => true
  | _ => false

def isFinal : UDataState → Bool
  | .writeOk | .diskFailure => true
  | _ => false

def finalReplica : AckEvent → Option Nat
  | .ack st idx => if isFinal st then some idx else none
  | _ => none

end AckEvent

/-- One event on the item. An ack first updates the status of its replica, as
PLReq_writeDN_endfn does. -/
def MdItem.onAckEvent (minDiskAck : Nat) (md : MdItem) : AckEvent → MdItem × CommitSignal
  | .ack st idx => (md.updateDnUDataStat idx st).writeAckCommitResult minDiskAck st
  | .reset idx => (md.wRetryResetDnLoc idx, ⟨none, false⟩)
  | .timeout => md.timeoutCommitResult

structure AckRun where
  md : MdItem
  past : List AckEvent

def AckRun.init (n : Nat) : AckRun := ⟨.init n, []⟩

def ackMachine (minDiskAck n : Nat) : GuardedMachine AckRun AckEvent where
  enabled
    | s, .ack st idx => idx < n ∧ AckEvent.isWriteAck st = true ∧
      (AckEvent.isFinal st = true → idx ∉ s.past.filterMap AckEvent.finalReplica)
    | _, .reset idx => idx < n
    | _, .timeout => True
  step s e := ⟨(s.md.onAckEvent minDiskAck e).1, s.past ++ [e]⟩

end DiscoClient
