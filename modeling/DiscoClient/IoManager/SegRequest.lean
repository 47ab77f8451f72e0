import DiscoClient.Common.SysDef
import DiscoClient.IoManager.SegFsm
import DiscoClient.Lib.GuardedMachine
import DiscoClient.Metadata.MetadataItem

/-! A segment request from the acquisition of its metadata to its end, with no HBID re-query:
discoC_ioSegReq_udata_cbfn.c and ioSReq_acquireMD_endfn. -/
namespace DiscoClient

structure MdEntry where
  stat : MDataState
  numHbids : Nat
  pos : 0 < numHbids
  deriving DecidableEq, Repr

def MdEntry.isValid (md : MdEntry) : Bool := decide (md.stat = .valid ∨ md.stat = .validLessReplica)

inductive CiMdsStatus where
  | reportNone
  | reportSuccess
  | reportFailure
  deriving DecidableEq, Repr

inductive SegCall where
  | commitUser (result : Bool) (lbLen : Nat)
  | ioDone (numLbs : Nat)
  deriving DecidableEq, Repr

/-- ioSeg_req_t with what is still to come for it and the calls it has made: a metadata request, read
payload requests, write payload requests that have not committed or not ended, and the loop of
_invalMD_IODone_Proc. A fault is a read of a freed array. -/
structure SegReq where
  lbLen : Nat
  dirTrue : IoDir
  opcode : IoDir
  mdataOpcode : MdOpcode
  ovw : Bool
  ciUser : Bool
  stat : SegFsmState
  ciUserRemain : Int
  ciMdsRemain : Int
  ciUserResult : Bool
  ciMdsStatus : CiMdsStatus
  metaData : List MdEntry
  acquiring : Bool
  reads : List Nat
  ciUsers : List Nat
  ends : List Nat
  invalIdx : Nat
  invalEnd : Nat
  fault : Bool
  calls : List SegCall
  deriving DecidableEq, Repr

namespace SegReq

/-- _ioSReq_get_MDReq_opcode. -/
def getMDReqOpcode (dir : IoDir) (isOvw is4KAlign : Bool) : MdOpcode :=
  if dir = .read then .queryMDataReadIo
  else if isOvw && is4KAlign then .queryMDataWriteIo
  else if !isOvw && is4KAlign then .allocMDataNoOld
  else .queryMDataReadIo

/-- ioSReq_init_request, ioSReq_set_request and ioSReq_submit_acquireMD: a write that is
not 4K aligned reads first. -/
def start (lbLen : Nat) (dir : IoDir) (isOvw is4KAlign : Bool) : SegReq :=
  let readFirst := decide (dir = .read) || !is4KAlign
  { lbLen := lbLen
    dirTrue := dir
    opcode := if readFirst then .read else .write
    mdataOpcode := getMDReqOpcode dir isOvw is4KAlign
    ovw := isOvw
    ciUser := false
    stat := (ioSegReqUpdateState .init (if readFirst then .initR else .init4KW)).1
    ciUserRemain := lbLen
    ciMdsRemain := lbLen
    ciUserResult := true
    ciMdsStatus := .reportSuccess
    metaData := []
    acquiring := true
    reads := []
    ciUsers := []
    ends := []
    invalIdx := 0
    invalEnd := 0
    fault := false
    calls := [] }

/-- ioSReq_commit_user. -/
def commitUser (s : SegReq) (result : Bool) : SegReq :=
  if s.ciUser then s
  else { s with ciUser := true, calls := s.calls ++ [.commitUser result s.lbLen] }

/-- The call of ioReq_IODone_endfn. -/
def callIoDone (s : SegReq) : SegReq := { s with calls := s.calls ++ [.ioDone s.lbLen] }

/-- PLMgr_write_payload: a payload request for every item. -/
def writePayload (s : SegReq) : SegReq :=
  { s with
    ciUsers := s.ciUsers ++ s.metaData.map (·.numHbids)
    ends := s.ends ++ s.metaData.map (·.numHbids) }

/-- The report status and the result of a read, at the start of ioSReq_ReadPL_endfn. -/
def readEnded (s : SegReq) (ioRes : Bool) (numFailDn : Nat) : SegReq :=
  { s with
    ciMdsStatus := if numFailDn ≠ 0 then .reportFailure
      else if s.ciMdsStatus ≠ .reportFailure then .reportNone else s.ciMdsStatus
    ciUserResult := s.ciUserResult && ioRes }

/-- The end of ioSReq_ReadPL_endfn, when it is time to commit to the user. -/
def readAllDone (s : SegReq) : SegReq :=
  let (stat, action) := ioSegReqUpdateState s.stat .rAllPLDone
  let s := { s with stat := stat }
  if action ≠ .doCi2IoSegReq then s
  else
    let (stat, action) := ioSegReqUpdateState s.stat .rRPhaseDone
    let s := { s with stat := stat }
    if action ≠ .doCi2IoReq then s
    else (s.commitUser s.ciUserResult).callIoDone

/-- ioSReq_ReadPL_endfn, as long as no true metadata is queried. -/
def readPLEndfn (s : SegReq) (lbLen : Nat) (ioRes : Bool) (numFailDn : Nat) : SegReq :=
  let s := { s.readEnded ioRes numFailDn with
    ciUserRemain := s.ciUserRemain - lbLen
    ciMdsRemain := s.ciMdsRemain - lbLen }
  if s.ciUserRemain ≠ 0 then s else s.readAllDone

/-- ioSReq_WritePL_ciUser. -/
def writePLCiUser (s : SegReq) (numLb : Nat) (ioRes : Bool) : SegReq :=
  let s := { s with
    ciUserResult := s.ciUserResult && ioRes
    ciUserRemain := s.ciUserRemain - numLb }
  if s.ciUserRemain = 0 then s.commitUser s.ciUserResult else s

/-- ioSReq_WritePL_endfn. -/
def writePLEndfn (s : SegReq) (lbLen : Nat) : SegReq :=
  let s := { s with ciMdsRemain := s.ciMdsRemain - lbLen }
  if s.ciMdsRemain ≠ 0 then s
  else
    let (stat, action) := ioSegReqUpdateState s.stat .wAllPLDone
    let s := { s with stat := stat }
    if action = .doCi2IoReq then s.callIoDone else s

/-- _ioSReq_PW_resetReq. -/
def pwResetReq (s : SegReq) : SegReq :=
  { s with
    ciUserRemain := s.lbLen
    opcode := s.dirTrue
    ciUserResult := true
    ciMdsStatus := .reportSuccess }

/-- _ioSReq_PW_WPhase_OVW: the write phase uses the metadata of the read phase. -/
def pwWPhaseOvw (s : SegReq) : SegReq :=
  let (stat, action) := ioSegReqUpdateState s.stat .wAcqMDDone
  let s := { s with mdataOpcode := .queryMDataWriteIo, stat := stat }
  if action = .doWUD then s.writePayload else s

/-- _ioSReq_PW_WPhase_FW: features and metadata are cleared and metadata is acquired anew. -/
def pwWPhaseFw (s : SegReq) : SegReq :=
  { s with ovw := false, ciUser := false, metaData := [], mdataOpcode := .allocMDataNoOld, acquiring := true }

/-- _ioSReq_PW_WPhase. -/
def pwWPhase (s : SegReq) : SegReq :=
  let s := s.pwResetReq
  if s.ovw then s.pwWPhaseOvw else s.pwWPhaseFw

/-- ioSReq_PartialW_ReadPL_endfn. -/
def partialWReadPLEndfn (s : SegReq) (lbLen : Nat) (ioRes : Bool) : SegReq :=
  let s := { s with
    ciUserResult := s.ciUserResult && ioRes
    ciUserRemain := s.ciUserRemain - lbLen }
  if s.ciUserRemain ≠ 0 then s
  else if s.ciUserResult = false then (s.commitUser s.ciUserResult).writePLEndfn s.lbLen
  else
    let (stat, action) := ioSegReqUpdateState s.stat .rAllPLDone
    let s := { s with stat := stat }
    if action ≠ .doCi2IoSegReq then s
    else
      let (stat, action) := ioSegReqUpdateState s.stat .wRPhaseDone
      let s := { s with stat := stat }
      if action ≠ .wAcqMD then s else s.pwWPhase

/-- The end callback acquireMD_endfn registers for a read, by the true direction. -/
def readEndfn (s : SegReq) (lbLen : Nat) (ioRes : Bool) (numFailDn : Nat) : SegReq :=
  if s.dirTrue = .read then s.readPLEndfn lbLen ioRes numFailDn else s.partialWReadPLEndfn lbLen ioRes

/-- check_metadata_status: whether the segment fails with its metadata. -/
def checkMetadataStatus (s : SegReq) (mdres : Bool) : Bool :=
  if mdres = false then true
  else if s.metaData.countP (fun md => md.stat = .invalid) = 0 then false
  else decide (s.opcode = .write)

def postHandleAllMDInval (s : SegReq) : SegReq :=
  ({ s.commitUser false with ciMdsStatus := .reportNone }).callIoDone

/-- ioSReq_acquireMD_endfn up to the loop over invalid items, which then runs when there
are LBs without valid metadata. -/
def acquireMDEndfn (s : SegReq) (mdres : Bool) (items : List MdEntry) : SegReq :=
  let s := { s with acquiring := false, metaData := items }
  if s.checkMetadataStatus mdres then s.postHandleAllMDInval
  else
    match s.opcode with
    | .read =>
      let (stat, action) := ioSegReqUpdateState s.stat .rAcqMDDone
      let s := { s with stat := stat }
      if action = .doRUD then
        let numLbInval := ((items.filter fun md => !md.isValid).map (·.numHbids)).sum
        { s with
          reads := s.reads ++ (items.filter fun md => md.isValid).map (·.numHbids)
          invalIdx := 0
          invalEnd := if numLbInval > 0 then items.length else 0 }
      else s
    | .write =>
      let (stat, action) := ioSegReqUpdateState s.stat .wAcqMDDone
      let s := { s with stat := stat }
      if action = .doWUD then s.writePayload else s

/-- One round of the loop of _invalMD_IODone_Proc. -/
def invalMDIoDoneProc (s : SegReq) : SegReq :=
  match s.metaData[s.invalIdx]? with
  | none => { s with fault := true, invalIdx := s.invalEnd }
  | some md =>
    let s := { s with invalIdx := s.invalIdx + 1 }
    if md.isValid then s else s.readEndfn md.numHbids true 0

end SegReq

inductive SegEvent where
  | acquired (mdres : Bool) (items : List MdEntry)
  | readEnd (k : Nat) (ioRes : Bool) (numFailDn : Nat)
  | invalNext
  | writeCiUser (k : Nat) (ioRes : Bool)
  | writeEnd (k : Nat)
  deriving DecidableEq, Repr

def segMachine : GuardedMachine SegReq SegEvent where
  enabled
    | s, .acquired mdres items => s.acquiring = true ∧
      (mdres = true → (items.map (·.numHbids)).sum = s.lbLen)
    | s, .readEnd k _ _ => k < s.reads.length
    | s, .invalNext => s.invalIdx < s.invalEnd
    | s, .writeCiUser k _ => k < s.ciUsers.length
    | s, .writeEnd k => k < s.ends.length
  step
    | s, .acquired mdres items => s.acquireMDEndfn mdres items
    | s, .readEnd k ioRes numFailDn =>
      ({ s with reads := s.reads.eraseIdx k }).readEndfn (s.reads.getD k 0) ioRes numFailDn
    | s, .invalNext => s.invalMDIoDoneProc
    | s, .writeCiUser k ioRes =>
      ({ s with ciUsers := s.ciUsers.eraseIdx k }).writePLCiUser (s.ciUsers.getD k 0) ioRes
    | s, .writeEnd k => ({ s with ends := s.ends.eraseIdx k }).writePLEndfn (s.ends.getD k 0)

instance (s : SegReq) (e : SegEvent) : Decidable (segMachine.enabled s e) := by
  cases e <;> unfold segMachine <;> dsimp only <;> infer_instance

end DiscoClient
