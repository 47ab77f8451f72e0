import DiscoClient.IoManager.IoReqFsm
import DiscoClient.IoManager.SegRequest

/-! Reports of a finished IO request to the name node: discoC_IODone_worker.c counts the segments to report,
ioReq_submit_reportMDReq submits the reports, and their answers hand the IO request back to the worker. -/
namespace DiscoClient

/-- An item of the segment's metadata with its mdata_stat. -/
structure ReportItem where
  stat : MDataState
  md : MdItem

/-- What the report reads of ioSeg_req_t. -/
structure ReportSeg where
  mdataOpcode : MdOpcode
  ciMdsStatus : CiMdsStatus
  metaData : List ReportItem

namespace ReportSeg

def isWrite (seg : ReportSeg) : Bool :=
  decide (seg.mdataOpcode = .queryMDataWriteIo ∨ seg.mdataOpcode = .allocMDataNoOld)

/-- _chk_writeDN_fail: MData_get_num_diskAck is an int32_t and get_volume_replica a uint32_t. -/
def chkWriteDnFail (seg : ReportSeg) (replica : Nat) : Bool :=
  seg.metaData.any fun it => decide (it.stat ≠ .valid) || decide (toU32 it.md.diskack < replica)

/-- One round of the loop of _chk_dnerr_commit_nn: the segment is counted. -/
def counts (seg : ReportSeg) (replica : Nat) : Bool :=
  match seg.ciMdsStatus with
  | .reportNone => false
  | .reportFailure => true
  | .reportSuccess => seg.isWrite && seg.chkWriteDnFail replica

/-- MData_chk_UDStatus_writefail for a location of the item. -/
def chkUDStatusWritefail (it : ReportItem) (j : Nat) : Bool := decide (it.md.udataStatus j ≠ .writeOk)

/-- _ioSReq_chk_MData_doReport. -/
def chkMDataDoReport (seg : ReportSeg) : Bool :=
  seg.metaData.any fun it =>
    decide (it.stat ≠ .valid) || (List.range it.md.numDnLoc).any (chkUDStatusWritefail it)

/-- _ioSReq_chk_noReport. -/
def chkNoReport (seg : ReportSeg) : Bool :=
  if seg.ciMdsStatus = .reportFailure then false
  else if !seg.isWrite then true
  else !seg.chkMDataDoReport

end ReportSeg

/-- The IO request: toSubmit are the segments ioReq_submit_reportMDReq has not visited, outstanding those
whose report is not answered. A fault is an access to a freed request. -/
structure IoReport where
  replica : Nat
  stat : IorFsmState
  segs : List ReportSeg
  numOfCi2nn : Int
  inIoDonePool : Bool
  toSubmit : List Nat
  outstanding : List Nat
  counted : Nat
  submitted : Nat
  freed : Nat
  fault : Bool

namespace IoReport

def chkDnerrCommitNn (s : IoReport) : IoReport × Bool :=
  if s.stat ≠ .reportMD then (s, false)
  else
    s.segs.foldl (fun acc seg =>
      if seg.counts s.replica then
        ({ acc.1 with numOfCi2nn := acc.1.numOfCi2nn + 1, counted := acc.1.counted + 1 }, true)
      else acc) (s, false)

/-- ioReq_submit_reportMDReq, up to its loop. -/
def submitReportMDReq (s : IoReport) : IoReport :=
  if s.stat ≠ .reportMD then s else { s with toSubmit := List.range s.segs.length }

/-- A round of its loop: ioSReq_submit_reportMD. -/
def submitNext (s : IoReport) : IoReport :=
  match s.toSubmit with
  | [] => s
  | i :: rest =>
    let s := { s with toSubmit := rest, fault := s.fault || decide (s.freed ≠ 0) }
    if (s.segs[i]?).any (!·.chkNoReport) then
      { s with outstanding := s.outstanding ++ [i], submitted := s.submitted + 1 }
    else s

/-- IORFWkerMgr_submit_request. -/
def submitRequest (s : IoReport) : IoReport := { s with inIoDonePool := true }

/-- A round of _IOR_fWker_fn with this request. -/
def fWkerFn (s : IoReport) : IoReport :=
  let s := { s with inIoDonePool := false }
  let (s, doReport) := s.chkDnerrCommitNn
  if doReport then s.submitReportMDReq
  else
    let s := { s with stat := (ioReqUpdateState s.stat .reportMDDone).1 }
    let (stat, action) := ioReqUpdateState s.stat .healDone
    let s := { s with stat := stat }
    if action ≠ .freeReq then s else { s with freed := s.freed + 1 }

/-- ioReq_MDReport_endfn. -/
def mdReportEndfn (s : IoReport) : IoReport :=
  let (stat, action) := ioReqUpdateState s.stat .ioSegReportMDDone
  let s := { s with stat := stat }
  if action ≠ .ioSegMDReportDoneCiIor then s
  else
    let s := { s with numOfCi2nn := s.numOfCi2nn - 1 }
    if s.numOfCi2nn ≠ 0 then s
    else
      let (stat, action) := ioReqUpdateState s.stat .reportMDDone
      let s := { s with stat := stat }
      if action ≠ .doHealing then s else s.submitRequest

/-- ioSReq_reportMD_endfn for segment k. -/
def reportMDEndfn (s : IoReport) (k : Nat) : IoReport :=
  mdReportEndfn
    { s with
      outstanding := s.outstanding.erase k
      segs := s.segs.modify k fun seg => { seg with ciMdsStatus := .reportNone }
      fault := s.fault || decide (s.freed ≠ 0) }

/-- The IO request when ioReq_IODone_endfn has handed it to the worker. -/
def init (replica : Nat) (segs : List ReportSeg) : IoReport :=
  { replica := replica
    stat := .reportMD
    segs := segs
    numOfCi2nn := 0
    inIoDonePool := true
    toSubmit := []
    outstanding := []
    counted := 0
    submitted := 0
    freed := 0
    fault := false }

end IoReport

inductive ReportEvent where
  | worker
  | submitNext
  | answer (k : Nat)
  deriving DecidableEq, Repr

def reportMachine : GuardedMachine IoReport ReportEvent where
  enabled
    | s, .worker => s.inIoDonePool = true
    | s, .submitNext => s.toSubmit ≠ []
    | s, .answer k => k ∈ s.outstanding
  step
    | s, .worker => s.fWkerFn
    | s, .submitNext => s.submitNext
    | s, .answer k => s.reportMDEndfn k

instance (s : IoReport) (e : ReportEvent) : Decidable (reportMachine.enabled s e) := by
  cases e <;> unfold reportMachine <;> dsimp only <;> infer_instance

end DiscoClient
