import DiscoClient.Lib.GuardedMachine
import DiscoClient.VdiskManager.VolumeQueue

/-! The IO workers and the threads that submit requests, over the volumes they share: io_worker_manager.c.
A step is a critical section, or one read of a counter outside of its lock. -/
namespace DiscoClient

/-- Where dms_io_worker stands. -/
inductive IoWorkerAt (V : Type*) where
  /-- It waits for an active volume. -/
  | idle
  /-- At DEQ_AGAIN. -/
  | deq (v : V)
  /-- It has taken requests from the volume, and works on them in do_io_batch. -/
  | batch (v : V) (rqs : List BlkRq) (sectStart : Nat)
  /-- It has put back what was left, and looks for other active volumes. -/
  | batched (v : V) (left : Bool)
  /-- There are none. -/
  | rest (v : V) (left : Bool)
  /-- It is going to raise Vol_RqsDone. -/
  | finish (v : V)
  /-- The reaction was Vol_DoEnActiveQ. -/
  | enq (v : V)

def IoWorkerAt.vol? {V : Type*} : IoWorkerAt V → Option V
  | .idle => none
  | .deq v | .batch v _ _ | .batched v _ | .rest v _ | .finish v | .enq v => some v

/-- Where a thread stands in enq_dmsrq_vol_list: its request is in the list of the volume, or the
reaction to Vol_EnqRqs was Vol_DoEnActiveQ. -/
inductive SubmitterAt (V : Type*) where
  | idle
  | added (v : V)
  | enq (v : V)

def SubmitterAt.vol? {V : Type*} : SubmitterAt V → Option V
  | .idle => none
  | .added v | .enq v => some v

/-- The volumes, iowker_manager_t and the threads. active_vol_cnt is the length of the active list. -/
structure IoWorkers (V W S : Type*) where
  vol : V → VolumeDevice
  activeVolList : List V
  worker : W → IoWorkerAt V
  submitter : S → SubmitterAt V

inductive IoWorkerEvent (V W S : Type*) where
  | submit (s : S) (v : V) (rq : BlkRq)
  | raise (s : S) (v : V)
  | subEnq (s : S) (v : V)
  | take (w : W) (v : V)
  | deq (w : W) (v : V)
  | ioBatch (w : W) (v : V) (rqs : List BlkRq) (sectStart : Nat) (numRefIor : Nat → Nat)
  | chkActive (w : W) (v : V) (left : Bool)
  | rest (w : W) (v : V) (left : Bool)
  | rqsDone (w : W) (v : V)
  | wkEnq (w : W) (v : V)

namespace IoWorkers
variable {V W S : Type*}

def init : IoWorkers V W S where
  vol _ := .init
  activeVolList := []
  worker _ := .idle
  submitter _ := .idle

def setVol [DecidableEq V] (s : IoWorkers V W S) (v : V) (d : VolumeDevice) : IoWorkers V W S :=
  { s with vol := Function.update s.vol v d }

def setWorker [DecidableEq W] (s : IoWorkers V W S) (w : W) (p : IoWorkerAt V) : IoWorkers V W S :=
  { s with worker := Function.update s.worker w p }

def setSubmitter [DecidableEq S] (s : IoWorkers V W S) (i : S) (p : SubmitterAt V) : IoWorkers V W S :=
  { s with submitter := Function.update s.submitter i p }

section Set
variable (s : IoWorkers V W S)

theorem vol_setVol [DecidableEq V] (v : V) (d : VolumeDevice) : (s.setVol v d).vol v = d := Function.update_self _ _ _

theorem setVol_self [DecidableEq V] (v : V) : s.setVol v (s.vol v) = s := by
  rw [setVol, Function.update_eq_self]

theorem worker_setWorker [DecidableEq W] (w j : W) (p : IoWorkerAt V) :
    (s.setWorker w p).worker j = if j = w then p else s.worker j := Function.update_apply _ _ _ _

theorem submitter_setSubmitter [DecidableEq S] (i j : S) (p : SubmitterAt V) :
    (s.setSubmitter i p).submitter j = if j = i then p else s.submitter j := Function.update_apply _ _ _ _

end Set

def enqVolActiveList [DecidableEq V] (s : IoWorkers V W S) (v : V) : IoWorkers V W S :=
  if v ∈ s.activeVolList then s else { s with activeVolList := s.activeVolList ++ [v] }

theorem worker_enqVolActiveList [DecidableEq V] (s : IoWorkers V W S) (v : V) :
    (s.enqVolActiveList v).worker = s.worker := by
  rw [enqVolActiveList]
  split_ifs <;> rfl

theorem submitter_enqVolActiveList [DecidableEq V] (s : IoWorkers V W S) (v : V) :
    (s.enqVolActiveList v).submitter = s.submitter := by
  rw [enqVolActiveList]
  split_ifs <;> rfl

variable [DecidableEq V] [DecidableEq W] [DecidableEq S]

/-- do_io_batch on the requests of a worker, which puts back what is left of them. -/
def ioBatch (s : IoWorkers V W S) (w : W) (v : V) (rqs : List BlkRq) (sectStart : Nat) (numRefIor : Nat → Nat) :
    IoWorkers V W S :=
  let d := s.vol v
  let b := doIoBatch (fun j => rqs.getD j default) rqs.length sectStart (decide (0 < d.rqAggWaitCnt)) numRefIor
  match b.remainIndexS with
  | some r =>
    let d := d.enqDmsRqVolListBatch (rqs.drop r) b.sectStart
    (s.setVol v { d with rqAggWaitCnt := d.rqAggWaitCnt + 1 }).setWorker w (.batched v true)
  | none => (s.setVol v { d.updateVolRqListStart with rqAggWaitCnt := 0 }).setWorker w (.batched v false)

/-- The end of the loop of dms_io_worker while no other volume is active. -/
def rest (s : IoWorkers V W S) (w : W) (v : V) (left : Bool) : IoWorkers V W S :=
  let d := s.vol v
  if left then
    (s.setVol v { d with rqAggWaitCnt := if d.rSects > 0 ∨ d.wSects ≥ maxSectsPerRq then 0 else 1 }).setWorker w (.deq v)
  else (s.setVol v { d with rqAggWaitCnt := 0 }).setWorker w (if d.cntRqs > 0 then .deq v else .finish v)

def step (s : IoWorkers V W S) : IoWorkerEvent V W S → IoWorkers V W S
  | .submit i v rq => (s.setVol v ((s.vol v).enqDmsRqVolList rq)).setSubmitter i (.added v)
  | .raise i v =>
    let (d, op) := (s.vol v).updateVolActiveStat .enqRqs
    (s.setVol v d).setSubmitter i (if op = .doEnActiveQ then .enq v else .idle)
  | .subEnq i v => (s.enqVolActiveList v).setSubmitter i .idle
  -- deq_vol_active_list
  | .take w v => ({ s with activeVolList := s.activeVolList.tail }).setWorker w (.deq v)
  | .deq w v =>
    let (d, rqs) := (s.vol v).deqDmsRqList
    (s.setVol v d).setWorker w (if rqs = [] then .idle else .batch v rqs (s.vol v).sectStart)
  | .ioBatch w v rqs sectStart numRefIor => s.ioBatch w v rqs sectStart numRefIor
  | .chkActive w v left => s.setWorker w (if s.activeVolList ≠ [] then .finish v else .rest v left)
  | .rest w v left => s.rest w v left
  | .rqsDone w v =>
    let (d, op) := (s.vol v).updateVolActiveStat .rqsDone
    (s.setVol v d).setWorker w (if op = .doEnActiveQ then .enq v else .idle)
  | .wkEnq w v => (s.enqVolActiveList v).setWorker w .idle

def Enabled (s : IoWorkers V W S) : IoWorkerEvent V W S → Prop
  | .submit i _ _ => s.submitter i = .idle
  | .raise i v => s.submitter i = .added v
  | .subEnq i v => s.submitter i = .enq v
  | .take w v => s.worker w = .idle ∧ s.activeVolList.head? = some v
  | .deq w v => s.worker w = .deq v
  | .ioBatch w v rqs sectStart _ => s.worker w = .batch v rqs sectStart
  | .chkActive w v left => s.worker w = .batched v left
  | .rest w v left => s.worker w = .rest v left
  | .rqsDone w v => s.worker w = .finish v
  | .wkEnq w v => s.worker w = .enq v

def machine : GuardedMachine (IoWorkers V W S) (IoWorkerEvent V W S) where
  enabled := Enabled
  step := step

end IoWorkers
end DiscoClient
