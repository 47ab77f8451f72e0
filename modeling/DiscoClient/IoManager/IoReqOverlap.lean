import DiscoClient.Common.SysDef
import DiscoClient.IoManager.IoReqFsm
import DiscoClient.Lib.GuardedMachine

/-! Overlap queues of one volume: ioreq_ovlp.c, the pool part of discoC_IORequest.c and discoC_IOReqPool.c.
A request is named by its submission number, which stands for its address. -/
namespace DiscoClient

/-- IOR_ovlp_wait_t as chk_lb_ovlp uses it. -/
inductive IorOvlpWait where
  | noOvlp
  | payloadAllOvlp
  | payloadPartialOvlp
  deriving DecidableEq, Repr

/-- IOR_ovlp_res_t; a broken list is the absent fourth value. -/
inductive IorOvlpRes where
  | noOvlp
  | ovlp
  | inQ
  deriving DecidableEq, Repr

structure OvlpItem where
  processIor : Nat
  waitIor : Nat
  ovlpS : Nat
  ovlpL : Nat
  waitType : IorOvlpWait
  deriving DecidableEq, Repr

/-- The fields of io_request_t that the overlap code reads or writes. -/
structure IoRequest where
  usrIoAddr : UserIoAddr
  addr_wf : usrIoAddr.WellFormed
  iodir : IoDir
  stat : IorFsmState
  inReqPool : Bool
  inWaitPool : Bool
  isOvlpIor : Bool
  refCnt : Int
  waitList : List OvlpItem
  wakeList : List OvlpItem
  cntOvlpWait : Int
  cntOvlpWake : Int

/-- Value of a request as ioReq_init_request leaves it. -/
def IoRequest.initRequest (a : UserIoAddr) (wf : a.WellFormed) (dir : IoDir) : IoRequest :=
  ⟨a, wf, dir, .init, false, false, false, 1, [], [], 0, 0⟩

instance : Inhabited IoRequest :=
  ⟨.initRequest ⟨0, 0, 0, 1, 0⟩ ⟨by decide, by decide⟩ .read⟩

/-- chk_lb_ovlp. The last LB of each range is computed in 64 bits; the two results
of an overlap are written only when there is one. -/
def chkLbOvlp (prev next : UserIoAddr) (out : Nat × Nat) : IorOvlpWait × (Nat × Nat) :=
  let nextE := (next.lbidStart + next.lbidLen - 1) % 2^64
  if prev.lbidStart > nextE then (.noOvlp, out) else
  let prevE := (prev.lbidStart + prev.lbidLen - 1) % 2^64
  if next.lbidStart > prevE then (.noOvlp, out)
  else if prev.lbidStart > next.lbidStart then
    (.payloadPartialOvlp, prev.lbidStart,
      if prevE ≤ nextE then prev.lbidLen else nextE - prev.lbidStart + 1)
  else if prev.lbidStart = next.lbidStart then
    if prevE < nextE then (.payloadPartialOvlp, prev.lbidStart, prev.lbidLen)
    else (.payloadAllOvlp, prev.lbidStart, next.lbidLen)
  else
    (.payloadPartialOvlp, next.lbidStart,
      if prevE ≥ nextE then next.lbidLen else prevE - next.lbidStart + 1)

/-- chk_io_rw: true when the pair needs no overlap check, both being reads. -/
def chkIoRw (prev next : IoRequest) : Bool :=
  if prev.iodir = .write then false
  else if next.iodir = .write then false
  else true

/-- volume_IOReqPool_t with the requests it links, the two on-fly counters of the
manager, and the order in which requests entered the running queue. -/
structure VolIoReqPool where
  req : Nat → IoRequest
  numSubmitted : Nat
  ioReqPool : List Nat
  ioReqOvlpPool : List Nat
  cntOnflyIoReq : Int
  cntOnflyOvlpIoReq : Int
  enterLog : List Nat

namespace VolIoReqPool

def initVolIoQ : VolIoReqPool := ⟨fun _ => default, 0, [], [], 0, 0, []⟩

def modifyReq (s : VolIoReqPool) (r : Nat) (f : IoRequest → IoRequest) : VolIoReqPool :=
  { s with req := Function.update s.req r (f (s.req r)) }

/-- ioReq_add_waitReq. -/
def addWaitReq (s : VolIoReqPool) (r : Nat) (it : OvlpItem) : VolIoReqPool :=
  s.modifyReq r fun q => { q with waitList := q.waitList ++ [it], cntOvlpWait := q.cntOvlpWait + 1 }

/-- ioReq_add_wakeReq. -/
def addWakeReq (s : VolIoReqPool) (r : Nat) (it : OvlpItem) : VolIoReqPool :=
  s.modifyReq r fun q => { q with wakeList := q.wakeList ++ [it], cntOvlpWake := q.cntOvlpWake + 1 }

/-- gen_ovlp_item, its allocation succeeding. -/
def genOvlpItem (prev next : Nat) (waitType : IorOvlpWait) (out : Nat × Nat) : OvlpItem :=
  ⟨prev, next, out.1, out.2, waitType⟩

/-- Loop of ioReq_chk_ovlp over the queue, from its tail to its head. -/
def chkOvlpLoop (ioReq : Nat) :
    List Nat → IorOvlpRes → Nat × Nat → VolIoReqPool → IorOvlpRes × VolIoReqPool
  | [], ret, _, s => (ret, s)
  | cur :: rest, ret, out, s =>
    if ioReq = cur then (.inQ, s)
    else if chkIoRw (s.req cur) (s.req ioReq) then chkOvlpLoop ioReq rest ret out s
    else
      match chkLbOvlp (s.req cur).usrIoAddr (s.req ioReq).usrIoAddr out with
      | (.noOvlp, out) => chkOvlpLoop ioReq rest ret out s
      | (waitType, out) =>
        let s := s.modifyReq ioReq fun q => { q with isOvlpIor := true }
        let it := genOvlpItem cur ioReq waitType out
        chkOvlpLoop ioReq rest .ovlp out ((s.addWaitReq ioReq it).addWakeReq cur it)

def ioReqChkOvlp (s : VolIoReqPool) (ovlpQ : List Nat) (ioReq : Nat) : IorOvlpRes × VolIoReqPool :=
  chkOvlpLoop ioReq ovlpQ.reverse .noOvlp (0, 0) s

/-- _chk_ovlp_ReqPool: whether to wait, and the error number. -/
def chkOvlpReqPool (s : VolIoReqPool) (ioReq : Nat) (lhead : List Nat) : (Bool × Int) × VolIoReqPool :=
  match s.ioReqChkOvlp lhead ioReq with
  | (.noOvlp, s) => ((false, 0), s)
  | (.ovlp, s) => ((true, 0), s)
  | (.inQ, s) => ((true, -17), s)

/-- IOReqPool_addOvlpReq_nolock. -/
def addOvlpReqNolock (s : VolIoReqPool) (r : Nat) : VolIoReqPool :=
  if (s.req r).inWaitPool then s
  else { s.modifyReq r (fun q => { q with inWaitPool := true }) with
    ioReqOvlpPool := s.ioReqOvlpPool ++ [r], cntOnflyOvlpIoReq := s.cntOnflyOvlpIoReq + 1 }

/-- IOReqPool_rmOvlpReq_nolock. -/
def rmOvlpReqNolock (s : VolIoReqPool) (r : Nat) : VolIoReqPool :=
  if (s.req r).inWaitPool then { s.modifyReq r (fun q => { q with inWaitPool := false }) with
    ioReqOvlpPool := s.ioReqOvlpPool.erase r, cntOnflyOvlpIoReq := s.cntOnflyOvlpIoReq - 1 }
  else s

/-- IOReqPool_addReq_nolock. -/
def addReqNolock (s : VolIoReqPool) (r : Nat) : VolIoReqPool :=
  if (s.req r).inReqPool then s
  else { s.modifyReq r (fun q => { q with inReqPool := true }) with
    ioReqPool := s.ioReqPool ++ [r], cntOnflyIoReq := s.cntOnflyIoReq + 1,
    enterLog := s.enterLog ++ [r] }

/-- IOReqPool_rmReq_nolock. -/
def rmReqNolock (s : VolIoReqPool) (r : Nat) : VolIoReqPool :=
  if (s.req r).inReqPool then { s.modifyReq r (fun q => { q with inReqPool := false }) with
    ioReqPool := s.ioReqPool.erase r, cntOnflyIoReq := s.cntOnflyIoReq - 1 }
  else s

/-- ioReq_add_ReqPool: the answer is whether the caller submits the request now. -/
def ioReqAddReqPool (s : VolIoReqPool) (r : Nat) : Bool × VolIoReqPool :=
  match s.chkOvlpReqPool r s.ioReqOvlpPool with
  | ((addOvlpQ, errno), s) =>
    if errno ≠ 0 then (false, s) else
    match s.chkOvlpReqPool r s.ioReqPool with
    | ((addOvlpQ2, errno), s) =>
      if errno ≠ 0 then (false, s)
      else if addOvlpQ || addOvlpQ2 then
        let (st, action) := ioReqUpdateState (s.req r).stat .ovlpOtherIo
        let s := s.modifyReq r fun q => { q with stat := st }
        (false, if action = .addOvlpWaitQ then s.addOvlpReqNolock r else s)
      else
        let (st, action) := ioReqUpdateState (s.req r).stat .initDone
        let s := s.modifyReq r fun q => { q with stat := st }
        (true, if action = .submitIo then s.addReqNolock r else s)

/-- First loop of ioReq_get_ovlpReq: every request waiting for the finished one
loses one link, and moves to the buffer when it was the last. -/
def wakeLoop (ioReq : Nat) :
    List OvlpItem → List Nat → VolIoReqPool → List Nat × VolIoReqPool
  | [], buff, s => (buff, s)
  | cur :: rest, buff, s =>
    let s := s.modifyReq ioReq fun q => { q with cntOvlpWake := q.cntOvlpWake - 1 }
    let w := cur.waitIor
    let cnt := (s.req w).cntOvlpWait - 1
    let s := s.modifyReq w fun q => { q with waitList := q.waitList.erase cur, cntOvlpWait := cnt }
    if cnt = 0 then
      let (st, action) := ioReqUpdateState (s.req w).stat .ovlpIoDone
      let s := s.modifyReq w fun q => { q with stat := st }
      if action = .submitIo then
        wakeLoop ioReq rest (buff ++ [w]) { s with ioReqOvlpPool := s.ioReqOvlpPool.erase w }
      else wakeLoop ioReq rest buff s
    else wakeLoop ioReq rest buff s

/-- ioReq_get_ovlpReq; its second loop deletes the links it has followed. -/
def ioReqGetOvlpReq (s : VolIoReqPool) (ioReq : Nat) : List Nat × VolIoReqPool :=
  let (buff, s) := wakeLoop ioReq (s.req ioReq).wakeList [] s
  (buff, s.modifyReq ioReq fun q => { q with wakeList := [] })

/-- Body of the loop of mv_ovlp_ior_toIO. -/
def mvOvlpIor (s : VolIoReqPool) (cur : Nat) : VolIoReqPool :=
  ((s.rmOvlpReqNolock cur).modifyReq cur fun q => { q with refCnt := q.refCnt + 1 }).addReqNolock cur

/-- mv_ovlp_ior_toIO; generating and submitting the segments of a moved request
does not touch the queues. -/
def mvOvlpIorToIo (s : VolIoReqPool) (ioReq : Nat) : VolIoReqPool :=
  let (buff, s) := s.ioReqGetOvlpReq ioReq
  buff.foldl mvOvlpIor s

def ioReqRmIoReqQueue (s : VolIoReqPool) (ioReq : Nat) : VolIoReqPool :=
  (s.rmReqNolock ioReq).mvOvlpIorToIo ioReq

/-- ioReq_init_request, as far as the queues are concerned, then ioReq_add_ReqPool. -/
def submit (s : VolIoReqPool) (a : UserIoAddr) (wf : a.WellFormed) (dir : IoDir) : VolIoReqPool :=
  (ioReqAddReqPool { s with
    req := Function.update s.req s.numSubmitted (.initRequest a wf dir)
    numSubmitted := s.numSubmitted + 1 } s.numSubmitted).2

end VolIoReqPool

/-- A running request may take any transition of its own state machine before it completes. -/
inductive PoolEvent where
  | submit (a : UserIoAddr) (wf : a.WellFormed) (dir : IoDir)
  | progress (r : Nat) (e : IorFsmEvent)
  | complete (r : Nat)

def poolMachine : GuardedMachine VolIoReqPool PoolEvent where
  enabled
    | _, .submit _ _ _ => True
    | s, .progress r _ => r ∈ s.ioReqPool
    | s, .complete r => r ∈ s.ioReqPool
  step
    | s, .submit a wf dir => s.submit a wf dir
    | s, .progress r e => s.modifyReq r fun q => { q with stat := (ioReqUpdateState q.stat e).1 }
    | s, .complete r => s.ioReqRmIoReqQueue r

end DiscoClient
