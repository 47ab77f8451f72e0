import DiscoClient.Space.PoolAllocation
import DiscoClient.Lib.GuardedMachine

/-! First writes of a volume with preallocated space: io_manager/discoC_IOSegment_Request.c,
discoC_ioSegReq_mdata_cbfn.c, and the preallocations of metadata_manager/space_manager.c and
space_commit_worker.c. -/
namespace DiscoClient

/-- sm_allocSpace_resp_t. -/
inductive SmAllocSpaceResp where
  | ok
  | noVolume
  | wait
  | nospace
  | fail
  deriving DecidableEq, Repr

/-- sm_alloc_volume_space, from what fspool_alloc_space returns. -/
def smAllocVolumeSpace : SpoolAllocSpaceResp → SmAllocSpaceResp
  | .ok => .ok
  | .noVolume => .noVolume
  | .wait => .wait
  | .nospace => .nospace
  | .fail => .fail

structure FwSeg where
  reqID : Nat
  metaData : SpaceMetadata
  deriving DecidableEq, Repr

/-- Where the thread is that holds ioSReq_fw_waitplock. waker says that it is ioSReq_preallocMD_endfn. -/
inductive FwPoint where
  | peek
  | alloc (waker : Bool) (seg : FwSeg) (t : AllocProgress)
  | resp (waker : Bool) (seg : FwSeg) (ret : SmAllocSpaceResp)
  | request
  | task
  deriving DecidableEq, Repr

namespace FwPoint

def isAlloc : FwPoint → Bool
  | .alloc _ _ _ => true
  | _ => false

def isResp : FwPoint → Bool
  | .resp _ _ _ => true
  | _ => false

def tends : FwPoint → Bool
  | .alloc waker _ _ => waker
  | .resp waker _ _ => waker
  | _ => true

def inHand : FwPoint → List Nat
  | .alloc _ seg _ => [seg.reqID]
  | .resp _ seg _ => [seg.reqID]
  | _ => []

end FwPoint

/-- A volume. Of a preallocation task only matters whether it has an end function that wakes the queue: it
is with the space worker or the name-node client, and has ended when that function is about to run. An ioctl
call is between the count of its preallocation and its task. -/
structure FwVolume where
  pool : SpacePool
  fwwaitQ : List FwSeg
  holder : Option FwPoint
  ioctls : Nat
  taskWorkq : List Bool
  sent : List Bool
  wakers : Nat
  submitted : List Nat
  given : List Nat
  deriving DecidableEq, Repr

def SpacePool.Event.Outside : SpacePool.Event → Bool
  | .alloc _ _ _ => false
  | .requesting _ => false
  | _ => true

inductive FwEvent where
  | submit (seg : FwSeg)
  | pass (mem : AllocMem)
  | settle
  | request
  | task (mem : Bool)
  | ioctl
  | ioctlTask (mem : Bool)
  | hand (mem : Bool)
  | complete (i : Nat)
  | wake
  | peek
  | pool (e : SpacePool.Event)
  deriving DecidableEq, Repr

namespace FwVolume

def init (pool : SpacePool) : FwVolume := ⟨pool, [], none, 0, [], [], 0, [], []⟩

/-- A call of fspool_alloc_space begins. -/
def startAlloc (waker : Bool) (seg : FwSeg) : FwPoint := .alloc waker seg ⟨.ok, .ok, seg.metaData, 0⟩

/-- A pass of fspool_alloc_space. -/
def allocPass (reqs : Nat → SpaceReq) (s : FwVolume) (mem : AllocMem) (waker : Bool) (seg : FwSeg)
    (t : AllocProgress) : FwVolume :=
  let out := (reqs seg.reqID).allocIn t s.pool mem
  { s with
    pool := out.1
    holder := some (
      if out.2.2 then .alloc waker seg out.2.1
      else .resp waker { seg with metaData := out.2.1.arrMD } (smAllocVolumeSpace out.2.1.ret)) }

/-- The rest of ioSReq_alloc_freeSpace; a preallocation is requested after NOSPACE. -/
def settle (s : FwVolume) (waker : Bool) (seg : FwSeg) : SmAllocSpaceResp → FwVolume
  | .ok => { s with given := seg.reqID :: s.given, holder := if waker then some .peek else none }
  | .wait => { s with fwwaitQ := s.fwwaitQ ++ [seg], holder := none }
  | .nospace => { s with fwwaitQ := s.fwwaitQ ++ [seg], holder := some .request }
  | .fail => { s with holder := none }
  | .noVolume => { s with holder := none }

/-- _fs_flush_worker_fn: without a name-node request the task is in no queue that anybody looks at. -/
def hand (s : FwVolume) (mem : Bool) : FwVolume :=
  match s.taskWorkq with
  | [] => s
  | wakes :: rest => { s with taskWorkq := rest, sent := if mem then s.sent ++ [wakes] else s.sent }

/-- _NNC_MDReq_preallocSpace_endfn up to the end function of the task, for a response as for a timeout. -/
def complete (s : FwVolume) (i : Nat) : FwVolume :=
  match s.sent[i]? with
  | none => s
  | some wakes =>
    { s with
      sent := s.sent.eraseIdx i
      pool := s.pool.updateFsSizeRequesting false
      wakers := if wakes then s.wakers + 1 else s.wakers }

/-- The head of the loop of ioSReq_preallocMD_endfn. -/
def peek (s : FwVolume) : FwVolume :=
  match s.fwwaitQ with
  | [] => { s with holder := none }
  | seg :: rest => { s with fwwaitQ := rest, holder := some (startAlloc true seg) }

def step (reqs : Nat → SpaceReq) (s : FwVolume) : FwEvent → FwVolume
  | .submit seg =>
    { s with holder := some (startAlloc false seg), submitted := seg.reqID :: s.submitted }
  | .pass mem =>
    match s.holder with
    | some (.alloc waker seg t) => s.allocPass reqs mem waker seg t
    | _ => s
  | .settle =>
    match s.holder with
    | some (.resp waker seg ret) => s.settle waker seg ret
    | _ => s
  -- sm_prealloc_volume_freespace in two steps, under the lock and from the ioctl
  | .request => { s with pool := s.pool.updateFsSizeRequesting true, holder := some .task }
  | .task mem => { s with taskWorkq := if mem then s.taskWorkq ++ [true] else s.taskWorkq, holder := none }
  | .ioctl => { s with pool := s.pool.updateFsSizeRequesting true, ioctls := s.ioctls + 1 }
  | .ioctlTask mem =>
    { s with taskWorkq := if mem then s.taskWorkq ++ [false] else s.taskWorkq, ioctls := s.ioctls - 1 }
  | .hand mem => s.hand mem
  | .complete i => s.complete i
  | .wake => { s with wakers := s.wakers - 1, holder := some .peek }
  | .peek => s.peek
  | .pool e => { s with pool := s.pool.step e }

def enabled (s : FwVolume) : FwEvent → Prop
  | .submit seg => s.holder = none ∧ seg.reqID ∉ s.submitted
  | .pass _ => ∃ p ∈ s.holder, p.isAlloc = true
  | .settle => ∃ p ∈ s.holder, p.isResp = true
  | .request => s.holder = some .request
  | .task _ => s.holder = some .task
  | .ioctl => True
  | .ioctlTask _ => 0 < s.ioctls
  | .hand _ => s.taskWorkq ≠ []
  | .complete i => i < s.sent.length
  | .wake => s.holder = none ∧ 0 < s.wakers
  | .peek => s.holder = some .peek
  | .pool e => e.Outside = true

def machine (reqs : Nat → SpaceReq) : GuardedMachine FwVolume FwEvent where
  enabled := enabled
  step := step reqs

def outstanding (s : FwVolume) : Nat :=
  s.ioctls + s.taskWorkq.length + s.sent.length + if s.holder = some .task then 1 else 0

def Waking (s : FwVolume) : Prop := true ∈ s.taskWorkq ∨ true ∈ s.sent ∨ 0 < s.wakers

def inHand (s : FwVolume) : List Nat := (s.holder.map FwPoint.inHand).getD []

structure NoneStranded (s : FwVolume) : Prop where
  requesting : s.pool.fsSizeRequesting = s.outstanding
  woken : s.fwwaitQ ≠ [] → s.Waking ∨ ∃ p ∈ s.holder, p.tends = true
  once : (s.fwwaitQ.map (·.reqID) ++ s.inHand ++ s.given).Perm s.submitted
  nodup : s.submitted.Nodup

/-- A segment is told to wait only for a preallocation that wakes the queue, and then given no space. -/
def PassProvided (reqs : Nat → SpaceReq) (s : FwVolume) : FwPoint → Prop
  | .alloc _ seg t =>
    if s.pool.fsSizeRemaining < (reqs seg.reqID).lbLen then s.pool.fsSizeRequesting ≠ 0 → s.Waking
    else t.ret = .ok
  | _ => True

def Provided (reqs : Nat → SpaceReq) (s : FwVolume) : FwEvent → Prop
  | .pass _ => ∀ p ∈ s.holder, PassProvided reqs s p
  | .request => s.outstanding + 1 < 2 ^ 32
  | .ioctl => s.outstanding + 1 < 2 ^ 32
  | .task mem => mem = true
  | .ioctlTask mem => mem = true
  | .hand mem => mem = true
  | _ => True

end FwVolume
end DiscoClient
