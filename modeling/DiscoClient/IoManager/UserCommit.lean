import DiscoClient.IoManager.IoMerge
import DiscoClient.Lib.GuardedMachine

/-! Commit of block requests to the kernel: IOMgr_submit_IOReq and ioReq_commit_user. The block requests of
a volume are numbered in the order they are queued; an array handed to do_io_batch is the window from base
to stop of that order. -/
namespace DiscoClient

/-- dms_rq_t, with the results the kernel has been told so far. -/
@[ext]
structure DmsRq where
  numRefIor : Nat
  result : Bool
  commits : List Bool
  deriving DecidableEq, Repr

/-- init_dms_rq. -/
def DmsRq.init : DmsRq := ⟨0, true, []⟩

/-- An IO request as its commit to the user sees it: its block requests, the bit
IOREQ_FEA_CIUSER, and how it ended. -/
structure UserIo where
  firstRq : Nat
  numRqs : Nat
  ciUser : Bool
  outcome : Option Bool
  deriving DecidableEq, Repr

structure UserCommitState where
  rq : Nat → DmsRq
  pos : Nat
  sectS : Nat
  ios : List UserIo

/-- atomic_sub_return(1, ..) on a 32-bit counter. -/
def atomicDec (v : Nat) : Nat := (v + (2^32 - 1)) % 2^32

/-- Loop body of ioReq_commit_user. A committed request is zeroed and freed. -/
def commitRq (result : Bool) (q : DmsRq) : DmsRq :=
  let res := q.result && result
  let ref := atomicDec q.numRefIor
  if ref = 0 then ⟨0, false, q.commits ++ [res]⟩ else ⟨ref, res, q.commits⟩

/-- Loop body of _init_IOR_fail_free_allRQ. -/
def failFreeRq (q : DmsRq) : DmsRq :=
  let ref := atomicDec q.numRefIor
  if ref = 0 then ⟨ref, false, q.commits ++ [false]⟩ else ⟨ref, false, q.commits⟩

def forRqs (body : DmsRq → DmsRq) (base lo hi : Nat) (rq : Nat → DmsRq) : Nat → DmsRq :=
  ((List.range' lo (hi - lo)).map (base + ·)).foldl (fun f i => Function.update f i (body (f i))) rq

/-- _init_IOR_fail_free_allRQ: the loop runs from index_s to num_rqs. -/
def initIorFailFreeAllRq (base indexS numRqs : Nat) (rq : Nat → DmsRq) : Nat → DmsRq :=
  forRqs failFreeRq base indexS numRqs rq

namespace UserCommitState
variable (rqs : Nat → BlkRq)

/-- The call of get_merge_len that builds the next group of the window. -/
def nextGroup (s : UserCommitState) (base stop : Nat) : MergeRes :=
  getMergeLen (fun k => rqs (base + k)) (s.pos - base) (stop - base - 1) s.sectS
    fun k => (s.rq (base + k)).numRefIor

/-- The reference counts get_merge_len leaves. -/
def withRefs (s : UserCommitState) (base : Nat) (g : MergeRes) : Nat → DmsRq := fun j =>
  if base ≤ j then { s.rq j with numRefIor := g.numRefIor (j - base) } else s.rq j

/-- One round of do_io_batch that submits its group, IOMgr_submit_IOReq getting the IO request or not. At
the end of a window the next start sector is that of the next queued request, as deq_dms_rq_list returns it.
-/
def submit (s : UserCommitState) (base stop : Nat) (ok : Bool) : UserCommitState :=
  let g := s.nextGroup rqs base stop
  let next := if g.lastRqMultiRef then s.pos + g.mergeLen - 1 else s.pos + g.mergeLen
  let rq := s.withRefs base g
  { rq := if ok then rq else initIorFailFreeAllRq base (s.pos - base) g.mergeLen rq
    pos := next
    sectS := if g.lastRqMultiRef then (s.sectS + g.sectLen) % 2^64 else (rqs next).pos
    ios := s.ios ++ [⟨s.pos, g.mergeLen, !ok, if ok then none else some false⟩] }

/-- One round of do_io_batch that leaves its group for later. -/
def hold (s : UserCommitState) (base stop : Nat) : UserCommitState :=
  { s with rq := s.withRefs base (s.nextGroup rqs base stop) }

def ioReqCommitUser (s : UserCommitState) (k : Nat) (result : Bool) : UserCommitState :=
  match s.ios[k]? with
  | none => s
  | some io =>
    if io.ciUser then s
    else
      { s with
        rq := forRqs (commitRq result) io.firstRq 0 io.numRqs s.rq
        ios := s.ios.set k { io with ciUser := true, outcome := some result } }

def init : UserCommitState := ⟨fun _ => .init, 0, (rqs 0).pos, []⟩

end UserCommitState

/-- Groups are built in any windows while IO requests end in any order; only a short group at the end waits.
-/
inductive UserCommitEvent where
  | submit (base stop : Nat) (ok : Bool)
  | hold (base stop : Nat)
  | complete (k : Nat) (result : Bool)
  deriving DecidableEq, Repr

def userCommitMachine (rqs : Nat → BlkRq) : GuardedMachine UserCommitState UserCommitEvent where
  enabled
    | s, .submit base stop _ => base ≤ s.pos ∧ s.pos < stop
    | s, .hold base stop => base ≤ s.pos ∧ s.pos < stop ∧ (rqs s.pos).dir = .write ∧
      (s.nextGroup rqs base stop).sectLen < maxSectsPerRq ∧
      s.pos + (s.nextGroup rqs base stop).mergeLen = stop
    | s, .complete k _ => k < s.ios.length
  step
    | s, .submit base stop ok => s.submit rqs base stop ok
    | s, .hold base stop => s.hold rqs base stop
    | s, .complete k result => s.ioReqCommitUser k result

instance (rqs : Nat → BlkRq) (s : UserCommitState) : ∀ e, Decidable ((userCommitMachine rqs).enabled s e)
  | .submit .. => inferInstanceAs (Decidable (_ ∧ _))
  | .hold .. => inferInstanceAs (Decidable (_ ∧ _))
  | .complete .. => inferInstanceAs (Decidable (_ < _))

end DiscoClient
