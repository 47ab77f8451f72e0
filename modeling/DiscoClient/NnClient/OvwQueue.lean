import DiscoClient.Lib.FirstMatch
import DiscoClient.Lib.GuardedMachine

/-! The queue of overwrite-bitmap queries to the name node: discoNN_client/discoC_NNC_ovw.c.
A step is one critical section of the queue lock or of a request's state lock. -/
namespace DiscoClient

/-- OVW_REQ_STATE_REQ_*. -/
inductive OvwReqState where
  | ovwStart
  | sendToNn
  | processResponse
  | processResponseDone
  | cancel
  deriving DecidableEq, Repr

/-- ovw_req: addr is the address of the record, ovwPtr that of the bitmap it fills. -/
structure OvwReq where
  addr : Nat
  volId : Nat
  state : OvwReqState
  ovwPtr : Option Nat
  deriving DecidableEq, Repr

/-- A receive thread past find_ovw_req: the request it fills, and whether that was cancelled then
(set_ovw 1 instead of 2). -/
structure OvwRx where
  req : Nat
  cancelled : Bool
  deriving DecidableEq, Repr

/-- A caller of add_ovw_req that has found no query of its volume in the queue. -/
structure OvwAdder where
  volId : Nat
  ovwPtr : Nat
  deriving DecidableEq, Repr

/-- The queue and the threads at work on it; removing has the requests that receive threads are about to remove. -/
structure OvwQueue where
  ready : Bool
  queue : List OvwReq
  workingQueueSize : Int
  numSendToNn : Int
  numWaitForSend : Int
  rx : List OvwRx
  adders : List OvwAdder
  removing : List Nat
  deriving DecidableEq, Repr

def maxOvwRequestCanBeSendOut : Int := 4

namespace OvwQueue

/-- init_nnovw_manager. -/
def init (ready : Bool) : OvwQueue := ⟨ready, [], 0, 0, 0, [], [], []⟩

def wakeUp (s : OvwQueue) : Bool :=
  decide (0 < s.workingQueueSize) && decide (s.numSendToNn ≤ maxOvwRequestCanBeSendOut) &&
    decide (0 < s.numWaitForSend)

/-- find_ovw_req without a new state. -/
def findOvwReq (s : OvwQueue) (volid : Nat) : Option OvwReq :=
  if s.ready then (FirstMatch.split (·.volId == volid) s.queue).map fun r => r.2.1 else none

def dropsPtr (old : OvwReqState) : Bool :=
  old == .ovwStart || old == .sendToNn || old == .processResponseDone

/-- find_ovw_req with a new state: the request found as it was before. -/
def findSetOvwReq (s : OvwQueue) (volid : Nat) (state : OvwReqState) : OvwQueue × Option OvwReq :=
  if s.ready then
    match FirstMatch.split (·.volId == volid) s.queue with
    | none => (s, none)
    | some (before, r, after) =>
      if r.state = .cancel then (s, some r)
      else
        let cancels := state == .cancel
        let r' : OvwReq :=
          { r with state, ovwPtr := if cancels && dropsPtr r.state then none else r.ovwPtr }
        -- a request that waits to be sent is only taken off that count by a cancellation
        ({ s with
            queue := before ++ r' :: after
            numWaitForSend := s.numWaitForSend - if cancels && r.state == .ovwStart then 1 else 0
            numSendToNn := s.numSendToNn - if r.state = .sendToNn then 1 else 0 },
          some r)
  else (s, none)

/-- add_ovw_req up to the search. -/
def addFind (s : OvwQueue) (a : OvwAdder) : OvwQueue :=
  if s.ready && (s.findOvwReq a.volId).isNone then { s with adders := a :: s.adders } else s

/-- create_ovw_req, with the address the allocator gives. -/
def createOvwReq (a : OvwAdder) (addr : Nat) : OvwReq := ⟨addr, a.volId, .ovwStart, some a.ovwPtr⟩

/-- The rest of add_ovw_req; without memory nothing is queued. -/
def addInsert (s : OvwQueue) (a : OvwAdder) (addr : Option Nat) : OvwQueue :=
  match addr with
  | none => { s with adders := s.adders.erase a }
  | some addr =>
    { s with
      queue := s.queue ++ [createOvwReq a addr]
      workingQueueSize := s.workingQueueSize + 1
      numWaitForSend := s.numWaitForSend + 1
      adders := s.adders.erase a }

/-- The requests get_ovw_req stops at. -/
def stopsAt (r : OvwReq) : Bool := r.state == .ovwStart || r.state == .cancel

/-- get_ovw_req: the request to send, if it found one. -/
def getOvwReq (s : OvwQueue) : OvwQueue × Option OvwReq :=
  match FirstMatch.split stopsAt s.queue with
  | none => (s, none)
  | some (before, r, after) =>
    if r.state = .ovwStart then
      let r' := { r with state := .sendToNn }
      ({ s with
          queue := before ++ r' :: after
          numSendToNn := s.numSendToNn + 1
          numWaitForSend := s.numWaitForSend - 1 },
        some r')
    else ({ s with queue := before ++ after, workingQueueSize := s.workingQueueSize - 1 }, none)

/-- nn_ovw_response_handler up to the search for the request of the response. -/
def respBegin (s : OvwQueue) (volid : Nat) : OvwQueue :=
  match s.findSetOvwReq volid .processResponse with
  | (s', none) => s'
  | (s', some r) => { s' with rx := ⟨r.addr, r.state == .cancel⟩ :: s'.rx }

/-- The section of nn_ovw_response_handler under req_state_lock, which a thread of a cancelled request passes by;
recvFail says that the bitmap was not received whole. -/
def respEnd (s : OvwQueue) (h : OvwRx) (recvFail : Bool) : OvwQueue :=
  let s' := { s with rx := s.rx.erase h, removing := h.req :: s.removing }
  if h.cancelled then s'
  else
    match FirstMatch.split (·.addr == h.req) s.queue with
    | none => s'
    | some (before, r, after) =>
      if r.state = .cancel then s'
      else if recvFail then
        { s with rx := s.rx.erase h, queue := before ++ { r with state := .ovwStart } :: after }
      else { s' with queue := before ++ { r with state := .processResponseDone } :: after }

def rmOvwReq (s : OvwQueue) (addr : Nat) : OvwQueue :=
  match FirstMatch.split (·.addr == addr) s.queue with
  | none => s
  | some (before, _, after) =>
    { s with queue := before ++ after, workingQueueSize := s.workingQueueSize - 1 }

/-- The rest of nn_ovw_response_handler. -/
def respRemove (s : OvwQueue) (addr : Nat) : OvwQueue := ({ s with removing := s.removing.erase addr }).rmOvwReq addr

/-- release_ovw, as far as the queue is concerned. -/
def cancel (s : OvwQueue) (volid : Nat) : OvwQueue := (s.findSetOvwReq volid .cancel).1

/-- retry_nn_ovw_req for one request. -/
def retryOne (r : OvwReq) : OvwReq :=
  if r.state = .sendToNn then { r with state := .ovwStart } else r

/-- The loop of retry_nn_ovw_req. -/
def retryLoop (s : OvwQueue) : List OvwReq → OvwQueue
  | [] => s
  | r :: rest =>
    if r.state = .sendToNn then
      retryLoop { s with numSendToNn := s.numSendToNn - 1, numWaitForSend := s.numWaitForSend + 1 } rest
    else retryLoop s rest

def retryNnOvwReq (s : OvwQueue) : OvwQueue :=
  { retryLoop s s.queue with queue := s.queue.map retryOne }

inductive Event where
  | addFind (a : OvwAdder)
  | addInsert (a : OvwAdder) (addr : Option Nat)
  | take
  | respBegin (volid : Nat)
  | respEnd (h : OvwRx) (recvFail : Bool)
  | respRemove (addr : Nat)
  | cancel (volid : Nat)
  | retry
  deriving DecidableEq, Repr

def step (s : OvwQueue) : Event → OvwQueue
  | .addFind a => s.addFind a
  | .addInsert a addr => s.addInsert a addr
  | .take => s.getOvwReq.1
  | .respBegin volid => s.respBegin volid
  | .respEnd h recvFail => s.respEnd h recvFail
  | .respRemove addr => s.respRemove addr
  | .cancel volid => s.cancel volid
  | .retry => s.retryNnOvwReq

def enabled (s : OvwQueue) : Event → Prop
  | .addInsert a addr => a ∈ s.adders ∧ ∀ r ∈ s.queue, some r.addr ≠ addr
  | .respEnd h _ => h ∈ s.rx
  | .respRemove addr => addr ∈ s.removing
  | _ => True

instance decidableEnabled (s : OvwQueue) : ∀ e, Decidable (s.enabled e)
  | .addInsert a addr => inferInstanceAs (Decidable (a ∈ s.adders ∧ ∀ r ∈ s.queue, some r.addr ≠ addr))
  | .respEnd h _ => inferInstanceAs (Decidable (h ∈ s.rx))
  | .respRemove addr => inferInstanceAs (Decidable (addr ∈ s.removing))
  | .addFind _ | .take | .respBegin _ | .cancel _ | .retry => isTrue trivial

def machine : GuardedMachine OvwQueue Event := ⟨enabled, step⟩

instance (s : OvwQueue) (e : Event) : Decidable (machine.enabled s e) := decidableEnabled s e

end OvwQueue
end DiscoClient
