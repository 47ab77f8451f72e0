import DiscoClient.FlowControl.FlowResource
import DiscoClient.Lib.Countdown
import DiscoClient.Lib.RingWindow

/-! The window of response times of a resource: add_req_response_time and set_res_available of
flowcontrol/FlowControl.c. -/
namespace DiscoClient
open List

/-- RESOURCES_STAT_DATA_COLLECTING and RESOURCES_STAT_DATA_READY. -/
inductive ResState where
  | collecting
  | ready
  deriving DecidableEq, Repr

/-- The response times of dms_res_item_t; they are of type uint64_t, and so is their total. -/
structure RespTimes where
  isAvailable : Bool
  resState : ResState
  resResponseTime : List Nat
  totalResponseTime : Nat
  lastModifiedIndex : Nat
  deriving DecidableEq, Repr

namespace RespTimes
open RingWindow

/-- create_resource_item, with n for num_of_req_time_in_count; discoC_mem_alloc clears what it allocates. -/
def create (n : Nat) (isAvail : Bool) : RespTimes := ⟨isAvail, .collecting, List.replicate n 0, 0, 0⟩

/-- set_res_available of a resource that exists. -/
def setResAvailable (res : RespTimes) (isAvailable : Bool) : RespTimes :=
  if isAvailable then { res with isAvailable := true }
  else { res with
    isAvailable := false
    totalResponseTime := 0
    resResponseTime := res.resResponseTime.map fun _ => 0 }

def timePeriod (msecs : UInt64 → UInt32) (tsStart tsEnd : UInt64) : Nat :=
  if timeAfter64 tsStart tsEnd then 0 else (msecs (tsEnd - tsStart)).toNat / 1000

/-- last_modified_index after one more sample. -/
def nextIndex (res : RespTimes) : Nat :=
  if res.lastModifiedIndex + 1 = res.resResponseTime.length then 0 else res.lastModifiedIndex + 1

def addReqResponseTime (res : RespTimes) (msecs : UInt64 → UInt32) (tsStart tsEnd : UInt64) : RespTimes :=
  let period := timePeriod msecs tsStart tsEnd
  if res.isAvailable then
    { res with
      resState := if res.resState = .collecting ∧ res.lastModifiedIndex + 1 = res.resResponseTime.length then .ready
        else res.resState
      lastModifiedIndex := res.nextIndex
      totalResponseTime := ((res.totalResponseTime + period : Nat) - (res.resResponseTime[res.nextIndex]?.getD 0 : Nat) : Int)
        % 2 ^ 64 |>.toNat
      resResponseTime := res.resResponseTime.set res.nextIndex period }
  else res

inductive Event where
  | response (tsStart tsEnd : UInt64)
  | available (isAvailable : Bool)
  deriving DecidableEq, Repr

def step (msecs : UInt64 → UInt32) (res : RespTimes) : Event → RespTimes
  | .response tsStart tsEnd => res.addReqResponseTime msecs tsStart tsEnd
  | .available isAvailable => res.setResAvailable isAvailable

def run (msecs : UInt64 → UInt32) (res : RespTimes) (es : List Event) : RespTimes := es.foldl (step msecs) res

/-- Whether the resource is available, and the samples since it last became unavailable. -/
def record (msecs : UInt64 → UInt32) (r : Bool × List Nat) : Event → Bool × List Nat
  | .response tsStart tsEnd => if r.1 then (true, r.2 ++ [timePeriod msecs tsStart tsEnd]) else r
  | .available true => (true, r.2)
  | .available false => (false, [])

def recorded (msecs : UInt64 → UInt32) (isAvail : Bool) (es : List Event) : Bool × List Nat :=
  es.foldl (record msecs) (isAvail, [])

structure Window (n : Nat) (res : RespTimes) (samples : List Nat) : Prop where
  length : res.resResponseTime.length = n
  index : res.lastModifiedIndex < n
  entries : ∀ t ∈ res.resResponseTime, t < 2 ^ 32
  total : res.totalResponseTime = res.resResponseTime.sum
  last : res.resResponseTime.rotate (res.lastModifiedIndex + 1) = lastN n 0 samples

section
variable {n : Nat} {res : RespTimes} {samples : List Nat} {msecs : UInt64 → UInt32}

theorem Window.create (hn : 0 < n) (isAvail : Bool) : Window n (create n isAvail) [] where
  length := length_replicate
  index := hn
  entries := fun t ht => by
    rw [eq_of_mem_replicate ht]
    exact Nat.two_pow_pos 32
  total := by rw [RespTimes.create, sum_replicate_nat, Nat.mul_zero]
  last := by rw [RespTimes.create, rotate_replicate, lastN_nil]

theorem timePeriod_lt (msecs : UInt64 → UInt32) (tsStart tsEnd : UInt64) : timePeriod msecs tsStart tsEnd < 2 ^ 32 := by
  rw [timePeriod]
  split_ifs
  · exact Nat.two_pow_pos 32
  · have := (msecs (tsEnd - tsStart)).toNat_lt
    omega

theorem sum_lt {l : List Nat} (hn : l.length < 2 ^ 32) (h : ∀ t ∈ l, t < 2 ^ 32) : l.sum < 2 ^ 64 := by
  have hle := sum_le_card_nsmul l (2 ^ 32 - 1) fun t ht => Nat.le_sub_one_of_lt (h t ht)
  have hmul : l.length * (2 ^ 32 - 1) ≤ (2 ^ 32 - 1) * (2 ^ 32 - 1) := Nat.mul_le_mul_right _ (Nat.le_sub_one_of_lt hn)
  rw [smul_eq_mul] at hle
  omega

theorem Window.sample (h : Window n res samples) (hn : n < 2 ^ 32) (havail : res.isAvailable = true) (tsStart tsEnd : UInt64) :
    Window n (res.addReqResponseTime msecs tsStart tsEnd) (samples ++ [timePeriod msecs tsStart tsEnd]) := by
  have hindex := h.index
  have hlen := h.length
  have hnext : res.nextIndex < res.resResponseTime.length ∧
      res.resResponseTime.rotate res.nextIndex = lastN n 0 samples := by
    rw [nextIndex, ← h.last]
    split_ifs with hend
    · rw [hend, rotate_length, rotate_zero]
      exact ⟨by omega, rfl⟩
    · exact ⟨by omega, rfl⟩
  obtain ⟨hlt, hrotate⟩ := hnext
  have hperiod := timePeriod_lt msecs tsStart tsEnd
  have hentries (t) (ht : t ∈ res.resResponseTime.set res.nextIndex (timePeriod msecs tsStart tsEnd)) : t < 2 ^ 32 := by
    rcases mem_or_eq_of_mem_set ht with ht | rfl
    · exact h.entries t ht
    · exact hperiod
  have hsum := Countdown.sum_set (List.getElem?_eq_getElem hlt) (timePeriod msecs tsStart tsEnd)
  have hsumLt := sum_lt (by rw [length_set]; omega) hentries
  rw [addReqResponseTime, if_pos havail]
  refine ⟨by rw [length_set, hlen], hlen ▸ hlt, hentries, ?_, ?_⟩
  · change ((((res.totalResponseTime + timePeriod msecs tsStart tsEnd : Nat) : Int) -
      (res.resResponseTime[res.nextIndex]?.getD 0 : Nat)) % 2 ^ 64).toNat =
        (res.resResponseTime.set res.nextIndex (timePeriod msecs tsStart tsEnd)).sum
    rw [h.total, List.getElem?_eq_getElem hlt, Option.getD_some]
    omega
  · change (res.resResponseTime.set res.nextIndex _).rotate (res.nextIndex + 1) = _
    rw [rotate_set hlt, hrotate, lastN_concat (by omega)]

theorem Window.reset (h : Window n res samples) : Window n (res.setResAvailable false) [] := by
  have hzero : (res.setResAvailable false).resResponseTime = List.replicate n 0 := by
    rw [← h.length]
    exact map_const' ..
  refine ⟨by rw [hzero, length_replicate], h.index, fun t ht => ?_, ?_, ?_⟩
  · rw [hzero] at ht
    rw [eq_of_mem_replicate ht]
    exact Nat.two_pow_pos 32
  · rw [hzero, sum_replicate_nat, Nat.mul_zero]
    rfl
  · rw [hzero, rotate_replicate, lastN_nil]

structure Follows (n : Nat) (res : RespTimes) (r : Bool × List Nat) : Prop where
  avail : res.isAvailable = r.1
  window : Window n res r.2

theorem Follows.step {r : Bool × List Nat} (h : Follows n res r) (hn : n < 2 ^ 32) (e : Event) :
    Follows n (step msecs res e) (record msecs r e) := by
  obtain ⟨havail, hwindow⟩ := h
  cases e with
  | response tsStart tsEnd =>
    rw [RespTimes.step, record]
    split_ifs with hr
    · rw [hr] at havail
      refine ⟨?_, hwindow.sample hn havail tsStart tsEnd⟩
      rw [addReqResponseTime, if_pos havail, havail]
    · have hno : ¬res.isAvailable = true := by rwa [havail]
      rw [addReqResponseTime, if_neg hno]
      exact ⟨havail, hwindow⟩
  | available isAvailable =>
    cases isAvailable with
    | true => exact ⟨rfl, hwindow.length, hwindow.index, hwindow.entries, hwindow.total, hwindow.last⟩
    | false => exact ⟨rfl, hwindow.reset⟩

theorem Follows.run {r : Bool × List Nat} (h : Follows n res r) (msecs : UInt64 → UInt32) (hn : n < 2 ^ 32) (es : List Event) :
    Follows n (run msecs res es) (es.foldl (record msecs) r) := by
  induction es generalizing res r with
  | nil => exact h
  | cons e es ih => exact ih (h.step hn e)

end

/-- The total is that of the window, and the window has the last n samples recorded since the resource last became
unavailable, or zeros where there are fewer; n is a uint32_t, and last_modified_index, an int32_t, counts up to it. -/
theorem response_window_total (n : Nat) (hpos : 0 < n) (hn : n < 2 ^ 31) (msecs : UInt64 → UInt32) (isAvail : Bool)
    (es : List Event) :
    (run msecs (create n isAvail) es).totalResponseTime = (run msecs (create n isAvail) es).resResponseTime.sum ∧
      (run msecs (create n isAvail) es).resResponseTime.Perm (lastN n 0 (recorded msecs isAvail es).2) := by
  have hfollows : Follows n (create n isAvail) (isAvail, []) := ⟨rfl, Window.create hpos isAvail⟩
  obtain ⟨-, hwindow⟩ := hfollows.run msecs (by omega) es
  refine ⟨hwindow.total, ?_⟩
  rw [recorded, ← hwindow.last]
  exact (rotate_perm _ _).symm

def wrappedEvents : List Event :=
  [.response 0 5000, .response 1000 9000, .response 0 3000, .available false, .response 0 6000, .available true,
    .response 0 7000, .response 0 2000, .response 1000 5000]

/-- Two entries, written three times before and after the resource is unavailable; one jiffy is a millisecond. -/
theorem response_window_total_wrapped :
    (run UInt64.toUInt32 (create 2 true) wrappedEvents).totalResponseTime = 6 ∧
      (run UInt64.toUInt32 (create 2 true) wrappedEvents).resResponseTime.Perm [2, 4] := by
  obtain ⟨htotal, hlast⟩ := response_window_total 2 (by decide) (by decide) UInt64.toUInt32 true wrappedEvents
  have hrec : lastN 2 0 (recorded UInt64.toUInt32 true wrappedEvents).2 = [2, 4] := by decide +kernel
  rw [hrec] at hlast
  exact ⟨htotal.trans hlast.sum_eq, hlast⟩

end RespTimes
end DiscoClient
