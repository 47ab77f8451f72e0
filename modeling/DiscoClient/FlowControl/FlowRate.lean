import DiscoClient.FlowControl.FlowResource

/-! The limits of a name-node resource: set by the name node, halved by a timeout, taken back by aging.
flowcontrol/FlowControl.c. -/
namespace DiscoClient

def minNnMaxRequestsTimeout : Int := 20

def minNnFixedRateTimeout : Int := 1

/-- dms_res_item_t with what its limits start from; the numbers are of type int32_t. -/
structure FcResItem extends FcRes where
  fcSlowStartRate : Int
  fcStartMaxReqs : Int
  fcRateAgeTime : Int
  lastAccessTime : UInt64
  deriving DecidableEq, Repr

namespace FcResItem

/-- create_resource_item of a name node. -/
def create (isAvail : Bool) : FcResItem where
  isAvailable := isAvail
  fcCurrRate := 512
  fcCurrMaxReqs := 2048
  allocOutResRate := 0
  allocOutResMax := 0
  fcSlowStartRate := 128
  fcStartMaxReqs := 2048
  fcRateAgeTime := 300
  lastAccessTime := 0

def updateResRateTimeout (res : FcResItem) : FcResItem :=
  { res with
    fcCurrMaxReqs := if minNnMaxRequestsTimeout ≤ res.fcCurrMaxReqs then res.fcCurrMaxReqs >>> (1 : Nat) else minNnMaxRequestsTimeout
    fcCurrRate := if minNnFixedRateTimeout < res.fcCurrRate then res.fcCurrRate >>> (1 : Nat) else minNnFixedRateTimeout }

/-- update_resource_rate, with the numbers of a response of the name node. -/
def updateResourceRate (res : FcResItem) (slowStartRate startMaxReqs rateAgeTime currRate currMaxReqs : Int) : FcResItem :=
  { res with
    fcSlowStartRate := slowStartRate
    fcRateAgeTime := rateAgeTime
    fcCurrRate := currRate
    fcCurrMaxReqs := if 0 < currMaxReqs then currMaxReqs else minNnMaxRequestsTimeout
    fcStartMaxReqs := startMaxReqs }

/-- The resource was not used for longer than fc_rate_age_time. -/
def aged (res : FcResItem) (msecs : UInt64 → UInt32) (currTime : UInt64) : Bool :=
  timeAfter64 currTime res.lastAccessTime &&
    decide (res.fcRateAgeTime < ((msecs (currTime - res.lastAccessTime)).toNat / 1000 : Nat))

/-- What update_all_resource_rate does to a resource of its list. -/
def updateAllResourceRate (res : FcResItem) (msecs : UInt64 → UInt32) (currTime : UInt64) : FcResItem :=
  let cleared := { res with allocOutResRate := 0 }
  if res.aged msecs currTime then
    { cleared with fcCurrRate := res.fcSlowStartRate, fcCurrMaxReqs := res.fcStartMaxReqs }
  else cleared

/-- alloc_res, which notes the time of a request that is let through. -/
def allocRes (res : FcResItem) (msecs : UInt64 → UInt32) (currTime ioStartTime : UInt64) (numReqsNeed : Int) : FcResItem :=
  let out := res.toFcRes.allocRes msecs currTime ioStartTime numReqsNeed
  { res with
    toFcRes := out.1
    lastAccessTime := if out.2 = fcNoBlock then currTime else res.lastAccessTime }

/-- A request that needs n units is refused because of fc_curr_max_reqs. -/
def Refuses (res : FcRes) (n : Int) : Prop := res.fcCurrMaxReqs < (res.charge n).allocOutResMax

inductive Event where
  | update (slowStartRate startMaxReqs rateAgeTime currRate currMaxReqs : Int)
  | timeout
  | age (currTime : UInt64)
  | request (currTime ioStartTime : UInt64)
  | done
  deriving DecidableEq, Repr

def step (msecs : UInt64 → UInt32) (res : FcResItem) : Event → FcResItem
  | .update slowStartRate startMaxReqs rateAgeTime currRate currMaxReqs =>
    res.updateResourceRate slowStartRate startMaxReqs rateAgeTime currRate currMaxReqs
  | .timeout => res.updateResRateTimeout
  | .age currTime => res.updateAllResourceRate msecs currTime
  | .request currTime ioStartTime => res.allocRes msecs currTime ioStartTime 1
  | .done => { res with toFcRes := res.decResRateMaxReqs }

def run (msecs : UInt64 → UInt32) (res : FcResItem) (es : List Event) : FcResItem := es.foldl (step msecs) res

/-- What is asked of the limit after an event: it lets a request through when none is outstanding, and a timeout leaves
MIN_NN_MAX_REQUESTS_TIMEOUT at least. -/
structure Floor (e : Event) (res : FcResItem) : Prop where
  pos : 1 ≤ res.fcCurrMaxReqs
  timeout : e = .timeout → minNnMaxRequestsTimeout ≤ res.fcCurrMaxReqs
  admits : res.allocOutResMax = 0 → ¬Refuses res.toFcRes 1

/-- A timeout finds no limit between the least one and its double, and an aged resource goes back to a
positive one. -/
def Allows (msecs : UInt64 → UInt32) (res : FcResItem) : Event → Prop
  | .timeout => res.fcCurrMaxReqs < minNnMaxRequestsTimeout ∨ 2 * minNnMaxRequestsTimeout ≤ res.fcCurrMaxReqs
  | .age currTime => res.aged msecs currTime = true → 1 ≤ res.fcStartMaxReqs
  | _ => True

section
variable {msecs : UInt64 → UInt32} {res : FcResItem}

theorem allocRes_of_refuses {res : FcRes} {n : Int} (h : Refuses res n) (currTime ioStartTime : UInt64) :
    (res.allocRes msecs currTime ioStartTime n).2 = fcMaxResRequests :=
  if_neg (Int.not_le.mpr h)

theorem allocRes_limit (res : FcResItem) (currTime ioStartTime : UInt64) (n : Int) :
    (res.allocRes msecs currTime ioStartTime n).fcCurrMaxReqs = res.fcCurrMaxReqs := by
  rw [allocRes, FcRes.allocRes]
  split_ifs <;> rfl

theorem floor_step_iff (hpos : 1 ≤ res.fcCurrMaxReqs) (e : Event) : Floor e (step msecs res e) ↔ Allows msecs res e := by
  have hfloor : Floor e (step msecs res e) ↔ 1 ≤ (step msecs res e).fcCurrMaxReqs ∧
      (e = .timeout → minNnMaxRequestsTimeout ≤ (step msecs res e).fcCurrMaxReqs) := by
    constructor
    · exact fun h => ⟨h.pos, h.timeout⟩
    · rintro ⟨hone, htimeout⟩
      refine ⟨hone, htimeout, fun hnone hrefuses => ?_⟩
      rw [Refuses, FcRes.charge_allocOutResMax, hnone] at hrefuses
      omega
  rw [hfloor]
  cases e with
  | update slowStartRate startMaxReqs rateAgeTime currRate currMaxReqs =>
    refine iff_of_true ⟨?_, fun h => by cases h⟩ trivial
    change 1 ≤ if 0 < currMaxReqs then currMaxReqs else minNnMaxRequestsTimeout
    split_ifs with hmax
    · exact hmax
    · decide
  | timeout =>
    change (1 ≤ (if minNnMaxRequestsTimeout ≤ res.fcCurrMaxReqs then res.fcCurrMaxReqs >>> (1 : Nat) else minNnMaxRequestsTimeout) ∧
      (Event.timeout = .timeout → minNnMaxRequestsTimeout ≤
        if minNnMaxRequestsTimeout ≤ res.fcCurrMaxReqs then res.fcCurrMaxReqs >>> (1 : Nat) else minNnMaxRequestsTimeout)) ↔
      (res.fcCurrMaxReqs < minNnMaxRequestsTimeout ∨ 2 * minNnMaxRequestsTimeout ≤ res.fcCurrMaxReqs)
    rw [forall_prop_of_true rfl, minNnMaxRequestsTimeout, Int.shiftRight_eq_div_pow]
    split_ifs with hmax
    · omega
    · omega
  | age currTime =>
    rw [step, updateAllResourceRate, Allows]
    split_ifs with haged
    · simp only [haged, forall_const, false_implies, and_true]
    · simp only [haged, hpos, reduceCtorEq, false_implies, and_self]
  | request currTime ioStartTime =>
    refine iff_of_true ⟨?_, fun h => by cases h⟩ trivial
    rw [step, allocRes_limit]
    exact hpos
  | done => exact iff_of_true ⟨hpos, fun h => by cases h⟩ trivial

end

theorem run_concat (msecs : UInt64 → UInt32) (res : FcResItem) (pre : List Event) (e : Event) :
    run msecs res (pre ++ [e]) = step msecs (run msecs res pre) e := List.foldl_concat ..

/-- From a positive limit, the floor is kept after every event of a run just when each is allowed where it happens. -/
theorem nn_limit_floor_iff (msecs : UInt64 → UInt32) (res : FcResItem) (hpos : 1 ≤ res.fcCurrMaxReqs) (es : List Event) :
    (∀ pre e post, es = pre ++ e :: post → Floor e (run msecs res (pre ++ [e]))) ↔
      ∀ pre e post, es = pre ++ e :: post → Allows msecs (run msecs res pre) e := by
  constructor
  · intro hfloor pre e post hes
    have hlimit : 1 ≤ (run msecs res pre).fcCurrMaxReqs := by
      rcases List.eq_nil_or_concat' pre with rfl | ⟨before, last, rfl⟩
      · exact hpos
      · exact (hfloor before last (e :: post) (by rw [hes, List.append_assoc]; rfl)).pos
    have hstep := hfloor pre e post hes
    rw [run_concat] at hstep
    exact (floor_step_iff hlimit e).mp hstep
  · intro hallows pre
    induction pre using List.reverseRecOn with
    | nil =>
      intro e post hes
      exact (floor_step_iff hpos e).mpr (hallows [] e post hes)
    | append_singleton before last ih =>
      -- the event before has kept the limit positive
      intro e post hes
      have hlimit := (ih last (e :: post) (by rw [hes, List.append_assoc]; rfl)).pos
      rw [run_concat]
      exact (floor_step_iff hlimit e).mpr (hallows _ e post hes)

/-- A timeout at the start of a resource leaves half of its limit. -/
theorem nn_limit_floor_timeout : Floor .timeout (run UInt64.toUInt32 (create true) [.timeout]) := by
  refine (nn_limit_floor_iff UInt64.toUInt32 (create true) (by decide) [.timeout]).mpr (fun pre e post hes => ?_) [] .timeout [] rfl
  cases pre with
  | nil =>
    obtain ⟨rfl, rfl⟩ := List.cons.inj hes
    exact .inr (by decide)
  | cons first pre => exact absurd (congrArg List.length hes) (by simp)

/-- The name node sets a limit of 20 and a start value of 0. A timeout leaves 10, and aging 0: then a
request is refused although none is outstanding. -/
theorem nn_limit_below_floor :
    (run UInt64.toUInt32 (create true) [.update 128 0 300 512 20, .timeout]).fcCurrMaxReqs = 10 ∧
    (run UInt64.toUInt32 (create true) [.update 128 0 300 512 20, .age 400000]).fcCurrMaxReqs = 0 ∧
    (run UInt64.toUInt32 (create true) [.update 128 0 300 512 20, .age 400000]).allocOutResMax = 0 ∧
    ((run UInt64.toUInt32 (create true) [.update 128 0 300 512 20, .age 400000]).toFcRes.allocRes UInt64.toUInt32 400001 400000
      1).2 = fcMaxResRequests := by
  refine ⟨by decide, by decide, by decide, allocRes_of_refuses ?_ _ _⟩
  rw [Refuses]
  decide

end FcResItem
end DiscoClient
