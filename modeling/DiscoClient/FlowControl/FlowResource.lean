import DiscoClient.NnClient.NnMdReq

/-! The flow control of name-node requests: flowcontrol/FlowControl.c and discoC_NNC_workerfunc.c. -/
namespace DiscoClient

/-- What should_trigger_fc returns: FC_NO_BLOCK, FC_MAX_RES_REQUESTS, FC_RES_CONNECTION_LOST, or a time in ms. -/
def fcNoBlock : Int := 0
def fcMaxResRequests : Int := -1
def fcResConnectionLost : Int := -2

def nnRateNoLimit : Int := -1

/-- dms_res_item_t. -/
structure FcRes where
  isAvailable : Bool
  fcCurrRate : Int
  fcCurrMaxReqs : Int
  allocOutResRate : Int
  allocOutResMax : Int
  deriving DecidableEq, Repr

namespace FcRes

/-- dec_res_rate_max_reqs; the waiters it wakes look at the resource again. -/
def decResRateMaxReqs (res : FcRes) : FcRes := { res with allocOutResMax := res.allocOutResMax - 1 }

def charge (res : FcRes) (n : Int) : FcRes :=
  { res with allocOutResMax := res.allocOutResMax + n, allocOutResRate := res.allocOutResRate + n }

@[simp] theorem charge_allocOutResMax (res : FcRes) (n : Int) :
    (res.charge n).allocOutResMax = res.allocOutResMax + n := rfl

def allocResNoFc (res : FcRes) (numReqsNeed : Int) : FcRes := res.charge numReqsNeed

/-- What alloc_res decides after it has added to the counts. -/
def allocResRet (res : FcRes) (msecs : UInt64 → UInt32) (currTime ioStartTime : UInt64) : Int :=
  if res.allocOutResMax ≤ res.fcCurrMaxReqs then
    if res.fcCurrRate = nnRateNoLimit then fcNoBlock
    else if res.allocOutResRate < res.fcCurrRate then fcNoBlock
    else if timeAfter64 currTime ioStartTime then
      let ret := i32 (msecs (currTime - ioStartTime)).toNat
      if 1000 < ret then 1000 else ret
    else fcNoBlock
  else fcMaxResRequests

def allocRes (res : FcRes) (msecs : UInt64 → UInt32) (currTime ioStartTime : UInt64) (numReqsNeed : Int) :
    FcRes × Int :=
  let added := res.charge numReqsNeed
  let ret := added.allocResRet msecs currTime ioStartTime
  (if ret ≠ fcNoBlock then added.charge (-numReqsNeed) else added, ret)

/-- should_trigger_fc, for a resource that exists and a number of requests that is not 0. -/
def shouldTriggerFc (res : FcRes) (msecs : UInt64 → UInt32) (currTime ioStartTime : UInt64) (needNnRes : Int) :
    FcRes × Int :=
  if res.isAvailable then res.allocRes msecs currTime ioStartTime needNnRes else (res, fcResConnectionLost)

theorem allocRes_max (res : FcRes) (msecs : UInt64 → UInt32) (currTime ioStartTime : UInt64) :
    (res.allocRes msecs currTime ioStartTime 1).1.allocOutResMax = res.allocOutResMax +
      if (res.allocRes msecs currTime ioStartTime 1).2 = fcNoBlock then 1 else 0 := by
  by_cases hpass : (res.charge 1).allocResRet msecs currTime ioStartTime = fcNoBlock
  · simp [allocRes, hpass]
  · simp [allocRes, hpass]

theorem shouldTriggerFc_max (res : FcRes) (msecs : UInt64 → UInt32) (currTime ioStartTime : UInt64) :
    (res.shouldTriggerFc msecs currTime ioStartTime 1).1.allocOutResMax = res.allocOutResMax +
      if (res.shouldTriggerFc msecs currTime ioStartTime 1).2 = fcNoBlock then 1 else 0 := by
  by_cases havail : res.isAvailable = true
  · rw [shouldTriggerFc, if_pos havail]
    exact allocRes_max res msecs currTime ioStartTime
  · rw [shouldTriggerFc, if_neg havail]
    exact (add_zero _).symm

end FcRes
end DiscoClient
