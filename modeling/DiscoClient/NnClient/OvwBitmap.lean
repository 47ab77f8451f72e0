import DiscoClient.Common.SysDef
import DiscoClient.Lib.Bitmap
import DiscoClient.Lib.Wire
import DiscoClient.NnClient.OvwQueue

/-! The overwritten bitmap of a volume, as callers and the name node's responses write it:
discoNN_client/discoC_NNC_ovw.c. -/
namespace DiscoClient
open Bitmap Wire

/-- volume_ovw_t: a bit per LB of the volume. -/
structure VolumeOvw where
  ovwInit : Bool
  ovwMemory : List (BitVec 8)
  deriving DecidableEq, Repr

def ovwSocketRecvBufferSize : Nat := 4096

/-- NN_OVW_RESPONSE_PAYLOAD_UNIT_SIZE: a first LB and a number of LBs. -/
def nnOvwResponsePayloadUnitSize : Nat := 16

/-- set_ovw_by_ptr; none for an LB behind the bitmap. -/
def setOvwByPtr (mem : List (BitVec 8)) (lbid : Nat) (bitvalue : Bool) : Option (List (BitVec 8)) :=
  mem[lbid >>> 3]?.map fun data => mem.set (lbid >>> 3) (putBit data (lbid &&& 7) bitvalue)

namespace VolumeOvw

def ovwGet (vol : VolumeOvw) (lbid : Nat) : Bool :=
  if vol.ovwInit then (vol.ovwMemory[lbid >>> 3]?.getD 0#8).getLsbD (lbid &&& 7) else false

/-- ovw_set; none where it returns false. -/
def ovwSet (vol : VolumeOvw) (lbid : Nat) (bitvalue : Bool) : Option VolumeOvw :=
  if vol.ovwInit then (setOvwByPtr vol.ovwMemory lbid bitvalue).map fun mem => { vol with ovwMemory := mem } else none

/-- set_vol_ovw_range; none for -EINVAL. -/
def setVolOvwRange (vol : VolumeOvw) (lbidS : Nat) (val : Bool) : Nat → Option VolumeOvw
  | 0 => some vol
  | n + 1 => (vol.ovwSet lbidS val).bind fun vol => vol.setVolOvwRange (lbidS + 1) val n

end VolumeOvw

/-- The loop of nn_ovw_response_handler over the LBs of one range, from the j-th one on. -/
def setOvwLbs (mem : List (BitVec 8)) (startLB j : Nat) : Nat → Option (List (BitVec 8))
  | 0 => some mem
  | n + 1 => (setOvwByPtr mem (startLB + j) true).bind fun mem => setOvwLbs mem startLB (j + 1) n

def setOvwRanges (mem payload : List (BitVec 8)) : Nat → Option (List (BitVec 8))
  | 0 => some mem
  | cnt + 1 =>
    let startLB := beNat (payload.take 8)
    let lbCnt := beNat ((payload.drop (nnOvwResponsePayloadUnitSize / 2)).take 8)
    (setOvwLbs mem startLB 0 lbCnt).bind fun mem =>
      setOvwRanges mem (payload.drop nnOvwResponsePayloadUnitSize) cnt

/-- What receiving a payload leaves: the bitmap, recv_fail and the bytes of the connection behind it. -/
structure OvwRecv where
  mem : List (BitVec 8)
  recvFail : Bool
  rx : List (BitVec 8)
  deriving DecidableEq, Repr

/-- Whether set_ovw is 2: the request of the response was found, and was not cancelled. -/
def setsOvw : Option OvwRx → Bool
  | none => false
  | some h => !h.cancelled

/-- expected_packet_recv_size. -/
def ovwExpectedRecvSize (bytesForRecv : Int) : Nat :=
  if (ovwSocketRecvBufferSize : Int) < bytesForRecv then ovwSocketRecvBufferSize else bytesForRecv.toNat

/-- The loop of nn_ovw_response_handler over the pieces of a payload. -/
def recvOvwPieces (req : Option OvwRx) (mem rx : List (BitVec 8)) (bytesForRecv : Int) : Option OvwRecv :=
  if 0 < bytesForRecv then
    match readBytes (ovwExpectedRecvSize bytesForRecv) rx with
    | none => some ⟨mem, true, []⟩
    | some (piece, rx) =>
      let mem := if setsOvw req then setOvwRanges mem piece (piece.length / nnOvwResponsePayloadUnitSize) else some mem
      mem.bind fun mem => recvOvwPieces req mem rx (bytesForRecv - ovwSocketRecvBufferSize)
  else some ⟨mem, false, rx⟩
termination_by bytesForRecv.toNat
decreasing_by all_goals simp only [ovwSocketRecvBufferSize]; omega

/-- nn_ovw_response_handler on a response to a request, from the header's len_in_byte on. -/
def nnOvwResponse (req : Option OvwRx) (mem rx : List (BitVec 8)) (lenInByte : Nat) : Option OvwRecv :=
  recvOvwPieces req mem rx (toS64 lenInByte)

structure OvwRange where
  startLB : BitVec 64
  lbCnt : BitVec 64
  deriving DecidableEq, Repr

def OvwRange.bytes (r : OvwRange) : List (BitVec 8) := beBytes 8 r.startLB.toNat ++ beBytes 8 r.lbCnt.toNat

/-- A call of set_vol_ovw_range, or a response of the name node to the volume's request (the bytes behind
the last whole range carry none). -/
inductive OvwOp where
  | range (lbidS lbidLen : Nat) (val : Bool)
  | response (req : OvwRx) (ranges : List OvwRange) (tail : List (BitVec 8))
  deriving DecidableEq, Repr

def ovwPayload (ranges : List OvwRange) (tail : List (BitVec 8)) : List (BitVec 8) := ranges.flatMap OvwRange.bytes ++ tail

def runWrites (s n : Nat) (v : Bool) (lb : Nat) : Option Bool := if s ≤ lb ∧ lb < s + n then some v else none

def rangesWrites (ranges : List OvwRange) (lb : Nat) : Option Bool :=
  if ∃ r ∈ ranges, r.startLB.toNat ≤ lb ∧ lb < r.startLB.toNat + r.lbCnt.toNat then some true else none

namespace OvwOp

/-- One operation; none where the range is refused, or the response is not received to its end. -/
def apply (vol : VolumeOvw) : OvwOp → Option VolumeOvw
  | .range lbidS lbidLen val => vol.setVolOvwRange lbidS val lbidLen
  | .response req ranges tail =>
    (nnOvwResponse (some req) vol.ovwMemory (ovwPayload ranges tail) (ovwPayload ranges tail).length).bind fun r =>
      if r.recvFail = false ∧ r.rx = [] then some { vol with ovwMemory := r.mem } else none

def applyAll (vol : VolumeOvw) : List OvwOp → Option VolumeOvw
  | [] => some vol
  | op :: ops => (op.apply vol).bind fun vol => applyAll vol ops

def writes (lb : Nat) : OvwOp → Option Bool
  | .range lbidS lbidLen val => runWrites lbidS lbidLen val lb
  | .response _ ranges _ => rangesWrites ranges lb

def lastWrite (ops : List OvwOp) (lb : Nat) : Option Bool := ops.reverse.findSome? (writes lb)

/-- An operation inside a bitmap of that many LBs. A response answers a request that stands. -/
def Inside (lbs : Nat) : OvwOp → Prop
  | .range lbidS lbidLen _ => lbidS + lbidLen ≤ lbs
  | .response req ranges tail => req.cancelled = false ∧ tail.length < nnOvwResponsePayloadUnitSize ∧
    (ovwPayload ranges tail).length < 2 ^ 64 ∧ ∀ r ∈ ranges, r.startLB.toNat + r.lbCnt.toNat ≤ lbs

/-- A response whose length is positive as an int64_t too, as the handler counts it. -/
def Counted : OvwOp → Prop
  | .range _ _ _ => True
  | .response _ ranges tail => (ovwPayload ranges tail).length < 2 ^ 63

end OvwOp

variable {vol : VolumeOvw} {mem rx : List (BitVec 8)} {lb n : Nat}

theorem VolumeOvw.ovwGet_eq (hinit : vol.ovwInit = true) : vol.ovwGet lb = bit vol.ovwMemory lb := by
  rw [ovwGet, if_pos hinit, bit, Nat.shiftRight_eq_div_pow, show (7 : Nat) = 2 ^ 3 - 1 from rfl,
    Nat.and_two_pow_sub_one_eq_mod]

theorem setOvwByPtr_spec (v : Bool) (hlb : lb < 8 * mem.length) :
    ∃ mem', setOvwByPtr mem lb v = some mem' ∧ Wrote mem (fun j => if lb = j then some v else none) mem' := by
  obtain ⟨data, hdata⟩ : ∃ data, mem[lb / 8]? = some data := ⟨_, List.getElem?_eq_getElem (by omega)⟩
  refine ⟨_, ?_, Wrote.set v hdata⟩
  rw [setOvwByPtr, Nat.shiftRight_eq_div_pow, show (7 : Nat) = 2 ^ 3 - 1 from rfl, Nat.and_two_pow_sub_one_eq_mod]
  exact congrArg (Option.map _) hdata

theorem Wrote.run_cons {mem' mem'' : List (BitVec 8)} {s : Nat} {v : Bool}
    (hfirst : Wrote mem (fun j => if s = j then some v else none) mem') (hrest : Wrote mem' (runWrites (s + 1) n v) mem'') :
    Wrote mem (runWrites s (n + 1) v) mem'' := by
  refine (hfirst.trans hrest).congr fun j => ?_
  simp only [runWrites]
  grind

theorem VolumeOvw.setVolOvwRange_spec (v : Bool) (n s : Nat) (vol : VolumeOvw) (hinit : vol.ovwInit = true)
    (hin : s + n ≤ 8 * vol.ovwMemory.length) :
    ∃ mem, vol.setVolOvwRange s v n = some { vol with ovwMemory := mem } ∧
      Wrote vol.ovwMemory (runWrites s n v) mem := by
  induction n generalizing s vol with
  | zero => exact ⟨_, rfl, (Wrote.refl _).congr fun j => (if_neg (by omega)).symm⟩
  | succ n ih =>
    obtain ⟨mem, hset, hfirst⟩ := setOvwByPtr_spec v (show s < 8 * vol.ovwMemory.length by omega)
    obtain ⟨mem', hrun, hrest⟩ := ih (s + 1) { vol with ovwMemory := mem } hinit (by
      change s + 1 + n ≤ 8 * mem.length
      rw [hfirst.length_eq]
      omega)
    refine ⟨mem', ?_, Wrote.run_cons hfirst hrest⟩
    rw [setVolOvwRange, ovwSet, if_pos hinit, hset]
    exact hrun

theorem setOvwLbs_spec (startLB n j : Nat) (mem : List (BitVec 8)) (hin : startLB + j + n ≤ 8 * mem.length) :
    ∃ mem', setOvwLbs mem startLB j n = some mem' ∧ Wrote mem (runWrites (startLB + j) n true) mem' := by
  induction n generalizing j mem with
  | zero => exact ⟨_, rfl, (Wrote.refl _).congr fun j => (if_neg (by omega)).symm⟩
  | succ n ih =>
    obtain ⟨mem', hset, hfirst⟩ := setOvwByPtr_spec true (show startLB + j < 8 * mem.length by omega)
    obtain ⟨mem'', hrun, hrest⟩ := ih (j + 1) mem' (by rw [hfirst.length_eq]; omega)
    refine ⟨mem'', ?_, Wrote.run_cons hfirst hrest⟩
    rw [setOvwLbs, hset]
    exact hrun

end DiscoClient
