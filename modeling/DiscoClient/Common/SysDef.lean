import Mathlib.Tactic.Ring

/-! Block sizes, limits and the address record shared by every request of the
client node. Values are those of the system-wide definition header. -/
namespace DiscoClient

/-- Direction of a kernel request: KERNEL_IO_READ and KERNEL_IO_WRITE. -/
inductive IoDir where
  | read
  | write
  deriving DecidableEq, Repr, Inhabited

def maxSectsPerRq : Nat := 256
def numSectsPerDmsLb : Nat := 8
def maxNumRqsMerge : Nat := maxSectsPerRq
def maxLbsPerIor : Nat := maxSectsPerRq / numSectsPerDmsLb + 1
def numBytesMaxLb : Nat := (maxLbsPerIor + 7) / 8
def maxLbsPerAllocMdReq : Nat := maxSectsPerRq / numSectsPerDmsLb
def bitLenDmsLbSects : Nat := 3
def bitLenDmsLbSize : Nat := 12
def maxNumReplica : Nat := 3
def ipv4addrNmLen : Nat := 16

/-- The number around a packet, which is mnum_net_order in network order. -/
def magicNum : BitVec 64 := 0xa5a5a5a5a5a5a5a5#64

/-- A value as a uint32_t: a signed one that is compared with it, or the result of its arithmetic. -/
def toU32 (x : Int) : Nat := (x % 2 ^ 32).toNat

/-- A value as a uint64_t. -/
def toU64 (x : Int) : Nat := (x % 2 ^ 64).toNat

/-- A value as an int16_t. -/
def toS16 (x : Int) : Int := (x + 2 ^ 15) % 2 ^ 16 - 2 ^ 15

/-- A value as an int32_t. -/
def toS32 (x : Int) : Int := (x + 2 ^ 31) % 2 ^ 32 - 2 ^ 31

/-- A value as an int64_t. -/
def toS64 (x : Int) : Int := (x + 2 ^ 63) % 2 ^ 64 - 2 ^ 63

theorem toU32_of_lt {n : Nat} (h : n < 2 ^ 32) : toU32 n = n := by
  rw [toU32]
  omega

theorem toU32_lt (x : Int) : toU32 x < 2 ^ 32 := by
  rw [toU32]
  omega

theorem toU32_natCast (n : Nat) : toU32 n = n % 2 ^ 32 := by
  rw [toU32]
  omega

theorem toU32_toS32 (x : Int) : toU32 (toS32 x) = toU32 x := by
  rw [toU32, toU32, toS32]
  omega

theorem toU32_toU32_add (x d : Int) : toU32 (toU32 x + d) = toU32 (x + d) := by
  rw [toU32, toU32, toU32]
  omega

theorem toS32_of_small {x : Int} (hlow : -2 ^ 31 ≤ x) (hhigh : x < 2 ^ 31) : toS32 x = x := by
  rw [toS32]
  omega

structure UserIoAddr where
  metaSrvIpaddr : Nat
  metaSrvPort : Nat
  volumeID : Nat
  lbidLen : Nat
  lbidStart : Nat
  deriving DecidableEq, Repr

namespace UserIoAddr

structure WellFormed (a : UserIoAddr) : Prop where
  len_pos : 0 < a.lbidLen
  end_le : a.lbidStart + a.lbidLen ≤ 2^64

def Covers (a : UserIoAddr) (lb : Nat) : Prop := a.lbidStart ≤ lb ∧ lb < a.lbidStart + a.lbidLen

end UserIoAddr
end DiscoClient
