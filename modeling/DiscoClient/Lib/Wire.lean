import Mathlib.Algebra.Order.Ring.Nat
import Mathlib.Tactic.Positivity.Basic
import Mathlib.Tactic.Ring

/-! Big-endian numbers in byte strings, and reading them one after the other. -/

namespace Wire
open List
variable {n w : Nat}

def beBytes : Nat → Nat → List (BitVec 8)
  | 0, _ => []
  | w + 1, n => BitVec.ofNat 8 (n / 256 ^ w) :: beBytes w n

def beNat : List (BitVec 8) → Nat
  | [] => 0
  | b :: bs => b.toNat * 256 ^ bs.length + beNat bs

@[simp] theorem length_beBytes (w n : Nat) : (beBytes w n).length = w := by
  induction w with
  | zero => rfl
  | succ w ih => rw [beBytes, length_cons, ih]

theorem beNat_beBytes (w n : Nat) : beNat (beBytes w n) = n % 256 ^ w := by
  induction w with
  | zero => rw [pow_zero, Nat.mod_one]; rfl
  | succ w ih =>
    have hsplit : n % 256 ^ (w + 1) = n % 256 ^ w + 256 ^ w * (n / 256 ^ w % 256) := Nat.mod_pow_succ
    rw [beBytes, beNat, length_beBytes, ih, BitVec.toNat_ofNat, hsplit, Nat.mul_comm, Nat.add_comm]

theorem beNat_beBytes_of_lt (h : n < 256 ^ w) : beNat (beBytes w n) = n := by
  rw [beNat_beBytes, Nat.mod_eq_of_lt h]

theorem beBytes_add_mul (v a b : Nat) : beBytes v (a * 256 ^ v + b) = beBytes v b := by
  induction v generalizing a with
  | zero => rfl
  | succ v ih =>
    have hdiv : (a * 256 ^ (v + 1) + b) / 256 ^ v = a * 256 + b / 256 ^ v := by
      rw [pow_succ', ← Nat.mul_assoc, Nat.add_comm, Nat.add_mul_div_right _ _ (by positivity), Nat.add_comm]
    have hbyte : BitVec.ofNat 8 (a * 256 + b / 256 ^ v) = BitVec.ofNat 8 (b / 256 ^ v) := by
      apply BitVec.eq_of_toNat_eq
      rw [BitVec.toNat_ofNat, BitVec.toNat_ofNat]
      omega
    rw [beBytes, hdiv, hbyte, pow_succ', ← Nat.mul_assoc, ih, beBytes]

theorem beBytes_append {v b : Nat} (hb : b < 256 ^ v) (w a : Nat) :
    beBytes w a ++ beBytes v b = beBytes (w + v) (a * 256 ^ v + b) := by
  induction w with
  | zero => rw [Nat.zero_add, beBytes_add_mul]; rfl
  | succ w ih =>
    have hdiv : (a * 256 ^ v + b) / 256 ^ (w + v) = a / 256 ^ w := by
      rw [Nat.add_comm w v, pow_add, ← Nat.div_div_eq_div_mul, Nat.add_comm, Nat.add_mul_div_right _ _ (by positivity),
        Nat.div_eq_of_lt hb, Nat.zero_add]
    rw [beBytes, cons_append, ih, Nat.add_right_comm, beBytes, hdiv]

def readBytes (n : Nat) (l : List (BitVec 8)) : Option (List (BitVec 8) × List (BitVec 8)) :=
  if n ≤ l.length then some (l.take n, l.drop n) else none

theorem readBytes_append (s l : List (BitVec 8)) : readBytes s.length (s ++ l) = some (s, l) := by
  rw [readBytes, if_pos (by rw [length_append]; omega), take_left, drop_left]

def readWord (w n : Nat) (l : List (BitVec 8)) : Option (BitVec n × List (BitVec 8)) := do
  let (s, l) ← readBytes w l
  return (BitVec.ofNat n (beNat s), l)

theorem readWord_append (h : n ≤ 8 * w) (x : BitVec n) (l : List (BitVec 8)) :
    readWord w n (beBytes w x.toNat ++ l) = some (x, l) := by
  have hlt : x.toNat < 256 ^ w := by
    calc x.toNat < 2 ^ n := x.isLt
      _ ≤ 2 ^ (8 * w) := Nat.pow_le_pow_right (by decide) h
      _ = 256 ^ w := pow_mul 2 8 w
  have hread := readBytes_append (beBytes w x.toNat) l
  rw [length_beBytes] at hread
  simp only [readWord, hread, Option.bind_eq_bind, Option.bind_some, beNat_beBytes_of_lt hlt, BitVec.ofNat_toNat,
    BitVec.setWidth_eq]
  rfl

def beU16 (x : BitVec 16) : List (BitVec 8) := beBytes 2 x.toNat

def beU32 (x : BitVec 32) : List (BitVec 8) := beBytes 4 x.toNat

def beU64 (x : BitVec 64) : List (BitVec 8) := beBytes 8 x.toNat

def readU16 (l : List (BitVec 8)) : Option (BitVec 16 × List (BitVec 8)) := readWord 2 16 l

def readU32 (l : List (BitVec 8)) : Option (BitVec 32 × List (BitVec 8)) := readWord 4 32 l

def readU64 (l : List (BitVec 8)) : Option (BitVec 64 × List (BitVec 8)) := readWord 8 64 l

@[simp] theorem length_u16 (x : BitVec 16) : (beU16 x).length = 2 := length_beBytes _ _
@[simp] theorem length_u32 (x : BitVec 32) : (beU32 x).length = 4 := length_beBytes _ _
@[simp] theorem length_u64 (x : BitVec 64) : (beU64 x).length = 8 := length_beBytes _ _

@[simp] theorem readU16_append (x : BitVec 16) (l : List (BitVec 8)) : readU16 (beU16 x ++ l) = some (x, l) :=
  readWord_append (show 16 ≤ 8 * 2 by decide) x l

@[simp] theorem readU32_append (x : BitVec 32) (l : List (BitVec 8)) : readU32 (beU32 x ++ l) = some (x, l) :=
  readWord_append (show 32 ≤ 8 * 4 by decide) x l

@[simp] theorem readU64_append (x : BitVec 64) (l : List (BitVec 8)) : readU64 (beU64 x ++ l) = some (x, l) :=
  readWord_append (show 64 ≤ 8 * 8 by decide) x l

def readU64s : Nat → List (BitVec 8) → Option (List (BitVec 64) × List (BitVec 8))
  | 0, l => some ([], l)
  | k + 1, l => do
    let (x, l) ← readU64 l
    let (xs, l) ← readU64s k l
    return (x :: xs, l)

@[simp] theorem length_flatMap_u64 (xs : List (BitVec 64)) : (xs.flatMap beU64).length = 8 * xs.length := by
  induction xs with
  | nil => rfl
  | cons x xs ih =>
    rw [flatMap_cons, length_append, length_u64, ih, length_cons, Nat.mul_succ, Nat.add_comm]

theorem readU64s_append (xs : List (BitVec 64)) (l : List (BitVec 8)) :
    readU64s xs.length (xs.flatMap beU64 ++ l) = some (xs, l) := by
  induction xs with
  | nil => rfl
  | cons x xs ih =>
    rw [length_cons, flatMap_cons, append_assoc, readU64s, readU64_append]
    simp only [Option.bind_eq_bind, Option.bind_some, ih]
    rfl

end Wire
