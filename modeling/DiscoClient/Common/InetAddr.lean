import DiscoClient.Common.SysDef

/-! IPv4 addresses as dotted strings: ccma_inet_ntoa and ccma_inet_aton of common/common_util.c. -/
namespace DiscoClient
open List

def isDigit (b : BitVec 8) : Bool := 48 ≤ b.toNat && b.toNat ≤ 57

def decNat (s : List (BitVec 8)) : Nat := s.foldl (fun v b => 10 * v + (b.toNat - 48)) 0

/-- What %d of sscanf reads, for a string without blanks and signs; none if there is no digit. -/
def scanInt (s : List (BitVec 8)) : Option (Nat × List (BitVec 8)) :=
  if s.takeWhile isDigit = [] then none else some (decNat (s.takeWhile isDigit), s.dropWhile isDigit)

def scanDot : List (BitVec 8) → Option (List (BitVec 8))
  | [] => none
  | b :: s => if b = 46#8 then some s else none

/-- Four values, stored in the bytes of a uint32_t in the order of memory. -/
def inetAddr (a b c d : Nat) : BitVec 32 :=
  BitVec.ofNat 32 (a % 2 ^ 8 + 2 ^ 8 * (b % 2 ^ 8) + 2 ^ 16 * (c % 2 ^ 8) + 2 ^ 24 * (d % 2 ^ 8))

/-- ccma_inet_ntoa; none where sscanf leaves a value unset. -/
def ccmaInetNtoa (s : List (BitVec 8)) : Option (BitVec 32) := do
  let (a, s) ← scanInt s
  let s ← scanDot s
  let (b, s) ← scanInt s
  let s ← scanDot s
  let (c, s) ← scanInt s
  let s ← scanDot s
  let (d, _) ← scanInt s
  return inetAddr a b c d

structure Octet where
  str : List (BitVec 8)
  digits : ∀ b ∈ str, isDigit b = true
  ne_nil : str ≠ []
  length_le : str.length ≤ 3
  value_lt : decNat str < 2 ^ 8

structure DottedIp where
  a : Octet
  b : Octet
  c : Octet
  d : Octet

namespace DottedIp

def str (ip : DottedIp) : List (BitVec 8) :=
  ip.a.str ++ 46#8 :: (ip.b.str ++ 46#8 :: (ip.c.str ++ 46#8 :: ip.d.str))

def addr (ip : DottedIp) : BitVec 32 :=
  inetAddr (decNat ip.a.str) (decNat ip.b.str) (decNat ip.c.str) (decNat ip.d.str)

theorem length_str_le (ip : DottedIp) : ip.str.length ≤ 15 := by
  have ha := ip.a.length_le
  have hb := ip.b.length_le
  have hc := ip.c.length_le
  have hd := ip.d.length_le
  simp only [str, length_append, length_cons]
  omega

end DottedIp

theorem scanInt_octet (o : Octet) (s : List (BitVec 8)) :
    scanInt (o.str ++ s) = some (decNat (o.str ++ s.takeWhile isDigit), s.dropWhile isDigit) := by
  rw [scanInt, takeWhile_append_of_pos o.digits, dropWhile_append_of_pos o.digits,
    if_neg (by simp [o.ne_nil])]

theorem scanInt_octet_dot (o : Octet) (s : List (BitVec 8)) :
    scanInt (o.str ++ 46#8 :: s) = some (decNat o.str, 46#8 :: s) := by
  have hdot : isDigit 46#8 = false := rfl
  rw [scanInt_octet, takeWhile_cons_of_neg (by simp [hdot]), dropWhile_cons_of_neg (by simp [hdot]),
    append_nil]

theorem ccmaInetNtoa_str (ip : DottedIp) (s : List (BitVec 8)) :
    ccmaInetNtoa (ip.str ++ s) = some (inetAddr (decNat ip.a.str) (decNat ip.b.str) (decNat ip.c.str)
      (decNat (ip.d.str ++ s.takeWhile isDigit))) := by
  have hstr : ip.str ++ s = ip.a.str ++ 46#8 :: (ip.b.str ++ 46#8 :: (ip.c.str ++ 46#8 :: (ip.d.str ++ s))) := by
    simp only [DottedIp.str, append_assoc, cons_append]
  have hdot (l : List (BitVec 8)) : scanDot (46#8 :: l) = some l := by rw [scanDot, if_pos rfl]
  simp only [ccmaInetNtoa, hstr, scanInt_octet_dot, hdot, Option.bind_eq_bind, Option.bind_some]
  rw [scanInt_octet]
  rfl

theorem inetAddr_inj_last {a b c d d' : Nat} : inetAddr a b c d = inetAddr a b c d' ↔ d % 2 ^ 8 = d' % 2 ^ 8 := by
  constructor
  · intro h
    have h := congrArg BitVec.toNat h
    simp only [inetAddr, BitVec.toNat_ofNat] at h
    omega
  · intro h
    rw [inetAddr, inetAddr, h]

def octetStr (x : BitVec 8) : List (BitVec 8) :=
  let digit (k : Nat) := BitVec.ofNat 8 (48 + k)
  if x.toNat < 10 then [digit x.toNat]
  else if x.toNat < 100 then [digit (x.toNat / 10), digit (x.toNat % 10)]
  else [digit (x.toNat / 100), digit (x.toNat / 10 % 10), digit (x.toNat % 10)]

theorem toNat_digit {k : Nat} (h : k < 10) : (BitVec.ofNat 8 (48 + k)).toNat = 48 + k := by
  rw [BitVec.toNat_ofNat, Nat.mod_eq_of_lt (by omega)]

theorem isDigit_digit {k : Nat} (h : k < 10) : isDigit (BitVec.ofNat 8 (48 + k)) = true := by
  rw [isDigit, toNat_digit h, Bool.and_eq_true, decide_eq_true_iff, decide_eq_true_iff]
  omega

theorem octetStr_digits (x : BitVec 8) : ∀ b ∈ octetStr x, isDigit b = true := by
  have hx := x.isLt
  simp only [octetStr]
  split_ifs
  · exact forall_mem_singleton.mpr (isDigit_digit (by omega))
  · exact forall_mem_cons.mpr
      ⟨isDigit_digit (by omega), forall_mem_singleton.mpr (isDigit_digit (by omega))⟩
  · exact forall_mem_cons.mpr ⟨isDigit_digit (by omega), forall_mem_cons.mpr
      ⟨isDigit_digit (by omega), forall_mem_singleton.mpr (isDigit_digit (by omega))⟩⟩

theorem octetStr_ne_nil (x : BitVec 8) : octetStr x ≠ [] := by
  simp only [octetStr]
  split_ifs <;> exact cons_ne_nil _ _

theorem length_octetStr_le (x : BitVec 8) : (octetStr x).length ≤ 3 := by
  simp only [octetStr]
  split_ifs <;> simp only [length_cons, length_nil] <;> omega

theorem decNat_octetStr (x : BitVec 8) : decNat (octetStr x) = x.toNat := by
  have hx := x.isLt
  simp only [octetStr]
  split_ifs
  · simp only [decNat, foldl_cons, foldl_nil]
    rw [toNat_digit (by omega)]
    omega
  · simp only [decNat, foldl_cons, foldl_nil]
    rw [toNat_digit (by omega), toNat_digit (by omega)]
    omega
  · simp only [decNat, foldl_cons, foldl_nil]
    rw [toNat_digit (by omega), toNat_digit (by omega), toNat_digit (by omega)]
    omega

theorem decNat_octetStr_lt (x : BitVec 8) : decNat (octetStr x) < 2 ^ 8 := by
  rw [decNat_octetStr]
  exact x.isLt

def Octet.ofByte (x : BitVec 8) : Octet :=
  ⟨octetStr x, octetStr_digits x, octetStr_ne_nil x, length_octetStr_le x, decNat_octetStr_lt x⟩

def DottedIp.ofBytes (a b c d : BitVec 8) : DottedIp := ⟨.ofByte a, .ofByte b, .ofByte c, .ofByte d⟩

def DottedIp.ofAddr (ipaddr : BitVec 32) : DottedIp :=
  .ofBytes (ipaddr.extractLsb' 0 8) (ipaddr.extractLsb' 8 8) (ipaddr.extractLsb' 16 8) (ipaddr.extractLsb' 24 8)

/-- ccma_inet_aton into a buffer of that length: the string, then NULs. -/
def ccmaInetAton (ipaddr : BitVec 32) (len : Nat) : List (BitVec 8) :=
  (DottedIp.ofAddr ipaddr).str ++ List.replicate (len - (DottedIp.ofAddr ipaddr).str.length) 0#8

theorem length_ccmaInetAton (ipaddr : BitVec 32) {len : Nat} (h : 15 ≤ len) :
    (ccmaInetAton ipaddr len).length = len := by
  have hstr := (DottedIp.ofAddr ipaddr).length_str_le
  rw [ccmaInetAton, length_append, length_replicate]
  omega

end DiscoClient
