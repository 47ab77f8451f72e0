import DiscoClient.Lib.Wire

/-! Byte memory: strings of bytes that are written to an address and read back from it. -/

namespace Memory
open Wire List
variable {m : Nat → BitVec 8} {off n : Nat} {d d' : List (BitVec 8)}

def write (m : Nat → BitVec 8) (off : Nat) (d : List (BitVec 8)) : Nat → BitVec 8 :=
  fun a => if off ≤ a then d[a - off]?.getD (m a) else m a

def read (m : Nat → BitVec 8) : Nat → Nat → List (BitVec 8)
  | _, 0 => []
  | off, n + 1 => m off :: read m (off + 1) n

def Holds (m : Nat → BitVec 8) (off : Nat) (d : List (BitVec 8)) : Prop := read m off d.length = d

theorem write_of_lt {a : Nat} (h : a < off) : write m off d a = m a := if_neg (by omega)

theorem write_of_le {a : Nat} (h : off ≤ a) : write m off d a = d[a - off]?.getD (m a) := if_pos h

@[simp] theorem write_nil : write m off [] = m := by
  funext a
  rw [write, List.getElem?_nil, Option.getD_none, ite_self]

theorem write_append : write (write m off d) (off + d.length) d' = write m off (d ++ d') := by
  funext a
  rcases Nat.lt_or_ge a off with ha | ha
  · rw [write_of_lt (by omega), write_of_lt ha, write_of_lt ha]
  rw [write_of_le (d := d ++ d') ha]
  rcases Nat.lt_or_ge a (off + d.length) with hd | hd
  · rw [write_of_lt hd, write_of_le ha, List.getElem?_append_left (by omega)]
  · have hnone : d[a - off]? = none := List.getElem?_eq_none (by omega)
    rw [write_of_le hd, write_of_le ha, List.getElem?_append_right (by omega), hnone, Option.getD_none, Nat.sub_sub]

theorem write_before : write (write m (off + d.length) d') off d = write m off (d ++ d') := by
  funext a
  rcases Nat.lt_or_ge a off with ha | ha
  · rw [write_of_lt ha, write_of_lt (by omega), write_of_lt ha]
  rw [write_of_le ha, write_of_le (d := d ++ d') ha]
  rcases Nat.lt_or_ge a (off + d.length) with hd | hd
  · rw [write_of_lt hd, List.getElem?_append_left (by omega)]
  · have hnone : d[a - off]? = none := List.getElem?_eq_none (by omega)
    rw [write_of_le hd, List.getElem?_append_right (by omega), hnone, Option.getD_none, Nat.sub_sub]

@[simp] theorem length_read (m : Nat → BitVec 8) (off n : Nat) : (read m off n).length = n := by
  induction n generalizing off with
  | zero => rfl
  | succ n ih => rw [read, length_cons, ih]

theorem read_add (m : Nat → BitVec 8) (off k n : Nat) : read m off (k + n) = read m off k ++ read m (off + k) n := by
  induction k generalizing off with
  | zero => rw [Nat.zero_add]; rfl
  | succ k ih => rw [Nat.add_right_comm, read, ih, read, cons_append, Nat.add_right_comm off, Nat.add_assoc off]

theorem holds_append : Holds m off (d ++ d') ↔ Holds m off d ∧ Holds m (off + d.length) d' := by
  rw [Holds, length_append, read_add]
  exact ⟨fun h => append_inj h (length_read _ _ _), fun h => by rw [h.1, h.2]⟩

theorem holds_write (m : Nat → BitVec 8) (off : Nat) (d : List (BitVec 8)) : Holds (write m off d) off d := by
  induction d generalizing m off with
  | nil => rfl
  | cons b d ih =>
    have hsplit : write m off (b :: d) = write (write m off [b]) (off + 1) d := by
      rw [← singleton_append, ← write_append, length_singleton]
    have hfirst : write m off (b :: d) off = b := by rw [write_of_le le_rfl, Nat.sub_self]; rfl
    rw [Holds, length_cons, read, hfirst, hsplit, ih]

def loadU16 (m : Nat → BitVec 8) (off : Nat) : BitVec 16 := BitVec.ofNat 16 (beNat (read m off 2))

def loadU32 (m : Nat → BitVec 8) (off : Nat) : BitVec 32 := BitVec.ofNat 32 (beNat (read m off 4))

def loadU64 (m : Nat → BitVec 8) (off : Nat) : BitVec 64 := BitVec.ofNat 64 (beNat (read m off 8))

def loadU64s (m : Nat → BitVec 8) : Nat → Nat → List (BitVec 64)
  | _, 0 => []
  | off, n + 1 => loadU64 m off :: loadU64s m (off + 8) n

theorem Holds.loadU16 {x : BitVec 16} (h : Holds m off (beU16 x)) : loadU16 m off = x := by
  rw [Holds, length_u16] at h
  rw [Memory.loadU16, h, beU16, beNat_beBytes_of_lt x.isLt, BitVec.ofNat_toNat, BitVec.setWidth_eq]

theorem Holds.loadU32 {x : BitVec 32} (h : Holds m off (beU32 x)) : loadU32 m off = x := by
  rw [Holds, length_u32] at h
  rw [Memory.loadU32, h, beU32, beNat_beBytes_of_lt x.isLt, BitVec.ofNat_toNat, BitVec.setWidth_eq]

theorem Holds.loadU64 {x : BitVec 64} (h : Holds m off (beU64 x)) : loadU64 m off = x := by
  rw [Holds, length_u64] at h
  rw [Memory.loadU64, h, beU64, beNat_beBytes_of_lt x.isLt, BitVec.ofNat_toNat, BitVec.setWidth_eq]

theorem length_loadU64s (m : Nat → BitVec 8) (off n : Nat) : (loadU64s m off n).length = n := by
  induction n generalizing off with
  | zero => rfl
  | succ n ih => rw [loadU64s, length_cons, ih]

theorem Holds.loadU64s {xs : List (BitVec 64)} (h : Holds m off (xs.flatMap beU64)) : loadU64s m off xs.length = xs := by
  induction xs generalizing off with
  | nil => rfl
  | cons x xs ih =>
    rw [flatMap_cons, holds_append, length_u64] at h
    rw [length_cons, Memory.loadU64s, h.1.loadU64, ih h.2]

end Memory
