import Mathlib.Data.List.Rotate

/-! An array that is written round and round holds the values written last. -/

namespace RingWindow
open List
variable {α : Type*}

def lastN (n : Nat) (z : α) (l : List α) : List α := (List.replicate n z ++ l).drop l.length

@[simp] theorem lastN_nil (n : Nat) (z : α) : lastN n z [] = List.replicate n z := by
  rw [lastN, append_nil]
  rfl

theorem lastN_concat {n : Nat} (hn : 0 < n) (z : α) (l : List α) (x : α) :
    lastN n z (l ++ [x]) = (lastN n z l).tail ++ [x] := by
  have hle : l.length + 1 ≤ (List.replicate n z ++ l).length := by
    rw [length_append, length_replicate]
    omega
  rw [lastN, lastN, length_append, length_singleton, ← append_assoc, drop_append_of_le_length hle,
    tail_drop]

/-- What is next behind the place written to is the oldest: read from there on, the array has lost its oldest value and
gained the one that was written. -/
theorem rotate_set {l : List α} {i : Nat} (hi : i < l.length) (x : α) :
    (l.set i x).rotate (i + 1) = (l.rotate i).tail ++ [x] := by
  have hcut : l.rotate i = l[i] :: (l.drop (i + 1) ++ l.take i) := by
    rw [rotate_eq_drop_append_take (Nat.le_of_lt hi), drop_eq_getElem_cons hi]
    rfl
  have htake : (l.set i x).take (i + 1) = l.take i ++ [x] := by
    rw [take_succ_eq_append_getElem (by rwa [length_set]), take_set_of_le (Nat.le_refl i),
      getElem_set_self]
  rw [hcut, tail_cons, rotate_eq_drop_append_take (by rwa [length_set]),
    drop_set_of_lt (Nat.lt_succ_self i), htake, append_assoc]

end RingWindow
