import Mathlib.Algebra.BigOperators.Group.List.Basic
import Mathlib.Tactic.Ring

/-! Slices of lists, and of lists that are stored in blocks. -/

open List

def slice {α : Type*} (l : List α) (off len : Nat) : List α := (l.drop off).take len

namespace Slice
variable {α : Type*} {l b : List α} {bs : List (List α)} {off o m n k : Nat}

theorem slice_zero (l : List α) (off : Nat) : slice l off 0 = [] := take_zero

theorem slice_add (l : List α) (off m n : Nat) : slice l off (m + n) = slice l off m ++ slice l (off + m) n := by
  rw [slice, take_add, drop_drop]
  rfl

theorem length_slice (h : off + n ≤ l.length) : (slice l off n).length = n := by
  rw [slice, length_take, length_drop]
  omega

theorem slice_take (h : o + n ≤ m) : slice (l.take m) o n = slice l o n := by
  rw [slice, drop_take, take_take, Nat.min_eq_left (by omega)]
  rfl

theorem slice_slice (l : List α) (off : Nat) (h : o + n ≤ m) : slice (slice l off m) o n = slice l (off + o) n := by
  rw [slice, slice, drop_take, take_take, Nat.min_eq_left (by omega), drop_drop]
  rfl

theorem slice_append_left (l' : List α) (h : o + n ≤ l.length) : slice (l ++ l') o n = slice l o n := by
  rw [slice, drop_append_of_le_length (by omega), take_append_of_le_length (by rw [length_drop]; omega)]
  rfl

theorem slice_append_right (l l' : List α) (o n : Nat) : slice (l ++ l') (l.length + o) n = slice l' o n := by
  rw [slice, drop_length_add_append]
  rfl

theorem slice_append_across (l' : List α) (ho : o ≤ l.length) (hn : l.length ≤ o + n) :
    slice (l ++ l') o n = slice l o (l.length - o) ++ slice l' 0 (n - (l.length - o)) := by
  obtain ⟨m, rfl⟩ := Nat.exists_eq_add_of_le (show l.length - o ≤ n by omega)
  rw [slice_add, slice_append_left l' (by omega), show o + (l.length - o) = l.length + 0 by omega, slice_append_right,
    Nat.add_sub_cancel_left]

theorem slice_replicate (x : α) (h : o + n ≤ m) : slice (List.replicate m x) o n = List.replicate n x := by
  rw [slice, drop_replicate, take_replicate, Nat.min_eq_left (by omega)]

theorem slice_mul (l : List α) (off w n : Nat) :
    slice l off (n * w) = (List.range n).flatMap fun j => slice l (off + j * w) w := by
  induction n with
  | zero => rw [Nat.zero_mul, slice_zero, range_zero, flatMap_nil]
  | succ n ih => rw [Nat.succ_mul, slice_add, ih, range_succ, flatMap_append, flatMap_singleton]

theorem slice_flatten (h : bs[k]? = some b) (hle : o + n ≤ b.length) :
    slice bs.flatten (((bs.take k).map List.length).sum + o) n = slice b o n := by
  induction bs generalizing k with
  | nil => cases h
  | cons c bs ih =>
    cases k with
    | zero =>
      obtain rfl : c = b := by simpa using h
      rw [take_zero, map_nil, sum_nil, Nat.zero_add, flatten_cons, slice_append_left _ hle]
    | succ k =>
      rw [take_succ_cons, map_cons, sum_cons, flatten_cons, Nat.add_assoc, slice_append_right]
      exact ih h

end Slice
