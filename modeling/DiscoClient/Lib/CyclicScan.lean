import Mathlib.Data.List.Rotate

/-! Scanning the numbers below n from a start, and from 0 once the end is reached. -/

open List

def cyclicFrom (n start : Nat) : List Nat := List.range' start (n - start) ++ List.range start

namespace CyclicScan
variable {n start x : Nat} {pre post : List Nat}

theorem cyclicFrom_eq_rotate (h : start ≤ n) : cyclicFrom n start = (List.range n).rotate start := by
  have hdrop : (List.range n).drop start = List.range' start (n - start) := by
    rw [range_eq_range', drop_range', Nat.mul_one, Nat.zero_add]
  rw [rotate_eq_drop_append_take (by simpa using h), hdrop, take_range, Nat.min_eq_left h, cyclicFrom]

theorem cyclicFrom_eq_map (h : start ≤ n) : cyclicFrom n start = (List.range n).map fun j => (start + j) % n := by
  refine ext_getElem? fun j => ?_
  rw [cyclicFrom_eq_rotate h, List.getElem?_map]
  rcases Nat.lt_or_ge j n with hj | hj
  · rw [List.getElem?_rotate (by rwa [length_range]), length_range, List.getElem?_range hj,
      List.getElem?_range (Nat.mod_lt _ (Nat.zero_lt_of_lt hj)), Nat.add_comm]
    rfl
  · rw [List.getElem?_eq_none (by rwa [length_rotate, length_range]),
      List.getElem?_eq_none (by rwa [length_range])]
    rfl

theorem cyclicFrom_cons (h : start < n) : ∃ rest, cyclicFrom n start = start :: rest := by
  obtain ⟨k, hk⟩ := Nat.exists_eq_add_of_lt h
  refine ⟨List.range' (start + 1) k ++ List.range start, ?_⟩
  rw [cyclicFrom, show n - start = k + 1 by omega, range'_succ]
  rfl

theorem mem_cyclicFrom (h : start ≤ n) : x ∈ cyclicFrom n start ↔ x < n := by
  rw [cyclicFrom_eq_rotate h, mem_rotate, mem_range]

theorem nodup_cyclicFrom (h : start ≤ n) : (cyclicFrom n start).Nodup := by
  rw [cyclicFrom_eq_rotate h, nodup_rotate]
  exact nodup_range

theorem cyclicFrom_of_split (hs : start ≤ n) (h : cyclicFrom n start = pre ++ x :: post) :
    cyclicFrom n x = x :: post ++ pre := by
  have hxn : x < n := (mem_cyclicFrom hs).mp (h ▸ mem_append_right _ mem_cons_self)
  rw [cyclicFrom_eq_rotate hs] at h
  have hlen := congrArg List.length h
  simp only [length_rotate, length_range, length_append, length_cons] at hlen
  have hx : (start + pre.length) % n = x := by
    have hget : ((List.range n).rotate start)[pre.length]? = some x := by rw [h]; simp
    rw [List.getElem?_rotate (by rw [length_range]; omega), length_range,
      List.getElem?_range (Nat.mod_lt _ (by omega)), Nat.add_comm] at hget
    exact Option.some.inj hget
  have hcut := congrArg (List.rotate · pre.length) h
  rw [rotate_append_length_eq, rotate_rotate, ← rotate_mod, length_range, hx] at hcut
  rw [cyclicFrom_eq_rotate (Nat.le_of_lt hxn), hcut]

end CyclicScan
