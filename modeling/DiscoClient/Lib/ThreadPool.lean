import Mathlib.Algebra.BigOperators.Group.Finset.Basic
import Mathlib.Algebra.BigOperators.Pi
import Mathlib.Algebra.Order.BigOperators.Group.Finset

/-! Threads that run the same program, as the number of them at each program point, and
quantities that every thread contributes to by the point it is at. -/

namespace ThreadPool
variable {π : Type*} [DecidableEq π]

def enter (c : π → Nat) (b : π) : π → Nat := Function.update c b (c b + 1)

def leave (c : π → Nat) (a : π) : π → Nat := Function.update c a (c a - 1)

def move (c : π → Nat) (a b : π) : π → Nat := enter (leave c a) b

theorem leave_le (c : π → Nat) (a i : π) : leave c a i ≤ c i := by
  rw [leave, Function.update_apply]
  split_ifs with h
  · rw [h]
    exact Nat.sub_le _ _
  · exact Nat.le_refl _

variable {a : π}

theorem enter_of_ne {b i : π} (c : π → Nat) (h : i ≠ b) : enter c b i = c i := Function.update_of_ne h _ _

theorem leave_of_ne {i : π} (c : π → Nat) (h : i ≠ a) : leave c a i = c i := Function.update_of_ne h _ _

theorem move_of_ne {b i : π} (c : π → Nat) (ha : i ≠ a) (hb : i ≠ b) : move c a b i = c i :=
  (enter_of_ne _ hb).trans (leave_of_ne c ha)

theorem move_le {b i : π} (c : π → Nat) (a : π) (h : i ≠ b) : move c a b i ≤ c i :=
  (enter_of_ne _ h).trans_le (leave_le c a i)

theorem enter_pos (c : π → Nat) (b : π) : 0 < enter c b b := by
  rw [enter, Function.update_self]
  exact Nat.succ_pos _

variable [Fintype π] {w : π → Nat} {c : π → Nat}

def weight (w : π → Nat) (c : π → Nat) : Nat := ∑ i, w i * c i

theorem weight_update (w c : π → Nat) (a : π) (n : Nat) :
    weight w (Function.update c a n) + w a * c a = weight w c + w a * n := by
  have hsplit (d : π → Nat) : weight w d = w a * d a + ∑ i ∈ Finset.univ.erase a, w i * d i :=
    (Finset.add_sum_erase _ _ (Finset.mem_univ a)).symm
  have hrest : ∑ i ∈ Finset.univ.erase a, w i * Function.update c a n i = ∑ i ∈ Finset.univ.erase a, w i * c i :=
    Finset.sum_congr rfl fun i hi => by rw [Function.update_of_ne (Finset.ne_of_mem_erase hi)]
  rw [hsplit (Function.update c a n), hsplit c, hrest, Function.update_self]
  omega

theorem weight_enter (w c : π → Nat) (b : π) : weight w (enter c b) = weight w c + w b := by
  have h := weight_update w c b (c b + 1)
  rw [Nat.mul_add, Nat.mul_one] at h
  rw [enter]
  omega

theorem weight_leave (w : π → Nat) (h : 0 < c a) : weight w (leave c a) + w a = weight w c := by
  have hup := weight_update w c a (c a - 1)
  obtain ⟨n, hn⟩ := Nat.exists_eq_add_of_le' h
  rw [hn, Nat.add_sub_cancel, Nat.mul_add, Nat.mul_one] at hup
  rw [leave, hn, Nat.add_sub_cancel]
  omega

theorem weight_move (w : π → Nat) (b : π) (h : 0 < c a) : weight w (move c a b) + w a = weight w c + w b := by
  rw [move, weight_enter]
  have := weight_leave w h
  omega

theorem weight_leave_lt (h : 0 < c a) (hw : 0 < w a) : weight w (leave c a) < weight w c := by
  have := weight_leave w h
  omega

theorem weight_move_lt {b : π} (h : 0 < c a) (hw : w b < w a) : weight w (move c a b) < weight w c := by
  have := weight_move w b h
  omega

theorem le_weight (w : π → Nat) (h : 0 < c a) : w a ≤ weight w c :=
  (Nat.le_add_left _ _).trans_eq (weight_leave w h)

omit [DecidableEq π] in
theorem weight_eq_zero_iff : weight w c = 0 ↔ ∀ a, 0 < c a → w a = 0 := by
  rw [weight, Finset.sum_eq_zero_iff]
  refine ⟨fun h a ha => ?_, fun h a _ => ?_⟩
  · exact (Nat.mul_eq_zero.mp (h a (Finset.mem_univ a))).resolve_right (Nat.ne_of_gt ha)
  · rcases Nat.eq_zero_or_pos (c a) with ha | ha
    · rw [ha, Nat.mul_zero]
    · rw [h a ha, Nat.zero_mul]

theorem eq_zero_of_weight_le_one {b : π} (hle : weight w c ≤ 1) (ha : 0 < c a) (hwa : w a = 1) (hwb : w b = 1)
    (hne : b ≠ a) : c b = 0 := by
  have hleave := weight_leave w ha
  have hzero : weight w (leave c a) = 0 := by omega
  refine Nat.eq_zero_of_not_pos fun hb => ?_
  have hb' : 0 < leave c a b := by rwa [leave, Function.update_of_ne hne]
  rw [weight_eq_zero_iff.mp hzero b hb'] at hwb
  cases hwb

omit [DecidableEq π] in
theorem exists_of_weight_pos (h : 0 < weight w c) : ∃ a, 0 < c a ∧ 0 < w a := by
  by_contra hnone
  refine absurd (weight_eq_zero_iff.mpr fun a ha => ?_) (Nat.ne_of_gt h)
  exact Nat.eq_zero_of_not_pos fun hw => hnone ⟨a, ha, hw⟩

omit [DecidableEq π] in
theorem weight_zero : weight w (fun _ => 0) = 0 := weight_eq_zero_iff.mpr fun _ h => absurd h (Nat.lt_irrefl 0)

omit [DecidableEq π] in
theorem weight_mono {d : π → Nat} (h : ∀ i, w i ≠ 0 → d i ≤ c i) : weight w d ≤ weight w c := by
  refine Finset.sum_le_sum fun i _ => ?_
  rcases Nat.eq_zero_or_pos (w i) with hw | hw
  · rw [hw, Nat.zero_mul, Nat.zero_mul]
  · exact Nat.mul_le_mul_left _ (h i (Nat.ne_of_gt hw))

theorem weight_move_le (w c : π → Nat) (a b : π) : weight w (move c a b) ≤ weight w c + w b := by
  rw [move, weight_enter]
  exact Nat.add_le_add_right (weight_mono fun i _ => leave_le c a i) _

-- the sum is only reasoned about through the lemmas above
attribute [irreducible] weight

def surplus (w : π → Nat) (n : Int) (c : π → Nat) : Int := n - weight w c

variable {n m k : Int} {d : π → Nat}

theorem surplus_move {b : π} (ha : 0 < c a) (hd : d = move c a b) (hk : m + w a = n + w b + k) :
    surplus w m d = surplus w n c + k := by
  have hw := weight_move w b ha
  rw [surplus, surplus, hd]
  omega

theorem surplus_leave (ha : 0 < c a) (hd : d = leave c a) (hk : m + w a = n + k) : surplus w m d = surplus w n c + k := by
  have hw := weight_leave w ha
  rw [surplus, surplus, hd]
  omega

theorem surplus_enter {b : π} (hd : d = enter c b) (hk : m = n + w b + k) : surplus w m d = surplus w n c + k := by
  rw [surplus, surplus, hd, weight_enter]
  omega

theorem surplus_kept {b : π} (ha : 0 < c a) (hd : d = move c a b) (hm : m = n) (hw : w a = w b) :
    surplus w m d = surplus w n c + (0 : Nat) :=
  surplus_move ha hd (by omega)

theorem surplus_ref {b : π} (hd : d = enter c b) (hm : m = n + 1) (hw : w b = 1) :
    surplus w m d = surplus w n c + (0 : Nat) :=
  surplus_enter hd (by omega)

theorem surplus_deref (ha : 0 < c a) (hd : d = leave c a) (hm : m = n - 1) (hw : w a = 1) :
    surplus w m d = surplus w n c + (0 : Nat) :=
  surplus_leave ha hd (by omega)

end ThreadPool
