import Mathlib.Algebra.BigOperators.Group.List.Basic
import Mathlib.Algebra.Order.BigOperators.Group.List
import Mathlib.Tactic.Ring

/-! A counter that starts at the sum of some positive pieces and loses each of them
once: the piece that brings it to zero is the last one left. -/
namespace Countdown
open List

theorem sum_eraseIdx {l : List Nat} {k a : Nat} (h : l[k]? = some a) : (l.eraseIdx k).sum + a = l.sum := by
  obtain ⟨hlt, rfl⟩ := List.getElem?_eq_some_iff.mp h
  rw [Nat.add_comm, ← sum_cons]
  exact (getElem_cons_eraseIdx_perm hlt).sum_eq

theorem sum_set {l : List Nat} {k a : Nat} (h : l[k]? = some a) (b : Nat) :
    (l.set k b).sum + a = l.sum + b := by
  obtain ⟨hlt, rfl⟩ := List.getElem?_eq_some_iff.mp h
  have hsplit := sum_take_add_sum_drop l k
  rw [drop_eq_getElem_cons hlt, sum_cons] at hsplit
  rw [List.sum_set, if_pos hlt]
  omega

theorem sum_eq_zero_iff {l : List Nat} (hpos : ∀ a ∈ l, 0 < a) : l.sum = 0 ↔ l = [] := by
  rw [List.sum_eq_zero_iff, eq_nil_iff_forall_not_mem]
  exact forall₂_congr fun a ha => iff_false_intro (Nat.ne_of_gt (hpos a ha))

theorem last_iff {l : List Nat} {k a : Nat} (hpos : ∀ b ∈ l, 0 < b) (h : l[k]? = some a) :
    (l.sum : Int) - a = 0 ↔ l.eraseIdx k = [] := by
  have hsum := sum_eraseIdx h
  rw [← sum_eq_zero_iff fun b hb => hpos b (mem_of_mem_eraseIdx hb)]
  omega

theorem countP_set_add {α : Type} {l : List α} {k : Nat} {a : α} (hk : l[k]? = some a) (b : α)
    (p : α → Bool) :
    (l.set k b).countP p + (if p a then 1 else 0) = l.countP p + (if p b then 1 else 0) := by
  obtain ⟨hlt, rfl⟩ := List.getElem?_eq_some_iff.mp hk
  have hpos : p l[k] = true → 0 < l.countP p := fun hp => countP_pos_iff.mpr ⟨_, getElem_mem hlt, hp⟩
  rw [List.countP_set hlt]
  split_ifs with ha hb <;> simp_all

end Countdown
