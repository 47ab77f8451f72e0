import Mathlib.Algebra.BigOperators.Group.Finset.Basic
import Mathlib.Data.List.Nodup
import Mathlib.Logic.Function.Basic
import Mathlib.Tactic.Ring

/-! Tables that are updated at one index, or at one index after another. -/

theorem foldl_update_nodup {ι α : Type*} [DecidableEq ι] (g : α → α) (l : List ι) (hl : l.Nodup)
    (f : ι → α) :
    l.foldl (fun f i => Function.update f i (g (f i))) f = fun i => if i ∈ l then g (f i) else f i := by
  induction l generalizing f with
  | nil => simp
  | cons a l ih =>
    obtain ⟨ha, hl'⟩ := List.nodup_cons.mp hl
    rw [List.foldl_cons, ih hl']
    funext i
    by_cases hi : i = a
    · subst hi
      simp [ha]
    · simp [hi]

theorem sum_succ_at {ι : Type*} [DecidableEq ι] {s : Finset ι} {f g : ι → Nat} {i : ι} (hi : i ∈ s)
    (hat : g i = f i + 1) (hoff : ∀ j, j ≠ i → g j = f j) : ∑ j ∈ s, g j = ∑ j ∈ s, f j + 1 := by
  have hrest : ∑ j ∈ s.erase i, g j = ∑ j ∈ s.erase i, f j :=
    Finset.sum_congr rfl fun j hj => hoff j (Finset.ne_of_mem_erase hj)
  rw [← Finset.add_sum_erase s g hi, ← Finset.add_sum_erase s f hi, hat, hrest]
  omega
