import Mathlib.Logic.Basic
import Mathlib.Data.List.Basic

/-! A token that is with at most one of its holders. The holders are told apart by a predicate that
changes from step to step: P before the step, Q after it. -/

namespace Token
variable {α : Type*} {P Q : α → Prop} {a b : α}

structure Sole (P : α → Prop) (a : α) : Prop where
  holds : P a
  unique : ∀ b, P b → b = a

namespace Sole

theorem eq (h : Sole P a) {b c : α} (hb : P b) (hc : P c) : b = c := (h.unique b hb).trans (h.unique c hc).symm

theorem keep (h : Sole P a) (hkeep : ∀ b, Q b ↔ P b) : Sole Q a :=
  ⟨(hkeep a).mpr h.holds, fun b hb => h.unique b ((hkeep b).mp hb)⟩

theorem pass (h : Sole P a) (hb : Q b) (hrest : ∀ c, Q c → c ≠ b → P c ∧ c ≠ a) : Sole Q b := by
  refine ⟨hb, fun c hc => ?_⟩
  by_contra hne
  obtain ⟨hp, hca⟩ := hrest c hc hne
  exact hca (h.unique c hp)

theorem drop (h : Sole P a) (hrest : ∀ c, Q c → P c ∧ c ≠ a) (c : α) : ¬ Q c := fun hc =>
  (hrest c hc).2 (h.unique c (hrest c hc).1)

end Sole

theorem sole_make (h : ∀ c, ¬ P c) (hb : Q b) (hrest : ∀ c, Q c → c ≠ b → P c) : Sole Q b := by
  refine ⟨hb, fun c hc => ?_⟩
  by_contra hne
  exact h c (hrest c hc hne)

end Token
