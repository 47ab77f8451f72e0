import Mathlib.Data.List.Basic

/-! Linear search in a list that is then changed at the place found: the list is cut around
the first element that satisfies a test. -/

namespace FirstMatch
variable {α : Type*} {p : α → Bool} {l xs ys : List α} {a : α}

def split (p : α → Bool) : List α → Option (List α × α × List α)
  | [] => none
  | a :: l =>
    if p a then some ([], a, l)
    else (split p l).map fun r => (a :: r.1, r.2)

theorem of_split_eq_some (h : split p l = some (xs, a, ys)) :
    l = xs ++ a :: ys ∧ p a = true ∧ ∀ b ∈ xs, p b = false := by
  induction l generalizing xs with
  | nil => cases h
  | cons b l ih =>
    rw [split] at h
    split_ifs at h with hb
    · obtain ⟨rfl, rfl, rfl⟩ : [] = xs ∧ b = a ∧ l = ys := by simpa using h
      exact ⟨rfl, hb, by simp⟩
    · obtain ⟨r, hr, hx⟩ := Option.map_eq_some_iff.mp h
      obtain ⟨rs, c, zs⟩ := r
      obtain ⟨rfl, rfl, rfl⟩ : b :: rs = xs ∧ c = a ∧ zs = ys := by simpa using hx
      obtain ⟨hl, ha, hfirst⟩ := ih hr
      refine ⟨by rw [hl, List.cons_append], ha, ?_⟩
      intro d hd
      rcases List.mem_cons.mp hd with rfl | hd
      · exact Bool.eq_false_iff.mpr hb
      · exact hfirst d hd

theorem split_map {β : Type*} (f : β → α) (l : List β) :
    split p (l.map f) = (split (fun b => p (f b)) l).map fun r => (r.1.map f, f r.2.1, r.2.2.map f) := by
  induction l with
  | nil => rfl
  | cons b l ih =>
    rw [List.map_cons, split, split]
    split_ifs
    · rfl
    · rw [ih, Option.map_map, Option.map_map]
      rfl

end FirstMatch
