import Mathlib.Data.List.Basic

/-! A traversal that changes the elements of a list and carries something along, also over a list of lists. -/

def mapAccum {σ α β : Type*} (f : σ → α → σ × β) : σ → List α → σ × List β
  | s, [] => (s, [])
  | s, a :: as => ((mapAccum f (f s a).1 as).1, (f s a).2 :: (mapAccum f (f s a).1 as).2)

namespace MapAccum
variable {σ α β γ : Type*} (f : σ → α → σ × β) (s : σ)

theorem mapAccum_append (l l' : List α) :
    mapAccum f s (l ++ l') =
      ((mapAccum f (mapAccum f s l).1 l').1, (mapAccum f s l).2 ++ (mapAccum f (mapAccum f s l).1 l').2) := by
  induction l generalizing s with
  | nil => rfl
  | cons a l ih =>
    rw [List.cons_append, mapAccum, ih]
    rfl

theorem mapAccum_flatten (ls : List (List α)) :
    (mapAccum (mapAccum f) s ls).1 = (mapAccum f s ls.flatten).1 ∧
      (mapAccum (mapAccum f) s ls).2.flatten = (mapAccum f s ls.flatten).2 := by
  induction ls generalizing s with
  | nil => exact ⟨rfl, rfl⟩
  | cons l ls ih =>
    obtain ⟨hacc, hflat⟩ := ih (mapAccum f s l).1
    rw [List.flatten_cons, mapAccum_append]
    exact ⟨hacc, congrArg ((mapAccum f s l).2 ++ ·) hflat⟩

variable {f}

theorem map_mapAccum {g : α → γ} {g' : β → γ} (h : ∀ s a, g' (f s a).2 = g a) (l : List α) :
    (mapAccum f s l).2.map g' = l.map g := by
  induction l generalizing s with
  | nil => rfl
  | cons a l ih => rw [mapAccum, List.map_cons, List.map_cons, h, ih]

end MapAccum
