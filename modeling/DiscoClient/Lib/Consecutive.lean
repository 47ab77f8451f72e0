import Mathlib.Algebra.BigOperators.Group.List.Basic
import Mathlib.Tactic.Ring

/-! Lists of ranges of naturals, possibly empty, each beginning where the one before it ends. -/

open List

def Consecutive {α : Type*} (start len : α → Nat) : Nat → List α → Nat → Prop
  | s, [], e => s = e
  | s, x :: xs, e => start x = s ∧ Consecutive start len (s + len x) xs e

namespace Consecutive
variable {α : Type*} {start len : α → Nat} {s m e : Nat} {xs ys : List α} {x : α}

instance decidable (start len : α → Nat) : ∀ s xs e, Decidable (Consecutive start len s xs e)
  | s, [], e => Nat.decEq s e
  | s, x :: xs, e =>
    match Nat.decEq (start x) s, decidable start len (s + len x) xs e with
    | isTrue h, isTrue k => isTrue ⟨h, k⟩
    | isFalse h, _ => isFalse fun c => h c.1
    | _, isFalse k => isFalse fun c => k c.2

theorem append (h : Consecutive start len s xs m) (k : Consecutive start len m ys e) :
    Consecutive start len s (xs ++ ys) e := by
  induction xs generalizing s with
  | nil => rwa [nil_append, show s = m from h]
  | cons x xs ih => exact ⟨h.1, ih h.2⟩

section

variable (h : Consecutive start len s xs e)
include h

theorem concat (hx : start x = e) :
    Consecutive start len s (xs ++ [x]) (e + len x) :=
  h.append ⟨hx, rfl⟩

theorem sum_len : s + (xs.map len).sum = e := by
  induction xs generalizing s with
  | nil => simpa [Consecutive] using h
  | cons x xs ih =>
    have := ih h.2
    rw [map_cons, sum_cons]
    omega

theorem bounds (hx : x ∈ xs) : s ≤ start x ∧ start x + len x ≤ e := by
  induction xs generalizing s with
  | nil => exact absurd hx not_mem_nil
  | cons y xs ih =>
    obtain ⟨hy, hrest⟩ := h
    have hsum := hrest.sum_len
    rcases mem_cons.mp hx with rfl | hx
    · omega
    · have := ih hrest hx
      omega

theorem start_get {k : Nat} (hx : xs[k]? = some x) :
    start x = s + ((xs.take k).map len).sum := by
  induction xs generalizing s k with
  | nil => cases hx
  | cons y xs ih =>
    obtain ⟨hy, hrest⟩ := h
    cases k with
    | zero =>
      obtain rfl : y = x := by simpa using hx
      simpa using hy
    | succ k =>
      rw [take_succ_cons, map_cons, sum_cons, ← Nat.add_assoc]
      exact ih hrest hx

end

theorem shift {start' : α → Nat} {s' e' : Nat} (d d' : Nat) (h : Consecutive start len s xs e)
    (hstart : ∀ x ∈ xs, start' x + d = start x + d') (hs : s' + d = s + d') (he : e' + d = e + d') :
    Consecutive start' len s' xs e' := by
  induction xs generalizing s s' with
  | nil =>
    have : s = e := h
    change s' = e'
    omega
  | cons x xs ih =>
    obtain ⟨hx, hrest⟩ := h
    have hx' := hstart x mem_cons_self
    exact ⟨by omega, ih hrest (fun y hy => hstart y (mem_cons_of_mem _ hy)) (by omega)⟩

theorem pairwise (h : Consecutive start len s xs e) : xs.Pairwise fun a b => start a + len a ≤ start b := by
  induction xs generalizing s with
  | nil => exact List.Pairwise.nil
  | cons x xs ih =>
    obtain ⟨hx, hrest⟩ := h
    refine List.Pairwise.cons (fun y hy => ?_) (ih hrest)
    have := (hrest.bounds hy).1
    omega

theorem cover (h : Consecutive start len s xs e) {k : Nat} (hs : s ≤ k) (he : k < e) :
    ∃ x ∈ xs, start x ≤ k ∧ k < start x + len x := by
  induction xs generalizing s with
  | nil =>
    have : s = e := h
    omega
  | cons y xs ih =>
    obtain ⟨hy, hrest⟩ := h
    by_cases hk : k < s + len y
    · exact ⟨y, mem_cons_self, by omega, by omega⟩
    · obtain ⟨x, hx, hl, hr⟩ := ih hrest (by omega)
      exact ⟨x, mem_cons_of_mem _ hx, hl, hr⟩

end Consecutive
