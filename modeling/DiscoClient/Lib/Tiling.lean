import Mathlib.Algebra.BigOperators.Group.List.Basic
import Mathlib.Tactic.Ring

/-! Lists of ranges that tile an interval of naturals, in order and without gaps. -/

open List

/-- The ranges [start x, start x + len x) follow each other from s to e; none is empty. -/
def Tiles {α : Type*} (start len : α → Nat) : Nat → List α → Nat → Prop
  | s, [], e => s = e
  | s, x :: xs, e => start x = s ∧ 0 < len x ∧ Tiles start len (s + len x) xs e

namespace Tiles
variable {α β : Type*} {start len : α → Nat} {s m e : Nat} {xs ys : List α}

theorem append (h : Tiles start len s xs m) (k : Tiles start len m ys e) :
    Tiles start len s (xs ++ ys) e := by
  induction xs generalizing s with
  | nil => rwa [nil_append, show s = m from h]
  | cons x xs ih => exact ⟨h.1, h.2.1, ih h.2.2⟩

section

variable (h : Tiles start len s xs e)
include h

theorem sum_len : s + (xs.map len).sum = e := by
  induction xs generalizing s with
  | nil => simpa [Tiles] using h
  | cons x xs ih =>
    have := ih h.2.2
    rw [map_cons, sum_cons]
    omega

theorem le : s ≤ e := by
  have := h.sum_len
  omega

theorem bounds {x : α} (hx : x ∈ xs) :
    s ≤ start x ∧ 0 < len x ∧ start x + len x ≤ e := by
  induction xs generalizing s with
  | nil => exact absurd hx not_mem_nil
  | cons y xs ih =>
    obtain ⟨h1, h2, h3⟩ := h
    have hle := h3.le
    rcases mem_cons.mp hx with rfl | hx
    · omega
    · obtain ⟨h4, h5, h6⟩ := ih h3 hx
      omega

theorem cover {k : Nat} (hs : s ≤ k) (he : k < e) :
    ∃ x ∈ xs, start x ≤ k ∧ k < start x + len x := by
  induction xs generalizing s with
  | nil =>
    have : s = e := h
    omega
  | cons y xs ih =>
    obtain ⟨h1, h2, h3⟩ := h
    by_cases hk : k < s + len y
    · exact ⟨y, mem_cons_self, by omega, by omega⟩
    · obtain ⟨x, hx, h4, h5⟩ := ih h3 (by omega)
      exact ⟨x, mem_cons_of_mem _ hx, h4, h5⟩

end

theorem map_shift {start' len' : β → Nat} (f : α → β) (c : Nat) (h : Tiles start len s xs e)
    (hstart : ∀ x ∈ xs, start' (f x) = c + start x) (hlen : ∀ x ∈ xs, len' (f x) = len x) :
    Tiles start' len' (c + s) (xs.map f) (c + e) := by
  induction xs generalizing s with
  | nil => exact congrArg (c + ·) h
  | cons x xs ih =>
    obtain ⟨h1, h2, h3⟩ := h
    refine ⟨?_, ?_, ?_⟩
    · rw [hstart x mem_cons_self, h1]
    · rwa [hlen x mem_cons_self]
    · rw [hlen x mem_cons_self, Nat.add_assoc]
      exact ih h3 (fun y hy => hstart y (mem_cons_of_mem _ hy))
        fun y hy => hlen y (mem_cons_of_mem _ hy)

theorem start_unique {start' len' : β → Nat} (f : α → β) (c : Nat) {e' : Nat}
    (h : Tiles start len s xs e) (k : Tiles start' len' (c + s) (xs.map f) e')
    (hlen : ∀ x ∈ xs, len' (f x) = len x) {x : α} (hx : x ∈ xs) : start' (f x) = c + start x := by
  induction xs generalizing s with
  | nil => exact absurd hx not_mem_nil
  | cons y xs ih =>
    obtain ⟨h1, -, h3⟩ := h
    obtain ⟨k1, -, k3⟩ := k
    rcases mem_cons.mp hx with rfl | hx
    · rw [k1, h1]
    · rw [hlen y mem_cons_self, Nat.add_assoc] at k3
      exact ih h3 k3 (fun z hz => hlen z (mem_cons_of_mem _ hz)) hx

theorem unique (h : Tiles start len s xs e) {i j : Nat} {a b : α} (hi : xs[i]? = some a) (hj : xs[j]? = some b)
    {k : Nat} (ha : start a ≤ k ∧ k < start a + len a) (hb : start b ≤ k ∧ k < start b + len b) : i = j := by
  induction xs generalizing s i j with
  | nil => cases hi
  | cons y xs ih =>
    obtain ⟨h1, h2, h3⟩ := h
    have hlater {n : Nat} {c : α} (hc : xs[n]? = some c) : s + len y ≤ start c :=
      (h3.bounds (mem_of_getElem? hc)).1
    cases i with
    | zero =>
      obtain rfl : y = a := by simpa using hi
      cases j with
      | zero => rfl
      | succ j =>
        have := hlater (n := j) (by simpa using hj)
        omega
    | succ i =>
      cases j with
      | zero =>
        obtain rfl : y = b := by simpa using hj
        have := hlater (n := i) (by simpa using hi)
        omega
      | succ j => exact congrArg (· + 1) (ih h3 (by simpa using hi) (by simpa using hj))

theorem set (h : Tiles start len s xs e) {i : Nat} {a b : α} (hi : xs[i]? = some a) (hs : start b = start a)
    (hl : len b = len a) : Tiles start len s (xs.set i b) e := by
  induction xs generalizing s i with
  | nil => exact h
  | cons y xs ih =>
    obtain ⟨h1, h2, h3⟩ := h
    cases i with
    | zero =>
      obtain rfl : y = a := by simpa using hi
      exact ⟨hs.trans h1, hl ▸ h2, hl ▸ h3⟩
    | succ i => exact ⟨h1, h2, ih h3 (by simpa using hi)⟩

end Tiles
