import Mathlib.Data.List.SplitBy
import Mathlib.Data.List.TakeWhile

/-! A list cut into its maximal runs of elements with the same key. -/

namespace Runs
open List
variable {α β : Type*} (key : α → β)

def placed (start : Nat) : List (List α) → List (Nat × List α)
  | [] => []
  | r :: rs => (start, r) :: placed (start + r.length) rs

theorem flatMap_zipIdx_placed (start : Nat) (rs : List (List α)) :
    ((placed start rs).flatMap fun b => b.2.zipIdx b.1) = rs.flatten.zipIdx start := by
  induction rs generalizing start with
  | nil => rfl
  | cons r rs ih => rw [placed, flatMap_cons, ih, flatten_cons, zipIdx_append]

theorem mem_of_mem_placed {start : Nat} {rs : List (List α)} {b : Nat × List α} (hb : b ∈ placed start rs) : b.2 ∈ rs := by
  induction rs generalizing start with
  | nil => cases hb
  | cons r rs ih =>
    rcases mem_cons.mp hb with rfl | hb
    · exact mem_cons_self
    · exact mem_cons_of_mem _ (ih hb)

/-- A run begins at an element: it is the first, or its key differs from that of the element before. -/
def Begins (l : List α) (i : Nat) : Prop := i < l.length ∧ (i = 0 ∨ l[i]?.map key ≠ l[i - 1]?.map key)

theorem begins_append {r l : List α} {b : β} (hr : r ≠ []) (hsame : ∀ x ∈ r, key x = b) (hnext : ∀ y ∈ l.head?, key y ≠ b)
    (i : Nat) : Begins key (r ++ l) i ↔ i = 0 ∨ ∃ j, i = r.length + j ∧ Begins key l j := by
  have hpos : 0 < r.length := length_pos_iff.mpr hr
  have hkey {j : Nat} (hj : j < r.length) : (r ++ l)[j]?.map key = some b := by
    rw [List.getElem?_append_left hj, List.getElem?_eq_getElem hj, Option.map_some, hsame _ (getElem_mem hj)]
  rw [Begins, length_append]
  rcases Nat.lt_or_ge i r.length with hlt | hge
  · constructor
    · rintro ⟨-, hzero | hne⟩
      · exact .inl hzero
      · exact absurd ((hkey hlt).trans (hkey (by omega)).symm) hne
    · rintro (rfl | ⟨j, rfl, -⟩)
      · exact ⟨by omega, .inl rfl⟩
      · omega
  · obtain ⟨j, rfl⟩ := Nat.exists_eq_add_of_le hge
    have hbegins : Begins key l j ↔ j < l.length ∧ (j = 0 ∨ l[j]?.map key ≠ l[j - 1]?.map key) := Iff.rfl
    have hthere : (r.length + j = 0 ∨ ∃ k, r.length + j = r.length + k ∧ Begins key l k) ↔ Begins key l j := by
      constructor
      · rintro (hzero | ⟨k, hk, hbeg⟩)
        · omega
        · rwa [Nat.add_left_cancel hk]
      · exact fun hbeg => .inr ⟨j, rfl, hbeg⟩
    rw [hthere, hbegins, List.getElem?_append_right (Nat.le_add_right _ _), Nat.add_sub_cancel_left]
    cases j with
    | zero =>
      -- the key changes here
      rw [Nat.add_zero, hkey (by omega)]
      refine ⟨fun h => ⟨by omega, .inl rfl⟩, fun h => ⟨by omega, .inr fun heq => ?_⟩⟩
      obtain ⟨y, hy, hyb⟩ := Option.map_eq_some_iff.mp heq
      exact hnext y (by rwa [List.head?_eq_getElem?]) hyb
    | succ j =>
      rw [List.getElem?_append_right (by omega), show r.length + (j + 1) - 1 - r.length = j + 1 - 1 by omega]
      refine and_congr (by omega) (or_congr ?_ Iff.rfl)
      omega

theorem take_first_run (p : α → Bool) (a : α) (l : List α) :
    (a :: l).take (1 + (l.takeWhile p).length) = a :: l.takeWhile p := by
  rw [Nat.add_comm, take_succ_cons, ← prefix_iff_eq_take.mp ( takeWhile_prefix p)]

theorem drop_first_run (p : α → Bool) (a : α) (l : List α) :
    (a :: l).drop (1 + (l.takeWhile p).length) = l.dropWhile p := by
  rw [Nat.add_comm, drop_succ_cons]
  conv => lhs; arg 2; rw [← takeWhile_append_dropWhile (p := p) (l := l)]
  rw [drop_left]

variable [BEq β]

def runs (l : List α) : List (List α) := l.splitBy fun a b => key a == key b

@[simp] theorem runs_nil : runs key [] = [] := rfl

theorem flatten_runs (l : List α) : (runs key l).flatten = l := flatten_splitBy _ l

theorem nil_notMem_runs (l : List α) : [] ∉ runs key l := nil_notMem_splitBy _ l

variable [LawfulBEq β]

/-- The first run of a list: its elements have the key of the first, and the element after it has not. -/
theorem first_run (a : α) (l : List α) :
    (∀ b ∈ a :: l.takeWhile (fun b => key b == key a), key b = key a) ∧
      ∀ y ∈ (l.dropWhile fun b => key b == key a).head?, key y ≠ key a := by
  refine ⟨fun b hb => ?_, fun y hy => ?_⟩
  · rcases mem_cons.mp hb with rfl | hb
    · rfl
    · have hb := mem_takeWhile_imp hb
      exact beq_iff_eq.mp hb
  · have hstop := List.head?_dropWhile_not (fun b => key b == key a) l
    rw [hy] at hstop
    exact beq_eq_false_iff_ne.mp hstop

theorem runs_cons (a : α) (l : List α) :
    runs key (a :: l) = (a :: l.takeWhile fun b => key b == key a) :: runs key (l.dropWhile fun b => key b == key a) := by
  obtain ⟨hsame, hnext⟩ := first_run key a l
  have hchain : (a :: l.takeWhile fun b => key b == key a).IsChain fun x y => (key x == key y) = true := by
    refine List.Pairwise.isChain (pairwise_iff_forall_sublist.mpr fun {x y} hsub => ?_)
    have hx := hsub.subset mem_cons_self
    have hy := hsub.subset (mem_cons_of_mem _ mem_cons_self)
    rw [hsame x hx, hsame y hy]
    exact beq_self_eq_true _
  have hcut : a :: l = (a :: l.takeWhile fun b => key b == key a) ++ l.dropWhile fun b => key b == key a := by
    rw [cons_append, takeWhile_append_dropWhile]
  rw [runs, hcut, splitBy_append, splitBy_of_isChain (cons_ne_nil _ _) hchain]
  · rfl
  · intro x hx y hy
    have hx := hsame x (mem_of_getLast? hx)
    rw [hx, beq_eq_false_iff_ne]
    exact (hnext y hy).symm

theorem runs_of_same {l : List α} (hl : l ≠ []) (hsame : ∀ x ∈ l, ∀ y ∈ l, key x = key y) : runs key l = [l] := by
  refine splitBy_of_isChain hl (List.Pairwise.isChain (pairwise_iff_forall_sublist.mpr fun {x y} hsub => ?_))
  have hx := hsub.subset mem_cons_self
  have hy := hsub.subset (mem_cons_of_mem _ mem_cons_self)
  exact beq_iff_eq.mpr (hsame x hx y hy)

theorem same_of_mem_runs {l r : List α} (hr : r ∈ runs key l) : ∀ x ∈ r, ∀ y ∈ r, key x = key y := by
  have hchain : r.IsChain fun x y => key x = key y :=
    (isChain_of_mem_splitBy hr).imp fun _ _ h => beq_iff_eq.mp h
  have htrans : IsTrans α fun x y => key x = key y := ⟨fun _ _ _ => Eq.trans⟩
  have hsymm : Std.Symm fun x y : α => key x = key y := ⟨fun _ _ => Eq.symm⟩
  have hpair : r.Pairwise fun x y => key x = key y := isChain_iff_pairwise.mp hchain
  intro x hx y hy
  exact List.Pairwise.forall_of_forall (R := fun x y => key x = key y) (fun _ _ => rfl) hpair hx hy

theorem exists_mem_placed_runs (start : Nat) (l : List α) (t : Nat) :
    (∃ r, (t, r) ∈ placed start (runs key l)) ↔ ∃ i, t = start + i ∧ Begins key l i := by
  induction hn : l.length using Nat.strong_induction_on generalizing start l with
  | _ n ih =>
    cases l with
    | nil =>
      refine iff_of_false (fun h => ?_) fun h => ?_
      · obtain ⟨r, hr⟩ := h
        cases hr
      · obtain ⟨i, -, hi, -⟩ := h
        exact Nat.not_lt_zero i hi
    | cons a l =>
      obtain ⟨hsame, hnext⟩ := first_run key a l
      have hshort : (l.dropWhile fun b => key b == key a).length < n := by
        rw [← hn, length_cons]
        exact Nat.lt_succ_of_le (dropWhile_sublist _).length_le
      have hrest := ih _ hshort (start + (a :: l.takeWhile fun b => key b == key a).length) _ rfl
      have hbegins := begins_append key (cons_ne_nil a (l.takeWhile fun b => key b == key a)) hsame hnext
      rw [cons_append, takeWhile_append_dropWhile] at hbegins
      rw [runs_cons, placed]
      simp only [mem_cons, Prod.mk.injEq, exists_or, exists_and_left, exists_eq, and_true, hrest, hbegins]
      constructor
      · rintro (rfl | ⟨j, rfl, hj⟩)
        · exact ⟨0, rfl, .inl rfl⟩
        · exact ⟨_, Nat.add_assoc _ _ _, .inr ⟨j, rfl, hj⟩⟩
      · rintro ⟨i, rfl, rfl | ⟨j, rfl, hj⟩⟩
        · exact .inl rfl
        · exact .inr ⟨j, (Nat.add_assoc _ _ _).symm, hj⟩

end Runs
