import DiscoClient.Space.SpacePool

namespace DiscoClient.SpaceMetadata
open List
variable {md : SpaceMetadata} {items : List SpaceMdItem}

theorem push_length (md : SpaceMetadata) (it : SpaceMdItem) :
    (md.push it).arrayMetadata.length = md.arrayMetadata.length := length_set

theorem foldl_push_length (md : SpaceMetadata) (items : List SpaceMdItem) :
    (items.foldl push md).arrayMetadata.length = md.arrayMetadata.length := by
  induction items generalizing md with
  | nil => rfl
  | cons it items ih => exact (ih (md.push it)).trans (md.push_length it)

theorem foldl_push_overrun (items : List SpaceMdItem) (h : md.overrun = true) :
    (items.foldl push md).overrun = true := by
  induction items generalizing md with
  | nil => exact h
  | cons it items ih =>
    apply ih
    rw [push, h]
    rfl

theorem foldl_push_ne_nil (md : SpaceMetadata) (hlen : md.arrayMetadata.length < 2 ^ 16) (hne : items ≠ []) :
    0 < (items.foldl push md).numMDItems ∨ (items.foldl push md).overrun = true := by
  obtain ⟨xs, it, rfl⟩ := eq_nil_or_concat items |>.resolve_left hne
  rw [concat_eq_append, foldl_concat]
  have hxs := foldl_push_length md xs
  generalize xs.foldl push md = mdx at hxs ⊢
  by_cases hfull : mdx.arrayMetadata.length ≤ mdx.numMDItems
  · right
    rw [push, decide_eq_true hfull, Bool.or_true]
  · left
    change 0 < (mdx.numMDItems + 1) % 2 ^ 16
    omega

theorem foldl_push_fits (items : List SpaceMdItem) (xs : List (Option SpaceMdItem)) (o : Bool) {n : Nat} (hlen : xs.length + n < 2 ^ 16)
    (hle : items.length ≤ n) :
    items.foldl push ⟨xs ++ List.replicate n none, xs.length, o⟩ =
      ⟨xs ++ items.map some ++ List.replicate (n - items.length) none, xs.length + items.length, o⟩ := by
  induction items generalizing xs n with
  | nil => simp
  | cons it items ih =>
    obtain ⟨m, rfl⟩ : ∃ m, n = m + 1 := ⟨n - 1, by have := length_cons ▸ hle; omega⟩
    rw [length_cons] at hle
    have hpush : push ⟨xs ++ List.replicate (m + 1) none, xs.length, o⟩ it =
        ⟨(xs ++ [some it]) ++ List.replicate m none, (xs ++ [some it]).length, o⟩ := by
      simp [push, replicate_succ]
      omega
    rw [foldl_cons, hpush, ih (xs ++ [some it]) (by simp; omega) (by omega)]
    simp [Nat.add_assoc, Nat.add_comm 1]

theorem foldl_push_full (md : SpaceMetadata) (hlen : md.arrayMetadata.length < 2 ^ 16) (hne : items ≠ [])
    (hfull : md.arrayMetadata.length < md.numMDItems + items.length) : (items.foldl push md).overrun = true := by
  induction items generalizing md with
  | nil => exact absurd rfl hne
  | cons it items ih =>
    rw [foldl_cons]
    by_cases hover : md.arrayMetadata.length ≤ md.numMDItems
    · apply foldl_push_overrun
      rw [push, decide_eq_true hover, Bool.or_true]
    · have hnum : (md.push it).numMDItems = md.numMDItems + 1 := Nat.mod_eq_of_lt (by omega)
      rw [length_cons] at hfull
      apply ih
      · rw [push_length]
        exact hlen
      · rintro rfl
        rw [length_nil] at hfull
        omega
      · rw [push_length, hnum]
        omega

/-- The items of one pass over a new array are what the caller sees exactly when none was counted before and they
fit. -/
theorem foldl_push_read {n num : Nat} {o : Bool} (hn : n < 2 ^ 16) (hne : items ≠ []) {out : SpaceMetadata}
    (hout : out = items.foldl push ⟨List.replicate n none, num, o⟩) (P : List SpaceMdItem → Prop)
    (hP : P items) :
    (∃ its : List SpaceMdItem, out.arrayMetadata.take out.numMDItems = its.map some ∧ out.numMDItems = its.length ∧
      out.overrun = false ∧ P its) ↔ (num = 0 ∧ o = false) ∧ items.length ≤ n := by
  constructor
  · rintro ⟨its, htake, hnum, hover, -⟩
    have hfits : num + items.length ≤ n := by
      by_contra hfull
      have := foldl_push_full ⟨List.replicate n none, num, o⟩ (by simpa using hn) hne (by simp; omega)
      rw [← hout, hover] at this
      cases this
    have hlast := foldl_push_fits items (List.replicate num none) o (n := n - num)
      (by simp; omega) (by omega)
    rw [← replicate_add, length_replicate, Nat.add_sub_cancel' (by omega), ← hout] at hlast
    rw [hlast] at htake hnum hover
    cases num with
    | zero => exact ⟨⟨rfl, hover⟩, by omega⟩
    | succ num =>
      rw [replicate_succ] at htake
      cases its with
      | nil => simp at hnum
      | cons it its => simp [Nat.succ_add, take_succ_cons] at htake
  · rintro ⟨⟨rfl, rfl⟩, hle⟩
    have hlast := foldl_push_fits items [] false (n := n) (by simpa using hn) hle
    rw [nil_append, length_nil, ← hout] at hlast
    rw [hlast]
    exact ⟨items, by simp, by simp, rfl, hP⟩

end DiscoClient.SpaceMetadata
