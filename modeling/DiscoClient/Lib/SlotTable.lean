import Mathlib.Data.List.Nodup
import Mathlib.Data.List.Perm.Subperm
import Mathlib.Logic.Function.Basic

/-! Tables of slots, each empty or holding a value, filled by the items of a list. -/
namespace SlotTable
open List
variable {α β : Type*}

def occupied (k : Nat) (slots : Nat → Option α) : Nat :=
  (List.range k).countP fun i => (slots i).isSome

/-- Every item of the list has a slot of its own among the first k, and no other slot is
occupied. -/
structure Fills (k : Nat) (slots : Nat → Option α) (slot : β → Nat) (val : β → α) (items : List β) : Prop where
  held : ∀ b ∈ items, slot b < k ∧ slots (slot b) = some (val b)
  owned : ∀ i a, slots i = some a → ∃ b ∈ items, slot b = i ∧ val b = a
  vals : (items.map val).Nodup

namespace Fills
variable {k : Nat} {slots : Nat → Option α} {slot : β → Nat} {val : β → α} {items : List β} {b : β}

section

variable (h : Fills k slots slot val items)
include h

theorem nodup : items.Nodup := h.vals.of_map

theorem val_inj {c : β} (hb : b ∈ items) (hc : c ∈ items)
    (heq : val b = val c) : b = c :=
  inj_on_of_nodup_map h.vals hb hc heq

theorem slot_inj {c : β} (hb : b ∈ items) (hc : c ∈ items)
    (heq : slot b = slot c) : b = c := by
  have hval := (h.held b hb).2
  rw [heq, (h.held c hc).2] at hval
  exact h.val_inj hb hc (Option.some.inj hval).symm

theorem nodup_slots : (items.map slot).Nodup :=
  (nodup_map_iff_inj_on h.nodup).mpr fun _ hb _ hc heq => h.slot_inj hb hc heq

theorem occupied_eq : occupied k slots = items.length := by
  have hperm : ((List.range k).filter fun i => (slots i).isSome).Perm (items.map slot) := by
    apply (perm_ext_iff_of_nodup (nodup_range.filter _) h.nodup_slots).mpr
    intro i
    rw [mem_filter, mem_range, mem_map]
    constructor
    · rintro ⟨-, hsome⟩
      obtain ⟨a, ha⟩ := Option.isSome_iff_exists.mp hsome
      obtain ⟨b, hb, hslot, -⟩ := h.owned i a ha
      exact ⟨b, hb, hslot⟩
    · rintro ⟨b, hb, rfl⟩
      obtain ⟨hlt, hval⟩ := h.held b hb
      exact ⟨hlt, Option.isSome_iff_exists.mpr ⟨_, hval⟩⟩
  rw [occupied, countP_eq_length_filter, hperm.length_eq, length_map]

theorem exists_unique (hb : b ∈ items) :
    ∃! i, i < k ∧ slots i = some (val b) := by
  refine ⟨slot b, h.held b hb, ?_⟩
  rintro i ⟨-, hi⟩
  obtain ⟨c, hc, hslot, hval⟩ := h.owned i _ hi
  rw [← hslot, h.val_inj hc hb hval]

theorem insert (hslot : slot b < k) (hempty : ∀ c ∈ items, slot c ≠ slot b)
    (hval : val b ∉ items.map val) :
    Fills k (Function.update slots (slot b) (some (val b))) slot val (items ++ [b]) where
  held := by
    intro c hc
    rcases mem_append.mp hc with hc | hc
    · rw [Function.update_of_ne (hempty c hc)]
      exact h.held c hc
    · rw [mem_singleton.mp hc, Function.update_self]
      exact ⟨hslot, rfl⟩
  owned := by
    intro i a ha
    by_cases hi : i = slot b
    · subst hi
      rw [Function.update_self, Option.some.injEq] at ha
      exact ⟨b, mem_append_right _ mem_cons_self, rfl, ha⟩
    · rw [Function.update_of_ne hi] at ha
      obtain ⟨c, hc, hc'⟩ := h.owned i a ha
      exact ⟨c, mem_append_left _ hc, hc'⟩
  vals := by
    rw [map_append, map_singleton]
    exact nodup_append.mpr ⟨h.vals, nodup_singleton _,
      fun x hx y hy hxy => hval (mem_singleton.mp hy ▸ hxy ▸ hx)⟩

end

theorem remove [DecidableEq α] (h : Fills k slots slot val items) (hb : b ∈ items) :
    Fills k (Function.update slots (slot b) none) slot val (items.filter fun c => decide (val c ≠ val b)) where
  held := by
    intro c hc
    obtain ⟨hc, hne⟩ := mem_filter.mp hc
    have hslot : slot c ≠ slot b := fun heq => of_decide_eq_true hne (congrArg val (h.slot_inj hc hb heq))
    rw [Function.update_of_ne hslot]
    exact h.held c hc
  owned := by
    intro i a ha
    by_cases hi : i = slot b
    · rw [hi, Function.update_self] at ha
      cases ha
    · rw [Function.update_of_ne hi] at ha
      obtain ⟨c, hc, rfl, hval⟩ := h.owned i a ha
      refine ⟨c, mem_filter.mpr ⟨hc, decide_eq_true ?_⟩, rfl, hval⟩
      exact fun heq => hi (congrArg slot (h.val_inj hc hb heq))
  vals := h.vals.sublist (filter_sublist.map val)

theorem filter_eq_erase [DecidableEq α] [DecidableEq β] (h : Fills k slots slot val items) (hb : b ∈ items) :
    (items.filter fun c => decide (val c ≠ val b)) = items.erase b := by
  rw [h.nodup.erase_eq_filter]
  refine filter_congr fun c hc => ?_
  by_cases heq : c = b
  · simp [heq]
  · have hval : val c ≠ val b := fun hval => heq (h.val_inj hc hb hval)
    rw [decide_eq_true hval, bne_iff_ne.mpr heq]

theorem length_remove [DecidableEq α] [DecidableEq β] (h : Fills k slots slot val items) (hb : b ∈ items) :
    (items.filter fun c => decide (val c ≠ val b)).length + 1 = items.length := by
  rw [h.filter_eq_erase hb, length_erase_of_mem hb]
  exact Nat.sub_add_cancel (length_pos_of_mem hb)

theorem empty : Fills k (fun _ => (none : Option α)) slot val [] :=
  ⟨fun _ hb => absurd hb not_mem_nil, fun _ _ ha => absurd ha (by simp), nodup_nil⟩

end Fills
end SlotTable
