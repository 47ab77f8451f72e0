import Mathlib.Data.List.Nodup
import Mathlib.Logic.Function.Basic

/-! An index from keys to values as a hash table with chaining: a chain has an item for each of its keys, and the item
the values under the key. -/

open List

structure ChainItem (K V : Type*) where
  key : K
  vals : List V
  deriving DecidableEq, Repr

namespace Chain
variable {K V : Type*} {c : List (ChainItem K V)} {k a : K} {v b : V}

def Has (c : List (ChainItem K V)) (k : K) (v : V) : Prop := ∃ item ∈ c, item.key = k ∧ v ∈ item.vals

structure Ok (c : List (ChainItem K V)) : Prop where
  keys : (c.map ChainItem.key).Nodup
  vals : ∀ item ∈ c, item.vals.Nodup

theorem Ok.nil : Ok ([] : List (ChainItem K V)) := ⟨nodup_nil, fun _ h => absurd h not_mem_nil⟩

theorem ok_cons {item : ChainItem K V} :
    Ok (item :: c) ↔ (∀ other ∈ c, other.key ≠ item.key) ∧ item.vals.Nodup ∧ Ok c := by
  constructor
  · rintro ⟨hkeys, hvals⟩
    obtain ⟨hnew, hrest⟩ := nodup_cons.mp hkeys
    obtain ⟨hitem, hothers⟩ := forall_mem_cons.mp hvals
    exact ⟨fun other hother heq => hnew (mem_map.mpr ⟨other, hother, heq⟩), hitem, hrest, hothers⟩
  · rintro ⟨hnew, hitem, hrest⟩
    refine ⟨nodup_cons.mpr ⟨fun hmem => ?_, hrest.keys⟩, forall_mem_cons.mpr ⟨hitem, hrest.vals⟩⟩
    obtain ⟨other, hother, heq⟩ := mem_map.mp hmem
    exact hnew other hother heq

theorem has_cons {item : ChainItem K V} : Has (item :: c) a b ↔ (item.key = a ∧ b ∈ item.vals) ∨ Has c a b := by
  rw [Has, exists_mem_cons_iff]
  rfl

theorem not_has_of_ne (h : ∀ item ∈ c, item.key ≠ a) : ¬ Has c a b :=
  fun ⟨item, hitem, hkey, _⟩ => h item hitem hkey

variable [DecidableEq K]

def take (k : K) : List (ChainItem K V) → List V × List (ChainItem K V)
  | [] => ([], [])
  | item :: c => if item.key = k then (item.vals, c) else ((take k c).1, item :: (take k c).2)

theorem mem_take (h : Ok c) : b ∈ (take k c).1 ↔ Has c k b := by
  induction c with
  | nil => exact ⟨fun hb => absurd hb not_mem_nil, fun ⟨_, hitem, _⟩ => absurd hitem not_mem_nil⟩
  | cons item c ih =>
    obtain ⟨hnew, -, hrest⟩ := ok_cons.mp h
    rw [take, has_cons]
    split_ifs with hk
    · have hother : ¬ Has c k b := not_has_of_ne fun other hother => hk ▸ hnew other hother
      rw [or_iff_left hother, and_iff_right hk]
    · rw [ih hrest, or_iff_right fun hitem => hk hitem.1]

theorem has_take (h : Ok c) : Has (take k c).2 a b ↔ Has c a b ∧ a ≠ k := by
  induction c with
  | nil => exact ⟨fun ⟨_, hitem, _⟩ => absurd hitem not_mem_nil, And.left⟩
  | cons item c ih =>
    obtain ⟨hnew, -, hrest⟩ := ok_cons.mp h
    rw [take, has_cons]
    split_ifs with hk
    · subst hk
      have hother : a = item.key → ¬ Has c a b := fun heq => not_has_of_ne fun other hother => heq ▸ hnew other hother
      have hsame : item.key = a → a = item.key := Eq.symm
      tauto
    · rw [has_cons, ih hrest]
      have hother : item.key = a → a ≠ k := fun heq => heq ▸ hk
      tauto

theorem take_sublist (k : K) (c : List (ChainItem K V)) : (take k c).2.Sublist c := by
  induction c with
  | nil => exact List.Sublist.refl _
  | cons item c ih =>
    rw [take]
    split_ifs
    · exact sublist_cons_self _ _
    · exact ih.cons_cons _

theorem Ok.take (h : Ok c) (k : K) : Ok (take k c).2 :=
  ⟨h.keys.sublist ((take_sublist k c).map _), fun item hitem => h.vals item ((take_sublist k c).subset hitem)⟩

variable [DecidableEq V]

def addTo (k : K) (v : V) : List (ChainItem K V) → List (ChainItem K V)
  | [] => []
  | item :: c =>
    if item.key = k then { item with vals := if v ∈ item.vals then item.vals else item.vals ++ [v] } :: c
    else item :: addTo k v c

def add (k : K) (v : V) (c : List (ChainItem K V)) : List (ChainItem K V) :=
  if c.any fun item => item.key = k then addTo k v c else ⟨k, [v]⟩ :: c

def remove (k : K) (v : V) : List (ChainItem K V) → List (ChainItem K V)
  | [] => []
  | item :: c =>
    if item.key = k then
      if (item.vals.erase v).isEmpty then c else { item with vals := item.vals.erase v } :: c
    else item :: remove k v c

theorem has_addTo (h : ∃ item ∈ c, item.key = k) : Has (addTo k v c) a b ↔ Has c a b ∨ (a = k ∧ b = v) := by
  induction c with
  | nil =>
    obtain ⟨item, hitem, -⟩ := h
    cases hitem
  | cons item c ih =>
    rw [addTo]
    split_ifs with hk hv
    · refine (or_iff_left_of_imp ?_).symm
      rintro ⟨rfl, rfl⟩
      exact has_cons.mpr (.inl ⟨hk, hv⟩)
    · subst hk
      rw [has_cons, has_cons, mem_append, mem_singleton, eq_comm (a := a)]
      tauto
    · have hrest : ∃ item ∈ c, item.key = k := ((exists_mem_cons_iff _ _ _).mp h).resolve_left hk
      rw [has_cons, has_cons, ih hrest, or_assoc]

theorem has_add : Has (add k v c) a b ↔ Has c a b ∨ (a = k ∧ b = v) := by
  rw [add]
  split_ifs with hany
  · obtain ⟨item, hitem, hkey⟩ := any_eq_true.mp hany
    exact has_addTo ⟨item, hitem, of_decide_eq_true hkey⟩
  · rw [has_cons, mem_singleton, eq_comm (a := k), or_comm]

theorem has_remove (h : Ok c) : Has (remove k v c) a b ↔ Has c a b ∧ ¬ (a = k ∧ b = v) := by
  induction c with
  | nil => exact ⟨fun ⟨_, hitem, _⟩ => absurd hitem not_mem_nil, And.left⟩
  | cons item c ih =>
    obtain ⟨hnew, hvals, hrest⟩ := ok_cons.mp h
    rw [remove]
    by_cases hk : item.key = k
    · subst hk
      have hitem : b ∈ item.vals.erase v ↔ b ≠ v ∧ b ∈ item.vals := hvals.mem_erase_iff
      have hother : a = item.key → ¬ Has c a b := fun heq => not_has_of_ne fun other hother => heq ▸ hnew other hother
      rw [if_pos rfl, has_cons, eq_comm (a := item.key)]
      split_ifs with hempty
      · have hnone : b ∉ item.vals.erase v := List.isEmpty_iff.mp hempty ▸ not_mem_nil
        tauto
      · rw [has_cons, hitem, eq_comm (a := item.key)]
        tauto
    · rw [if_neg hk, has_cons, has_cons, ih hrest]
      have hother : item.key = a → a ≠ k := fun heq => heq ▸ hk
      tauto

theorem map_key_addTo (k : K) (v : V) (c : List (ChainItem K V)) :
    (addTo k v c).map ChainItem.key = c.map ChainItem.key := by
  induction c with
  | nil => rfl
  | cons item c ih =>
    rw [addTo]
    split_ifs
    · rfl
    · rfl
    · rw [map_cons, ih, map_cons]

theorem map_key_remove (k : K) (v : V) (c : List (ChainItem K V)) :
    ((remove k v c).map ChainItem.key).Sublist (c.map ChainItem.key) := by
  induction c with
  | nil => exact List.Sublist.refl _
  | cons item c ih =>
    rw [remove]
    split_ifs
    · exact sublist_cons_self _ _
    · exact List.Sublist.refl _
    · exact ih.cons_cons _

namespace Ok

theorem addTo (h : Ok c) (k : K) (v : V) : Ok (addTo k v c) := by
  refine ⟨(map_key_addTo k v c).symm ▸ h.keys, ?_⟩
  have hvals := h.vals
  clear h
  induction c with
  | nil => exact hvals
  | cons item c ih =>
    obtain ⟨hitem, hrest⟩ := forall_mem_cons.mp hvals
    rw [Chain.addTo]
    split_ifs with hk hv
    · exact hvals
    · refine forall_mem_cons.mpr ⟨?_, hrest⟩
      rw [← concat_eq_append]
      exact hitem.concat hv
    · exact forall_mem_cons.mpr ⟨hitem, ih hrest⟩

theorem add (h : Ok c) (k : K) (v : V) : Ok (add k v c) := by
  rw [Chain.add]
  split_ifs with hany
  · exact h.addTo k v
  · refine ok_cons.mpr ⟨fun item hitem heq => hany ?_, nodup_singleton v, h⟩
    exact any_eq_true.mpr ⟨item, hitem, decide_eq_true heq⟩

theorem remove (h : Ok c) (k : K) (v : V) : Ok (remove k v c) := by
  refine ⟨h.keys.sublist (map_key_remove k v c), ?_⟩
  have hvals := h.vals
  clear h
  induction c with
  | nil => exact hvals
  | cons item c ih =>
    obtain ⟨hitem, hrest⟩ := forall_mem_cons.mp hvals
    rw [Chain.remove]
    split_ifs
    · exact hrest
    · exact forall_mem_cons.mpr ⟨hitem.erase v, hrest⟩
    · exact forall_mem_cons.mpr ⟨hitem, ih hrest⟩

end Ok
end Chain

structure ChainIndex {K : Type*} (hash : K → Nat) (V : Type*) where
  chains : Nat → List (ChainItem K V)

namespace ChainIndex
variable {K V : Type*} {hash : K → Nat} (t : ChainIndex hash V) {k a : K} {v b : V}

def empty : ChainIndex hash V := ⟨fun _ => []⟩

def Holds (k : K) (v : V) : Prop := Chain.Has (t.chains (hash k)) k v

instance decidableHolds [DecidableEq K] [DecidableEq V] (k : K) (v : V) : Decidable (t.Holds k v) :=
  inferInstanceAs (Decidable (∃ item ∈ t.chains (hash k), item.key = k ∧ v ∈ item.vals))

def Ok : Prop := ∀ i, Chain.Ok (t.chains i)

def modify (k : K) (f : List (ChainItem K V) → List (ChainItem K V)) : ChainIndex hash V :=
  ⟨Function.update t.chains (hash k) (f (t.chains (hash k)))⟩

variable {t}

theorem ok_empty : (empty : ChainIndex hash V).Ok := fun _ => Chain.Ok.nil

theorem not_holds_empty : ¬ (empty : ChainIndex hash V).Holds k v := fun ⟨_, hitem, _⟩ => absurd hitem not_mem_nil

theorem holds_modify {f : List (ChainItem K V) → List (ChainItem K V)} {F : Prop → Prop}
    (hf : Chain.Has (f (t.chains (hash k))) a b ↔ F (Chain.Has (t.chains (hash k)) a b))
    (hF : a ≠ k → ∀ p, F p ↔ p) : (t.modify k f).Holds a b ↔ F (t.Holds a b) := by
  change Chain.Has (Function.update t.chains (hash k) (f (t.chains (hash k))) (hash a)) a b ↔
    F (Chain.Has (t.chains (hash a)) a b)
  by_cases hsame : hash a = hash k
  · rw [hsame, Function.update_self]
    exact hf
  · rw [Function.update_of_ne hsame]
    exact (hF (fun heq => hsame (congrArg hash heq)) _).symm

theorem Ok.modify (h : t.Ok) {f : List (ChainItem K V) → List (ChainItem K V)}
    (hf : ∀ c, Chain.Ok c → Chain.Ok (f c)) : (t.modify k f).Ok := by
  intro i
  change Chain.Ok (Function.update t.chains (hash k) (f (t.chains (hash k))) i)
  by_cases hi : i = hash k
  · rw [hi, Function.update_self]
    exact hf _ (h _)
  · rw [Function.update_of_ne hi]
    exact h i

variable [DecidableEq K]

theorem holds_take (h : t.Ok) : (t.modify k fun c => (Chain.take k c).2).Holds a b ↔ t.Holds a b ∧ a ≠ k :=
  holds_modify (F := fun p => p ∧ a ≠ k) (Chain.has_take (h _)) fun hne _ => and_iff_left hne

variable [DecidableEq V]

theorem holds_add : (t.modify k (Chain.add k v)).Holds a b ↔ t.Holds a b ∨ (a = k ∧ b = v) :=
  holds_modify (F := fun p => p ∨ (a = k ∧ b = v)) Chain.has_add fun hne _ => or_iff_left fun h => hne h.1

theorem holds_remove (h : t.Ok) : (t.modify k (Chain.remove k v)).Holds a b ↔ t.Holds a b ∧ ¬ (a = k ∧ b = v) :=
  holds_modify (F := fun p => p ∧ ¬ (a = k ∧ b = v)) (Chain.has_remove (h _)) fun hne _ => and_iff_left fun h => hne h.1

end ChainIndex
