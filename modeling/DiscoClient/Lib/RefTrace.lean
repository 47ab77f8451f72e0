import Mathlib.Data.List.Basic
import Mathlib.Logic.Function.Basic

/-! What one thread does to reference counts: it takes references, gives them back, and waits
until nobody holds one. -/

inductive RefEvent (ρ : Type*) where
  | ref (r : ρ)
  | deref (r : ρ)
  | wait (r : ρ)
  deriving DecidableEq, Repr

namespace RefTrace
variable {ρ α : Type*} [DecidableEq ρ] {h : ρ → Int} {r : ρ} {es fs : List (RefEvent ρ)}

def hold (h : ρ → Int) : RefEvent ρ → ρ → Int
  | .ref r => Function.update h r (h r + 1)
  | .deref r => Function.update h r (h r - 1)
  | .wait _ => h

def holdAll (h : ρ → Int) (es : List (RefEvent ρ)) : ρ → Int := es.foldl hold h

def MayWait (h : ρ → Int) : RefEvent ρ → Prop
  | .wait r => h r = 0
  | .ref _ | .deref _ => True

instance (h : ρ → Int) : (e : RefEvent ρ) → Decidable (MayWait h e)
  | .wait _ => inferInstanceAs (Decidable (_ = _))
  | .ref _ | .deref _ => .isTrue trivial

def NoSelfWait : (ρ → Int) → List (RefEvent ρ) → Prop
  | _, [] => True
  | h, e :: es => MayWait h e ∧ NoSelfWait (hold h e) es

instance decidableNoSelfWait : (h : ρ → Int) → (es : List (RefEvent ρ)) → Decidable (NoSelfWait h es)
  | _, [] => .isTrue trivial
  | h, e :: es => @instDecidableAnd _ _ _ (decidableNoSelfWait (hold h e) es)

def Balanced (es : List (RefEvent ρ)) : Prop := ∀ h, holdAll h es = h

theorem holdAll_append (h : ρ → Int) (es fs : List (RefEvent ρ)) : holdAll h (es ++ fs) = holdAll (holdAll h es) fs :=
  List.foldl_append

theorem noSelfWait_append : NoSelfWait h (es ++ fs) ↔ NoSelfWait h es ∧ NoSelfWait (holdAll h es) fs := by
  induction es generalizing h with
  | nil => exact (true_and _).symm.to_iff
  | cons e es ih =>
    rw [List.cons_append, NoSelfWait, ih, NoSelfWait, and_assoc]
    rfl

theorem hold_ref_deref (h : ρ → Int) (r : ρ) : hold (hold h (.ref r)) (.deref r) = h := by
  rw [hold, hold, Function.update_self, Function.update_idem, Int.add_sub_cancel, Function.update_eq_self]

theorem hold_ref_of_ne {s : ρ} (hne : s ≠ r) : hold h (.ref r) s = h s := Function.update_of_ne hne _ _

theorem hold_ref_self : hold h (.ref r) r = h r + 1 := Function.update_self _ _ _

theorem balanced_ref_deref (r : ρ) : Balanced [.ref r, .deref r] := fun h => hold_ref_deref h r

theorem balanced_nil : Balanced ([] : List (RefEvent ρ)) := fun _ => rfl

theorem Balanced.append (hes : Balanced es) (hfs : Balanced fs) : Balanced (es ++ fs) := fun h => by
  rw [holdAll_append, hes, hfs]

theorem Balanced.flatMap {l : List α} {f : α → List (RefEvent ρ)} (hf : ∀ a ∈ l, Balanced (f a)) :
    Balanced (l.flatMap f) := by
  induction l with
  | nil => exact balanced_nil
  | cons a l ih => exact (hf a (by simp)).append (ih fun b hb => hf b (by simp [hb]))

theorem holdAll_bracket (hes : Balanced es) (h : ρ → Int) (r : ρ) : holdAll h (.ref r :: (es ++ [.deref r])) = h := by
  change holdAll (hold h (.ref r)) (es ++ [.deref r]) = h
  rw [holdAll_append, hes]
  exact hold_ref_deref h r

theorem noSelfWait_bracket :
    NoSelfWait h (.ref r :: (es ++ [.deref r])) ↔ NoSelfWait (hold h (.ref r)) es := by
  rw [NoSelfWait, noSelfWait_append]
  exact ⟨fun hw => hw.2.1, fun hw => ⟨trivial, hw, trivial, trivial⟩⟩

theorem noSelfWait_flatMap {l : List α} {f : α → List (RefEvent ρ)} (hf : ∀ a ∈ l, Balanced (f a)) :
    NoSelfWait h (l.flatMap f) ↔ ∀ a ∈ l, NoSelfWait h (f a) := by
  induction l with
  | nil => simp [NoSelfWait]
  | cons a l ih =>
    rw [List.flatMap_cons, noSelfWait_append, hf a (by simp), ih fun b hb => hf b (by simp [hb]), List.forall_mem_cons]

end RefTrace
