import Mathlib.Data.Nat.Basic

/-! A loop over a range that handles one page's part of it at a time. -/

def pieceLen (size start remain : Nat) : Nat :=
  if size - start % size > remain then remain else size - start % size

/-- body for the part of [start, start + remain) in each page of size elements, in order. -/
def pageWalk {S : Type*} (size : Nat) (body : Nat → Nat → S → S) : Nat → Nat → Nat → S → S
  | 0, _, _, s => s
  | fuel + 1, start, remain, s =>
    if remain = 0 then s
    else
      pageWalk size body fuel (start + pieceLen size start remain) (remain - pieceLen size start remain)
        (body start (pieceLen size start remain) s)

namespace PageWalk
variable {S : Type*} {size : Nat} {body : Nat → Nat → S → S}

theorem pieceLen_spec (hsize : 0 < size) (start : Nat) {remain : Nat} (hr : remain ≠ 0) :
    0 < pieceLen size start remain ∧ pieceLen size start remain ≤ remain ∧
      start % size + pieceLen size start remain ≤ size := by
  have hmod := Nat.mod_lt start hsize
  unfold pieceLen
  split <;> omega

/-- What holds of the part before a place holds, after one more piece, of the part before its end. A piece
is not empty and does not leave its page. -/
theorem pageWalk_rule (hsize : 0 < size) (P : Nat → S → Prop)
    (hbody : ∀ x len s, 0 < len → x % size + len ≤ size → P x s → P (x + len) (body x len s))
    {fuel start remain : Nat} {s : S} (hfuel : remain ≤ fuel) (hs : P start s) :
    P (start + remain) (pageWalk size body fuel start remain s) := by
  induction fuel generalizing start remain s with
  | zero =>
    obtain rfl : remain = 0 := by omega
    exact hs
  | succ fuel ih =>
    rw [pageWalk]
    by_cases hr : remain = 0
    · rw [if_pos hr, hr]
      exact hs
    · obtain ⟨hpos, hle, hpage⟩ := pieceLen_spec hsize start hr
      have hfuel' : remain - pieceLen size start remain ≤ fuel := by omega
      have hrest := ih hfuel' (hbody start _ s hpos hpage hs)
      rw [Nat.add_assoc, Nat.add_sub_cancel' hle] at hrest
      rw [if_neg hr]
      exact hrest

end PageWalk
