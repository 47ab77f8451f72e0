import DiscoClient.IoManager.SegPhases
import DiscoClient.IoManager.TrueMetadata
import DiscoClient.Lib.Tiling

namespace DiscoClient.TrueRead
open List

def mismatched (s : TrueRead) (lb : Nat) : Bool :=
  s.items.any fun it => it.has lb && decide (it.status = .unsync)

def delivered (s : TrueRead) (lb : Nat) : Bool :=
  s.leafDone lb || s.items.any fun it => it.has lb && decide (it.status = .ended)

def pendingLbs (s : TrueRead) : Nat :=
  (s.items.map fun it => if it.status = .outstanding then it.len else 0).sum

/-- Leaf requests exist for the LBs of mismatching items, one for each, and wait until they have delivered.
-/
structure Inv (lbLen : Nat) (s : TrueRead) : Prop where
  len : s.seg.lbLen = lbLen
  tiles : Tiles TrueItem.start TrueItem.len 0 s.items lbLen
  noData : ∀ it ∈ s.items, it.status ≠ .ended → it.ciUser = false
  pool : s.leafPool.Nodup
  pool_mismatched : ∀ lb ∈ s.leafPool, s.mismatched lb = true
  created : ∀ lb, s.created lb = if s.mismatched lb then 1 else 0
  submitted : ∀ lb, s.submitted lb = s.created lb
  leafDone : ∀ lb, s.leafDone lb = (s.mismatched lb && decide (lb ∉ s.leafPool))

/-- No item has reported a mismatch, and the segment counts the LBs that are delivered. -/
structure Counting (s : TrueRead) : Prop where
  proc : s.trueProc = false
  stat : s.seg.stat = .rUD
  none : ∀ lb, s.mismatched lb = false
  remain : s.seg.ciUserRemain = s.pendingLbs
  pending : s.pendingLbs ≠ 0
  bits : ∀ lb, s.userLbState lb = false
  ciUser : s.seg.ciUser = false
  calls : s.seg.calls = []

structure Leaves (s : TrueRead) : Prop where
  proc : s.trueProc = true
  stat : s.seg.stat = .rUD ∨ s.seg.stat = .aTrueMDProc
  waiting : s.leafPool ≠ []
  bits : ∀ lb, s.userLbState lb = decide (lb ∈ s.leafPool)
  ciUser : s.seg.ciUser = false
  calls : s.seg.calls = []

structure Committed (s : TrueRead) : Prop where
  stat : s.seg.stat = .ci2IoR
  pool : s.leafPool = []
  ended : ∀ it ∈ s.items, it.status ≠ .outstanding
  commits : s.seg.commits = [s.seg.lbLen]

inductive Phase (s : TrueRead) : Prop where
  | counting (h : s.Counting)
  | leaves (h : s.Leaves)
  | committed (h : s.Committed)

section Items
variable {lbLen : Nat} {items : List TrueItem} {k lb : Nat} {it : TrueItem}

theorem has_iff : it.has lb = true ↔ it.start ≤ lb ∧ lb < it.start + it.len := by
  simp [TrueItem.has]

theorem any_of_has (h : Tiles TrueItem.start TrueItem.len 0 items lbLen) (hk : items[k]? = some it)
    (hhas : it.has lb = true) (q : TrueItem → Bool) : (items.any fun i => i.has lb && q i) = q it := by
  rw [Bool.eq_iff_iff, any_eq_true]
  constructor
  · rintro ⟨i, hi, hp⟩
    rw [Bool.and_eq_true] at hp
    obtain ⟨j, hj⟩ := mem_iff_getElem?.mp hi
    obtain rfl := h.unique hk hj (has_iff.mp hhas) (has_iff.mp hp.1)
    rw [hk] at hj
    obtain rfl : it = i := by simpa using hj
    exact hp.2
  · intro hq
    exact ⟨it, mem_of_getElem? hk, by rw [hhas, hq]; rfl⟩

theorem any_set_of_not_has (hk : items[k]? = some it) {it' : TrueItem} (hit : it'.has lb = it.has lb)
    (hhas : it.has lb = false) (q : TrueItem → Bool) :
    ((items.set k it').any fun i => i.has lb && q i) = items.any fun i => i.has lb && q i := by
  rw [Bool.eq_iff_iff, any_eq_true, any_eq_true]
  constructor
  · rintro ⟨i, hi, hp⟩
    rcases mem_or_eq_of_mem_set hi with hi | rfl
    · exact ⟨i, hi, hp⟩
    · rw [hit, hhas] at hp
      cases hp
  · rintro ⟨i, hi, hp⟩
    obtain ⟨j, hj⟩ := mem_iff_getElem?.mp hi
    have hne : k ≠ j := by
      rintro rfl
      rw [hk] at hj
      obtain rfl : it = i := by simpa using hj
      rw [hhas] at hp
      cases hp
    exact ⟨i, mem_of_getElem? (by rwa [List.getElem?_set_ne hne]), hp⟩

theorem any_set (h : Tiles TrueItem.start TrueItem.len 0 items lbLen) (hk : items[k]? = some it) {it' : TrueItem}
    (hs : it'.start = it.start) (hl : it'.len = it.len) (q : TrueItem → Bool) :
    ((items.set k it').any fun i => i.has lb && q i) =
      if it.has lb then q it' else items.any fun i => i.has lb && q i := by
  have hit : it'.has lb = it.has lb := by simp only [TrueItem.has, hs, hl]
  by_cases hhas : it.has lb = true
  · rw [if_pos hhas]
    refine any_of_has (k := k) (h.set hk hs hl) ?_ (hit.trans hhas) q
    have hlt := (List.getElem?_eq_some_iff.mp hk).1
    simp [hlt]
  · rw [if_neg hhas]
    exact any_set_of_not_has hk hit (by simpa using hhas) q

end Items
end DiscoClient.TrueRead
