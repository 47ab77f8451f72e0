import DiscoClient.IoManager.IoMergeGroup

namespace DiscoClient
open List

def ioSlots (rqs : Nat → BlkRq) (n : Nat) (io : MergedIo) : List (Nat × Nat) :=
  (slotsFrom rqs n io.indexS ((io.sectS + (2^64 - (rqs io.indexS).pos)) % 2^64)).take io.sectLen

def leftSlots (rqs : Nat → BlkRq) (n : Nat) (b : BatchRes) : List (Nat × Nat) :=
  match b.remainIndexS with
  | none => []
  | some i => slotsFrom rqs n i ((b.sectStart + (2^64 - (rqs i).pos)) % 2^64)

def touches (slots : List (Nat × Nat)) (j : Nat) : Bool := slots.any fun q => q.1 == j

structure IoExact (rqs : Nat → BlkRq) (n : Nat) (io : MergedIo) : Prop where
  sectLen_pos : 0 < io.sectLen
  sectLen_le : io.sectLen ≤ maxSectsPerRq
  full : (ioSlots rqs n io).length = io.sectLen
  chunk : Chunk rqs io.indexS io.numRqs io.sectS (ioSlots rqs n io)

/-- A request that an earlier IO request has begun holds a reference for the rest of it, and one for that IO request
unless ioReq_commit_user has taken it; every other one has at most one. -/
structure RefsPending (n i off : Nat) (ref : Nat → Nat) : Prop where
  first : i < n → if 0 < off then 1 ≤ ref i ∧ ref i ≤ 2 else ref i ≤ 1
  others : ∀ j, i < j → j < n → ref j ≤ 1

variable {rqs : Nat → BlkRq} {n : Nat}

theorem RefsPending.first_le {i j off : Nat} {ref : Nat → Nat} (h : RefsPending n i off ref) (hi : i < n) :
    (if j = i ∧ 0 < off then ref i - 1 else 0) + 1 ≤ 2 := by
  have hfirst := h.first hi
  split_ifs with hj
  · rw [if_pos hj.2] at hfirst
    omega
  · omega

theorem touches_iff (slots : List (Nat × Nat)) (j : Nat) : touches slots j = true ↔ ∃ o, (j, o) ∈ slots := by
  simp only [touches, any_eq_true, beq_iff_eq]
  constructor
  · rintro ⟨⟨a, o⟩, hm, rfl⟩
    exact ⟨o, hm⟩
  · rintro ⟨o, hm⟩
    exact ⟨(j, o), hm, rfl⟩

theorem mem_slotsFrom {i off : Nat} {q : Nat × Nat} (h : q ∈ slotsFrom rqs n i off) : i ≤ q.1 ∧ q.1 < n := by
  obtain ⟨j, hj, hq⟩ := mem_flatMap.mp (mem_of_mem_drop h)
  obtain ⟨o, -, rfl⟩ := mem_map.mp hq
  have := mem_range'_1.mp hj
  dsimp only
  omega

theorem touches_slotsFrom {i off : Nat} (hoff : off < (rqs i).sectors) (j : Nat) :
    touches (slotsFrom rqs n i off) j = decide (i ≤ j ∧ j < n) := by
  rw [Bool.eq_iff_iff, touches_iff, decide_eq_true_iff]
  constructor
  · rintro ⟨o, hm⟩
    exact mem_slotsFrom hm
  · rintro ⟨hij, hjn⟩
    rw [slotsFrom_split (by omega) (by omega)]
    by_cases hj : j = i
    · subst hj
      refine ⟨off, mem_append_left _ (mem_of_getElem? (i := 0) ?_)⟩
      simp [rqSlots, hoff]
    · refine ⟨0, mem_append_right _ ?_⟩
      rw [slotsFrom, drop_zero]
      exact mem_flatMap.mpr ⟨j, mem_range'_1.mpr (by omega),
        mem_map.mpr ⟨0, mem_range.mpr (rqs j).sectors_pos, rfl⟩⟩

theorem offset_eq {i off sectS : Nat} (hoff : off < (rqs i).sectors)
    (hs : sectS % 2^64 = ((rqs i).pos + off) % 2^64) : (sectS + (2^64 - (rqs i).pos)) % 2^64 = off := by
  have := (rqs i).pos_lt
  have hle : (rqs i).sectors ≤ 256 := (rqs i).sectors_le
  omega

/-- A group is cut off in front of an offset of the request at i', and those before have all their
references. -/
structure GroupStep (rqs : Nat → BlkRq) (n i off sectS : Nat) (ref : Nat → Nat) (g : MergeRes)
    (i' off' : Nat) : Prop where
  exact_io : IoExact rqs n ⟨i, g.mergeLen, sectS, g.sectLen⟩
  len_pos : 0 < g.mergeLen
  shared : g.lastRqMultiRef = true → 1 < g.mergeLen ∧ g.sectLen = maxSectsPerRq
  ends : GroupEnd rqs i sectS g i' off'
  cut : slotsFrom rqs n i off = ioSlots rqs n ⟨i, g.mergeLen, sectS, g.sectLen⟩ ++ slotsFrom rqs n i' off'
  pending : RefsPending n i' off' g.numRefIor
  frame : ∀ j, j < i → g.numRefIor j = ref j
  refs : ∀ j, i ≤ j → j < i' → g.numRefIor j = (if j = i ∧ 0 < off then ref i - 1 else 0) + 1
  next_ref : 0 < off' → g.numRefIor i' = 2

section Refs
variable {i off sectS i' off' : Nat} {ref : Nat → Nat} {g : MergeRes}

/-- The reference count get_merge_len gives the first request of a group. -/
private theorem first_ref (hi : i < n) (href : RefsPending n i off ref) :
    (if ref i = 0 then Function.update ref i 1 else ref) i = (if 0 < off then ref i - 1 else 0) + 1 := by
  have hfirst := href.first hi
  by_cases h0 : ref i = 0
  · rw [if_pos h0, Function.update_self]
    split_ifs at hfirst ⊢ <;> omega
  · rw [if_neg h0]
    split_ifs at hfirst ⊢ <;> omega

private theorem other_ref {j : Nat} (hj : j ≠ i) :
    (if ref i = 0 then Function.update ref i 1 else ref) j = ref j := by
  split_ifs
  · exact Function.update_of_ne hj _ _
  · rfl

/-- A request that the group only begins is given both its references. -/
private theorem group_next_ref (hend : GroupEnd rqs i sectS g i' off')
    (hshared : g.lastRqMultiRef = true → 1 < g.mergeLen ∧ g.sectLen = maxSectsPerRq)
    (hnum : ∀ j, g.numRefIor j = if i + 1 ≤ j ∧ j < i + g.mergeLen then
        (if g.lastRqMultiRef = true ∧ j + 1 = i + g.mergeLen then 2 else 1)
      else (if ref i = 0 then Function.update ref i 1 else ref) j) (hoff : 0 < off') : g.numRefIor i' = 2 := by
  unfold GroupEnd at hend
  by_cases hmulti : g.lastRqMultiRef = true
  · rw [if_pos hmulti] at hend
    have hlen := (hshared hmulti).1
    rw [hnum i', if_pos (by omega), if_pos ⟨hmulti, hend.1⟩]
  · rw [if_neg hmulti] at hend
    omega

private theorem group_pending (href : RefsPending n i off ref) (hend : GroupEnd rqs i sectS g i' off')
    (hpos : 0 < g.mergeLen) (hshared : g.lastRqMultiRef = true → 1 < g.mergeLen ∧ g.sectLen = maxSectsPerRq)
    (hnum : ∀ j, g.numRefIor j = if i + 1 ≤ j ∧ j < i + g.mergeLen then
        (if g.lastRqMultiRef = true ∧ j + 1 = i + g.mergeLen then 2 else 1)
      else (if ref i = 0 then Function.update ref i 1 else ref) j) : RefsPending n i' off' g.numRefIor := by
  have hlt := hend.lt_index hpos fun h => (hshared h).1
  constructor
  · intro hi'
    split_ifs with hoff
    · rw [group_next_ref hend hshared hnum hoff]
      exact ⟨by decide, by decide⟩
    · unfold GroupEnd at hend
      have hmulti : ¬ g.lastRqMultiRef = true := fun hmulti => by
        rw [if_pos hmulti] at hend
        exact hoff hend.2.1
      rw [if_neg hmulti] at hend
      rw [hnum i', if_neg (by omega), other_ref (Nat.ne_of_gt hlt)]
      exact href.others i' hlt hi'
  · intro j hj hjn
    have hlast : i + g.mergeLen ≤ j := by
      by_contra hin
      have := (hend.shared_iff j (Nat.le_of_lt hj)).mpr (Nat.lt_of_not_le hin)
      omega
    rw [hnum j, if_neg (by omega), other_ref (by omega)]
    exact href.others j (by omega) hjn

end Refs

theorem group_step {i off sectS : Nat} {ref : Nat → Nat} (hi : i < n)
    (hoff : off < (rqs i).sectors) (hs : sectS % 2^64 = ((rqs i).pos + off) % 2^64)
    (href : RefsPending n i off ref) :
    ∃ i' off', GroupStep rqs n i off sectS ref (getMergeLen rqs i (n - 1) sectS ref) i' off' := by
  have hspec := getMergeLen_spec ref hi hoff hs
  generalize getMergeLen rqs i (n - 1) sectS ref = g at hspec
  obtain ⟨hpos, hle, hmax, hshared, hnum, c', i', off', hchunk, hlen, hslots, hend⟩ := hspec
  have hlt := hend.lt_index hpos fun h => (hshared h).1
  have hcut : slotsFrom rqs n i off = (rqSlots rqs i).drop off ++ c' ++ slotsFrom rqs n i' off' := by
    rw [slotsFrom_split hi (by omega), hslots, append_assoc]
  have hio : ioSlots rqs n ⟨i, g.mergeLen, sectS, g.sectLen⟩ = (rqSlots rqs i).drop off ++ c' := by
    rw [ioSlots, offset_eq hoff hs, hcut]
    exact take_left' hlen
  have hsect : 0 < g.sectLen := by
    rw [← hlen, length_append, length_drop, length_rqSlots]
    omega
  refine ⟨i', off', ⟨hsect, hmax, by rw [hio, hlen], by rw [hio]; exact hchunk⟩, hpos, hshared, hend,
    by rw [hio, hcut], group_pending href hend hpos hshared hnum, fun j hj => ?_, fun j hij hj => ?_,
    group_next_ref hend hshared hnum⟩
  · rw [hnum j, if_neg (by omega), other_ref (Nat.ne_of_lt hj)]
  · rw [hnum j]
    by_cases hji : j = i
    · subst hji
      rw [if_neg (by omega), first_ref hi href]
      simp
    · have hin : j < i + g.mergeLen := Nat.lt_of_lt_of_le hj hend.index_le
      have hnot : ¬ (g.lastRqMultiRef = true ∧ j + 1 = i + g.mergeLen) := by
        rintro ⟨hm, he⟩
        have := hend.index_eq
        rw [if_pos hm] at this
        omega
      rw [if_pos ⟨by omega, hin⟩, if_neg hnot]
      simp [hji]

/-- The m requests from the r-th on all go into the first group that is built from there. -/
def MergesAsOne (rqs : Nat → BlkRq) (r m sectS : Nat) : Prop :=
  ∀ (rqs' : Nat → BlkRq) (n' : Nat) (ref' : Nat → Nat), (∀ k, k < m → rqs' k = rqs (r + k)) → m ≤ n' →
    let g := getMergeLen rqs' 0 (n' - 1) sectS ref'
    m ≤ g.mergeLen ∧ (g.lastRqMultiRef = true → m < g.mergeLen)

private theorem mergeLoop_mono (left i sectLen m : Nat) (ref : Nat → Nat) :
    m ≤ (mergeLoop rqs left i sectLen m ref).mergeLen ∧
      ((mergeLoop rqs left i sectLen m ref).lastRqMultiRef = true →
        m < (mergeLoop rqs left i sectLen m ref).mergeLen) := by
  induction left generalizing i sectLen m ref with
  | zero => exact ⟨le_refl m, fun h => absurd h Bool.false_ne_true⟩
  | succ left ih =>
    simp only [mergeLoop]
    split_ifs
    · exact ⟨le_refl m, by simp⟩
    · have := ih (i + 1) ((sectLen + (rqs i).sectors) % 2^32) (m + 1) (Function.update ref i 1)
      exact ⟨by omega, fun h => by have := this.2 h; omega⟩
    · exact ⟨Nat.le_succ m, fun _ => Nat.lt_succ_self m⟩
    · exact ⟨Nat.le_succ m, by simp⟩

private theorem mergeLoop_resume {rqs' : Nat → BlkRq} {i i' : Nat} (left extra sectLen m : Nat)
    (ref ref' : Nat → Nat) (hi : 0 < i) (hi' : 0 < i')
    (hsame : ∀ t, t ≤ left → rqs' (i' - 1 + t) = rqs (i - 1 + t))
    (hall : (mergeLoop rqs left i sectLen m ref).mergeLen = m + left)
    (hshort : (mergeLoop rqs left i sectLen m ref).sectLen < maxSectsPerRq) :
    m + left ≤ (mergeLoop rqs' (left + extra) i' sectLen m ref').mergeLen ∧
      ((mergeLoop rqs' (left + extra) i' sectLen m ref').lastRqMultiRef = true →
        m + left < (mergeLoop rqs' (left + extra) i' sectLen m ref').mergeLen) := by
  induction left generalizing i i' sectLen m ref ref' with
  | zero =>
    rw [Nat.zero_add]
    exact mergeLoop_mono extra i' sectLen m ref'
  | succ left ih =>
    have h0 := hsame 0 (by omega)
    have h1 := hsame 1 (by omega)
    rw [Nat.sub_add_cancel hi', Nat.sub_add_cancel hi] at h1
    simp only [Nat.add_zero] at h0
    rw [Nat.add_right_comm left 1 extra]
    simp only [mergeLoop] at hall hshort ⊢
    rw [h0, h1]
    split_ifs at hall hshort ⊢
    · simp only [Nat.left_eq_add] at hall
      omega
    · have hnext (t : Nat) (ht : t ≤ left) : rqs' (i' + 1 - 1 + t) = rqs (i + 1 - 1 + t) := by
        have := hsame (t + 1) (by omega)
        rwa [show i' + 1 - 1 + t = i' - 1 + (t + 1) by omega, show i + 1 - 1 + t = i - 1 + (t + 1) by omega]
      have hpos : 0 < i + 1 := Nat.succ_pos i
      have hpos' : 0 < i' + 1 := Nat.succ_pos i'
      have := ih ((sectLen + (rqs i).sectors) % 2^32) (m + 1) (Function.update ref i 1)
        (Function.update ref' i' 1) hpos hpos' hnext (by omega) hshort
      exact ⟨by omega, fun h => by have := this.2 h; omega⟩
    · exact absurd hshort (lt_irrefl _)
    · exact absurd hshort (lt_irrefl _)

theorem mergesAsOne_of_short {i sectS : Nat} {ref : Nat → Nat} (hi : i < n)
    (hdir : (rqs i).dir = .write)
    (hall : i + (getMergeLen rqs i (n - 1) sectS ref).mergeLen = n)
    (hshort : (getMergeLen rqs i (n - 1) sectS ref).sectLen < maxSectsPerRq) :
    MergesAsOne rqs i (n - i) sectS := by
  intro rqs' n' ref' hsame hn'
  have h0 : rqs' 0 = rqs i := hsame 0 (by omega)
  have hb : ¬ i > n - 1 := by omega
  have hb' : ¬ 0 > n' - 1 := by omega
  simp only [getMergeLen, if_neg hb, if_neg hb', h0] at hall hshort ⊢
  generalize (((rqs i).sectors + (2^64 - (sectS % 2^32 + (2^64 - (rqs i).pos)) % 2^64)) % 2^64) % 2^32 = sl
    at hall hshort ⊢
  have hnot : ¬ (sl = maxSectsPerRq ∨ (rqs i).dir = .read) := by
    rintro (hsl | hread)
    · rw [if_pos (Or.inl hsl)] at hshort
      exact absurd hshort (by simp [hsl])
    · rw [hdir] at hread
      exact absurd hread (by decide)
  rw [if_neg hnot] at hall hshort ⊢
  have hleft : n' - 1 - 0 = (n - 1 - i) + (n' - (n - i)) := by omega
  have hnext (t : Nat) (ht : t ≤ n - 1 - i) : rqs' (0 + 1 - 1 + t) = rqs (i + 1 - 1 + t) := by
    have := hsame t (by omega)
    rwa [show 0 + 1 - 1 + t = t by omega, show i + 1 - 1 + t = i + t by omega]
  have hpos : 0 < i + 1 := Nat.succ_pos i
  have hone : 0 < 0 + 1 := Nat.one_pos
  have := mergeLoop_resume (n - 1 - i) (n' - (n - i)) sl 1 _ (if ref' 0 = 0 then Function.update ref' 0 1 else ref')
    hpos hone hnext (by omega) hshort
  rw [← hleft] at this
  exact ⟨by omega, fun h => by have := this.2 h; omega⟩

/-- The suffix left: a position inside a request, reference counts fit for the next call, and a single
group. -/
def Resumable (rqs : Nat → BlkRq) (n : Nat) (b : BatchRes) : Prop :=
  ∀ r, b.remainIndexS = some r → r < n ∧ ∃ off, off < (rqs r).sectors ∧
    b.sectStart % 2^64 = ((rqs r).pos + off) % 2^64 ∧ RefsPending n r off b.numRefIor ∧
    MergesAsOne rqs r (n - r) b.sectStart

theorem touches_of_lt {i off j : Nat} {new : List MergedIo} {rest : List (Nat × Nat)}
    (h : slotsFrom rqs n i off = new.flatMap (ioSlots rqs n) ++ rest) (hj : j < i) :
    (new.countP fun io => touches (ioSlots rqs n io) j) = 0 ∧ touches rest j = false := by
  have hnone (o : Nat) : (j, o) ∉ slotsFrom rqs n i off := fun hm => by
    have := (mem_slotsFrom hm).1
    dsimp only at this
    omega
  rw [h] at hnone
  constructor
  · rw [countP_eq_zero]
    intro io hio ht
    obtain ⟨o, hm⟩ := (touches_iff _ _).mp ht
    exact hnone o (mem_append_left _ (mem_flatMap.mpr ⟨io, hio, hm⟩))
  · rw [Bool.eq_false_iff]
    intro ht
    obtain ⟨o, hm⟩ := (touches_iff _ _).mp ht
    exact hnone o (mem_append_right _ hm)

end DiscoClient
