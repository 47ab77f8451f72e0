import DiscoClient.IoManager.IoMergeGroup
import DiscoClient.IoManager.UserCommit
import DiscoClient.Lib.PointUpdate

namespace DiscoClient

def UserIo.contains (io : UserIo) (j : Nat) : Bool := decide (io.firstRq ≤ j ∧ j < io.firstRq + io.numRqs)

namespace UserCommitState

def openCnt (s : UserCommitState) (j : Nat) : Nat :=
  s.ios.countP fun io => io.contains j && io.outcome.isNone

def failCnt (s : UserCommitState) (j : Nat) : Nat :=
  s.ios.countP fun io => io.contains j && decide (io.outcome = some false)

def Outstanding (o : Nat) (ok : Bool) (q : DmsRq) : Prop :=
  if 0 < o then q = ⟨o, ok, []⟩ else q = ⟨0, false, [ok]⟩

/-- The next group starts at an offset of the request at pos, shared with the group before if that is not
zero. -/
structure Inv (rqs : Nat → BlkRq) (off : Nat) (s : UserCommitState) : Prop where
  off_lt : off < (rqs s.pos).sectors
  sect : s.sectS % 2^64 = ((rqs s.pos).pos + off) % 2^64
  range : ∀ io ∈ s.ios, io.firstRq + io.numRqs ≤ s.pos + (if 0 < off then 1 else 0)
  bit : ∀ io ∈ s.ios, io.ciUser = io.outcome.isSome
  fresh : ∀ j, s.pos < j ∨ (j = s.pos ∧ off = 0) →
    (s.rq j).numRefIor ≤ 1 ∧ (s.rq j).result = true ∧ (s.rq j).commits = []
  begun : ∀ j, j < s.pos ∨ (j = s.pos ∧ 0 < off) →
    Outstanding (s.openCnt j + if j = s.pos then 1 else 0) (decide (s.failCnt j = 0)) (s.rq j)
  few : ∀ j, (s.ios.countP fun io => io.contains j) + (if j = s.pos ∧ 0 < off then 1 else 0) ≤ 2
  used : ∀ j, j < s.pos → 0 < s.ios.countP fun io => io.contains j

theorem atomicDec_succ (h : o < 2^32) : atomicDec (o + 1) = o := by
  unfold atomicDec
  omega

theorem Outstanding.of_pos (ho : 0 < o) (hr : q.result = ok)
    (hc : q.commits = []) (hn : q.numRefIor = o) : Outstanding o ok q := by
  rw [Outstanding, if_pos ho]
  exact DmsRq.ext hn hr hc

theorem Outstanding.numRefIor_pos (h : Outstanding (o + 1) ok q) :
    0 < q.numRefIor := by
  rw [Outstanding, if_pos (Nat.succ_pos o)] at h
  rw [h]
  exact Nat.succ_pos o

theorem Outstanding.commitRq (h : Outstanding (o + 1) ok q)
    (ho : o < 2^32) (r : Bool) : Outstanding o (ok && r) (commitRq r q) := by
  rw [Outstanding, if_pos (Nat.succ_pos o)] at h
  subst h
  simp only [DiscoClient.commitRq, atomicDec_succ ho, Outstanding]
  by_cases h0 : o = 0
  · simp [h0]
  · simp [h0, Nat.pos_of_ne_zero h0]

theorem failFreeRq_eq (q : DmsRq) : failFreeRq q = commitRq false q := by
  simp only [failFreeRq, commitRq, Bool.and_false]
  split_ifs with h
  · rw [h]
  · rfl

theorem forRqs_apply (body : DmsRq → DmsRq) (base lo hi : Nat) (rq : Nat → DmsRq) (j : Nat) :
    forRqs body base lo hi rq j = if base + lo ≤ j ∧ j < base + hi then body (rq j) else rq j := by
  have hnd : ((List.range' lo (hi - lo)).map (base + ·)).Nodup :=
    (List.nodup_range' 1).map fun a b h => Nat.add_left_cancel h
  have hmem : j ∈ (List.range' lo (hi - lo)).map (base + ·) ↔ base + lo ≤ j ∧ j < base + hi := by
    simp only [List.mem_map, List.mem_range'_1]
    constructor
    · rintro ⟨a, ha, rfl⟩
      omega
    · rintro ⟨h1, h2⟩
      exact ⟨j - base, by omega, by omega⟩
  rw [forRqs, foldl_update_nodup body _ hnd]
  simp only [hmem]

variable {rqs : Nat → BlkRq} {off : Nat} {s : UserCommitState} {o : Nat} {ok : Bool} {q : DmsRq}

/-- The next group ends before the request next, or at an offset in it when that is shared. -/
structure NextGroup (rqs : Nat → BlkRq) (s : UserCommitState) (base : Nat) (g : MergeRes)
    (next off : Nat) : Prop where
  len_pos : 0 < g.mergeLen
  next_eq : next = if g.lastRqMultiRef then s.pos + g.mergeLen - 1 else s.pos + g.mergeLen
  advances : s.pos < next
  short : g.sectLen < maxSectsPerRq → g.lastRqMultiRef = false
  kept : ∀ j, (s.withRefs base g j).result = (s.rq j).result ∧ (s.withRefs base g j).commits = (s.rq j).commits
  refs : ∀ j, (s.withRefs base g j).numRefIor = if s.pos < j ∧ j < s.pos + g.mergeLen then
      (if g.lastRqMultiRef = true ∧ j = next then 2 else 1)
    else if j = s.pos ∧ (s.rq j).numRefIor = 0 then 1 else (s.rq j).numRefIor
  shared : 0 < off ↔ g.lastRqMultiRef = true
  off_lt : off < (rqs next).sectors
  sect : (if g.lastRqMultiRef then (s.sectS + g.sectLen) % 2^64 else (rqs next).pos) % 2^64 =
    ((rqs next).pos + off) % 2^64

private theorem withRefs_numRefIor {g : MergeRes} {base next : Nat} (hb : base ≤ s.pos)
    (hnext : next = if g.lastRqMultiRef then s.pos + g.mergeLen - 1 else s.pos + g.mergeLen)
    (href : ∀ k, g.numRefIor k = if s.pos - base + 1 ≤ k ∧ k < s.pos - base + g.mergeLen then
        (if g.lastRqMultiRef = true ∧ k + 1 = s.pos - base + g.mergeLen then 2 else 1)
      else (if (s.rq s.pos).numRefIor = 0 then
          Function.update (fun k => (s.rq (base + k)).numRefIor) (s.pos - base) 1
        else fun k => (s.rq (base + k)).numRefIor) k) (j : Nat) :
    (s.withRefs base g j).numRefIor = if s.pos < j ∧ j < s.pos + g.mergeLen then
        (if g.lastRqMultiRef = true ∧ j = next then 2 else 1)
      else if j = s.pos ∧ (s.rq j).numRefIor = 0 then 1 else (s.rq j).numRefIor := by
  by_cases hbj : base ≤ j
  · have hj : base + (j - base) = j := by omega
    simp only [withRefs, if_pos hbj, href (j - base)]
    by_cases hin : s.pos < j ∧ j < s.pos + g.mergeLen
    · rw [if_pos (by omega), if_pos hin]
      refine if_congr (and_congr_right fun hm => ?_) rfl rfl
      rw [hnext, if_pos hm]
      omega
    · rw [if_neg (by omega), if_neg hin]
      by_cases h0 : (s.rq s.pos).numRefIor = 0
      · rw [if_pos h0]
        by_cases hjp : j = s.pos
        · subst hjp
          rw [Function.update_self, if_pos ⟨rfl, h0⟩]
        · rw [Function.update_of_ne (by omega), hj, if_neg fun hc => hjp hc.1]
      · rw [if_neg h0, hj, if_neg]
        rintro ⟨rfl, hz⟩
        exact h0 hz
  · simp only [withRefs, if_neg hbj]
    rw [if_neg (by omega), if_neg (by omega)]

theorem nextGroup_spec (h : Inv rqs off s) {base stop : Nat} (hb : base ≤ s.pos) (hst : s.pos < stop) :
    ∃ next off', NextGroup rqs s base (s.nextGroup rqs base stop) next off' := by
  have hpos : base + (s.pos - base) = s.pos := by omega
  have hspec : GroupSpec (fun k => rqs (base + k)) (stop - base) (s.pos - base) s.sectS 1 _ _
      (s.nextGroup rqs base stop) :=
    getMergeLen_spec (fun k => (s.rq (base + k)).numRefIor) (by omega)
      (by rw [hpos]; exact h.off_lt) (by rw [hpos]; exact h.sect)
  generalize s.nextGroup rqs base stop = g at hspec
  obtain ⟨hlen, -, -, hmulti, href, -, i', off', -, -, -, hend⟩ := hspec
  obtain ⟨next, hnext⟩ : ∃ next, next = if g.lastRqMultiRef then s.pos + g.mergeLen - 1 else s.pos + g.mergeLen :=
    ⟨_, rfl⟩
  have hlt : s.pos < next := by
    rw [hnext]
    split_ifs with hm
    · have := (hmulti hm).1
      omega
    · omega
  rw [hpos] at href
  have hkept (j : Nat) : (s.withRefs base g j).result = (s.rq j).result ∧
      (s.withRefs base g j).commits = (s.rq j).commits := by
    unfold withRefs
    split_ifs <;> exact ⟨rfl, rfl⟩
  have hoff : (0 < off' ↔ g.lastRqMultiRef = true) ∧ off' < (rqs next).sectors ∧
      (if g.lastRqMultiRef then (s.sectS + g.sectLen) % 2^64 else (rqs next).pos) % 2^64 =
        ((rqs next).pos + off') % 2^64 := by
    unfold GroupEnd at hend
    by_cases hm : g.lastRqMultiRef = true
    · rw [if_pos hm] at hend hnext
      obtain ⟨he, hp, hl, hs⟩ := hend
      have hi : base + i' = next := by omega
      simp only [hi] at hl hs
      rw [if_pos hm, Nat.mod_mod]
      exact ⟨by simp [hp, hm], hl, hs⟩
    · rw [if_neg hm] at hend
      obtain ⟨-, rfl⟩ := hend
      rw [if_neg hm, Nat.add_zero]
      exact ⟨by simp [hm], (rqs next).sectors_pos, rfl⟩
  exact ⟨next, off', hlen, hnext, hlt,
    fun hs => Bool.eq_false_iff.mpr fun hm => absurd (hmulti hm).2 (Nat.ne_of_lt hs),
    hkept, withRefs_numRefIor hb hnext href, hoff.1, hoff.2.1, hoff.2.2⟩

namespace NextGroup
variable {base next off' : Nat} {g : MergeRes}

theorem group_end (hg : NextGroup rqs s base g next off') :
    s.pos + g.mergeLen = next + if 0 < off' then 1 else 0 := by
  have hlen := hg.len_pos
  rw [hg.next_eq]
  simp only [hg.shared]
  split_ifs <;> omega

theorem begun_eq (hg : NextGroup rqs s base g next off') (h : Inv rqs off s) {j : Nat}
    (hj : j < s.pos ∨ (j = s.pos ∧ 0 < off)) : s.withRefs base g j = s.rq j := by
  have hbegun := h.begun j hj
  refine DmsRq.ext ?_ (hg.kept j).1 (hg.kept j).2
  rw [hg.refs, if_neg (by omega), if_neg]
  rintro ⟨hjs, hz⟩
  rw [if_pos hjs] at hbegun
  exact absurd hz (Nat.ne_of_gt hbegun.numRefIor_pos)

/-- A request this group is the first to reach gets a reference for it, and one more when
it is shared with the group behind. -/
theorem first_refs (hg : NextGroup rqs s base g next off') (h : Inv rqs off s) {j : Nat}
    (hj : s.pos < j ∨ (j = s.pos ∧ off = 0)) (hin : j < s.pos + g.mergeLen) :
    (s.withRefs base g j).numRefIor = 1 + if j = next then 1 else 0 := by
  have hle := (h.fresh j hj).1
  have hend := hg.group_end
  have hadv := hg.advances
  rw [hg.refs]
  by_cases hjn : j = next
  · have hpos : 0 < off' := by
      by_contra h0
      rw [if_neg h0] at hend
      omega
    rw [if_pos hjn, if_pos (by omega), if_pos ⟨hg.shared.mp hpos, hjn⟩]
  · rw [if_neg hjn, if_neg (fun hc : g.lastRqMultiRef = true ∧ j = next => hjn hc.2)]
    by_cases hjs : s.pos < j
    · rw [if_pos ⟨hjs, hin⟩]
    · rw [if_neg (fun hc => hjs hc.1)]
      split_ifs <;> omega

end NextGroup
end UserCommitState
end DiscoClient
