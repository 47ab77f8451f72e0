import DiscoClient.IoManager.UserCommitInvariant
import DiscoClient.Lib.Countdown

namespace DiscoClient.UserCommitState
open List
variable {rqs : Nat → BlkRq} {off : Nat} {s : UserCommitState} {j : Nat}

theorem Inv.init : Inv rqs 0 (init rqs) where
  off_lt := (rqs 0).sectors_pos
  sect := rfl
  range io hio := absurd hio not_mem_nil
  bit io hio := absurd hio not_mem_nil
  fresh j _ := ⟨Nat.zero_le 1, rfl, rfl⟩
  begun j hj := by
    rcases hj with hj | hj
    · exact absurd hj (Nat.not_lt_zero j)
    · exact absurd hj.2 (lt_irrefl 0)
  few j := by simp [UserCommitState.init]
  used j hj := absurd hj (Nat.not_lt_zero j)

theorem Inv.contains_false (h : Inv rqs off s) (hj : s.pos < j ∨ (j = s.pos ∧ off = 0)) :
    ∀ io ∈ s.ios, io.contains j = false := by
  intro io hio
  have := h.range io hio
  simp only [UserIo.contains, decide_eq_false_iff_not]
  split_ifs at this <;> omega

theorem Inv.counts_fresh (h : Inv rqs off s) (hj : s.pos < j ∨ (j = s.pos ∧ off = 0)) :
    (s.ios.countP fun io => io.contains j) = 0 ∧ s.openCnt j = 0 ∧ s.failCnt j = 0 := by
  have hc := h.contains_false hj
  refine ⟨?_, ?_, ?_⟩ <;>
  · refine countP_eq_zero.mpr fun io hio => ?_
    simp [hc io hio]

structure Built (rqs : Nat → BlkRq) (s t : UserCommitState) (base : Nat) (g : MergeRes) (off : Nat) : Prop
    extends NextGroup rqs s base g t.pos off where
  ios : t.ios = s.ios ++ [⟨s.pos, g.mergeLen, false, none⟩]
  rq : t.rq = s.withRefs base g
  sectS : t.sectS = if g.lastRqMultiRef then (s.sectS + g.sectLen) % 2^64 else (rqs t.pos).pos

theorem Inv.built (h : Inv rqs off s) {base stop : Nat} (hb : base ≤ s.pos) (hst : s.pos < stop) :
    ∃ off', Built rqs s (s.submit rqs base stop true) base (s.nextGroup rqs base stop) off' := by
  obtain ⟨next, off', hg⟩ := nextGroup_spec h hb hst
  have hpos : (s.submit rqs base stop true).pos = next := hg.next_eq.symm
  exact ⟨off', by rw [hpos]; exact hg, rfl, rfl, rfl⟩

namespace Built
variable {t : UserCommitState} {base off' : Nat} {g : MergeRes}

variable (hbt : Built rqs s t base g off')
include hbt

theorem counts (j : Nat) :
    t.openCnt j = s.openCnt j + (if s.pos ≤ j ∧ j < s.pos + g.mergeLen then 1 else 0) ∧
    t.failCnt j = s.failCnt j ∧
    (t.ios.countP fun io => io.contains j) =
      (s.ios.countP fun io => io.contains j) + (if s.pos ≤ j ∧ j < s.pos + g.mergeLen then 1 else 0) := by
  simp [openCnt, failCnt, hbt.ios, countP_append, UserIo.contains, countP_cons]

theorem mem_ios {io : UserIo} (hio : io ∈ t.ios) :
    io ∈ s.ios ∨ io = ⟨s.pos, g.mergeLen, false, none⟩ := by
  rwa [hbt.ios, mem_append, mem_singleton] at hio

theorem begun (h : Inv rqs off s)
    (hj : j < t.pos ∨ (j = t.pos ∧ 0 < off')) :
    Outstanding (t.openCnt j + if j = t.pos then 1 else 0) (decide (t.failCnt j = 0)) (t.rq j) := by
  have hadv := hbt.advances
  have hlen := hbt.len_pos
  have hend := hbt.group_end
  rw [(hbt.counts j).1, (hbt.counts j).2.1, hbt.rq]
  by_cases hold : j < s.pos ∨ (j = s.pos ∧ 0 < off)
  · -- begun before: the group takes over the reference kept for it
    have hbegun := h.begun j hold
    rw [hbt.begun_eq h hold, if_neg (show ¬j = t.pos by omega)]
    rcases hold with hlt | ⟨hjs, -⟩
    · rw [if_neg (show ¬j = s.pos by omega)] at hbegun
      rw [if_neg (show ¬(s.pos ≤ j ∧ j < s.pos + g.mergeLen) by omega)]
      exact hbegun
    · rw [if_pos hjs] at hbegun
      rw [if_pos (show s.pos ≤ j ∧ j < s.pos + g.mergeLen by omega)]
      exact hbegun
  · -- first reached by this group
    have hnew : s.pos < j ∨ (j = s.pos ∧ off = 0) := by omega
    obtain ⟨-, hres, hcom⟩ := h.fresh j hnew
    obtain ⟨-, ho0, hf0⟩ := h.counts_fresh hnew
    have hin : s.pos ≤ j ∧ j < s.pos + g.mergeLen := by
      split_ifs at hend <;> omega
    rw [ho0, hf0, if_pos hin, Nat.zero_add]
    exact Outstanding.of_pos (by omega) ((hbt.kept j).1.trans hres) ((hbt.kept j).2.trans hcom)
      (hbt.first_refs h hnew hin.2)

theorem few (h : Inv rqs off s) (j : Nat) :
    (t.ios.countP fun io => io.contains j) + (if j = t.pos ∧ 0 < off' then 1 else 0) ≤ 2 := by
  have hadv := hbt.advances
  have hs := h.few j
  rw [(hbt.counts j).2.2]
  by_cases hj : s.pos < j ∨ (j = s.pos ∧ off = 0)
  · rw [(h.counts_fresh hj).1]
    split_ifs <;> omega
  · split_ifs at hs ⊢ <;> omega

theorem used (h : Inv rqs off s) (hj : j < t.pos) :
    0 < t.ios.countP fun io => io.contains j := by
  have hend := hbt.group_end
  rw [(hbt.counts j).2.2]
  by_cases hjs : j < s.pos
  · exact Nat.add_pos_left (h.used j hjs) _
  · rw [if_pos (by split_ifs at hend <;> omega)]
    exact Nat.succ_pos _

theorem inv (h : Inv rqs off s) : Inv rqs off' t := by
  have hadv := hbt.advances
  have hend := hbt.group_end
  refine ⟨hbt.off_lt, by rw [hbt.sectS]; exact hbt.sect, fun io hio => ?_, fun io hio => ?_, fun j hj => ?_,
    fun j hj => hbt.begun h hj, hbt.few h, fun j hj => hbt.used h hj⟩
  · rcases hbt.mem_ios hio with hio | rfl
    · have := h.range io hio
      split_ifs at this ⊢ <;> omega
    · exact Nat.le_of_eq hend
  · rcases hbt.mem_ios hio with hio | rfl
    · exact h.bit io hio
    · rfl
  · rw [hbt.rq, (hbt.kept j).1, (hbt.kept j).2, hbt.refs,
      if_neg (by split_ifs at hend <;> omega), if_neg (by omega)]
    exact h.fresh j (Or.inl (by omega))

end Built

theorem Inv.submit (h : Inv rqs off s) {base stop : Nat} (hb : base ≤ s.pos) (hst : s.pos < stop) :
    ∃ off', Inv rqs off' (s.submit rqs base stop true) := by
  obtain ⟨off', hbt⟩ := h.built hb hst
  exact ⟨off', hbt.inv h⟩

theorem Inv.hold (h : Inv rqs off s) {base stop : Nat} (hb : base ≤ s.pos) (hst : s.pos < stop)
    (hshort : (s.nextGroup rqs base stop).sectLen < maxSectsPerRq) : Inv rqs off (s.hold rqs base stop) := by
  obtain ⟨next, off', hg⟩ := nextGroup_spec h hb hst
  refine ⟨h.off_lt, h.sect, h.range, h.bit, fun j hj => ?_, fun j hj => ?_, h.few, h.used⟩
  · obtain ⟨hle, hres, hcom⟩ := h.fresh j hj
    refine ⟨?_, (hg.kept j).1.trans hres, (hg.kept j).2.trans hcom⟩
    show (s.withRefs base _ j).numRefIor ≤ 1
    rw [hg.refs, hg.short hshort]
    simp only [Bool.false_eq_true, false_and, if_false]
    split_ifs <;> omega
  · show Outstanding _ _ (s.withRefs base _ j)
    rw [hg.begun_eq h hj]
    exact h.begun j hj

theorem Inv.openCnt_le (h : Inv rqs off s) (j : Nat) : s.openCnt j ≤ 2 := by
  have hle : s.openCnt j ≤ s.ios.countP fun io => io.contains j :=
    countP_mono_left fun io _ hio => (Bool.and_eq_true_iff.mp hio).1
  have hfew := h.few j
  omega

section Complete
variable {k : Nat} {io : UserIo} {r : Bool}

structure Ended (s t : UserCommitState) (k : Nat) (io : UserIo) (r : Bool) : Prop where
  at_index : s.ios[k]? = some io
  open_before : io.outcome = none
  ios : t.ios = s.ios.set k { io with ciUser := true, outcome := some r }
  pos : t.pos = s.pos
  sectS : t.sectS = s.sectS
  rq : ∀ j, t.rq j = if io.contains j then commitRq r (s.rq j) else s.rq j

namespace Ended
variable {t : UserCommitState}

variable (he : Ended s t k io r)
include he

theorem counts (j : Nat) :
    t.openCnt j + (if io.contains j then 1 else 0) = s.openCnt j ∧
    t.failCnt j = s.failCnt j + (if io.contains j && !r then 1 else 0) ∧
    (t.ios.countP fun io => io.contains j) = s.ios.countP fun io => io.contains j := by
  have hadd (p : UserIo → Bool) := Countdown.countP_set_add he.at_index { io with ciUser := true, outcome := some r } p
  rw [← he.ios] at hadd
  have hsame : ({ io with ciUser := true, outcome := some r } : UserIo).contains j = io.contains j := rfl
  refine ⟨?_, ?_, ?_⟩
  · simpa [he.open_before, openCnt] using hadd fun io => io.contains j && io.outcome.isNone
  · simpa [he.open_before, hsame, failCnt] using hadd fun io => io.contains j && decide (io.outcome = some false)
  · simpa [hsame] using hadd fun io => io.contains j

theorem mem_ios {io' : UserIo} (hio : io' ∈ t.ios) :
    io' ∈ s.ios ∨ io' = { io with ciUser := true, outcome := some r } := by
  rw [he.ios] at hio
  exact mem_or_eq_of_mem_set hio

theorem begun (h : Inv rqs off s)
    (hj : j < s.pos ∨ (j = s.pos ∧ 0 < off)) :
    Outstanding (t.openCnt j + if j = s.pos then 1 else 0) (decide (t.failCnt j = 0)) (t.rq j) := by
  have hb := h.begun j hj
  obtain ⟨hopen, hfail, -⟩ := he.counts j
  rw [he.rq, hfail]
  cases hc : io.contains j with
  | false =>
    rw [hc] at hopen
    rw [← hopen] at hb
    simpa using hb
  | true =>
    rw [hc, if_pos rfl] at hopen
    rw [← hopen, Nat.add_right_comm] at hb
    have hlt : t.openCnt j + (if j = s.pos then 1 else 0) < 2^32 := by
      have := h.openCnt_le j
      split_ifs <;> omega
    have hres : (decide (s.failCnt j = 0) && r) =
        decide (s.failCnt j + (if (true && !r) = true then 1 else 0) = 0) := by
      cases r <;> simp
    rw [if_pos rfl, ← hres]
    exact hb.commitRq hlt r

theorem inv (h : Inv rqs off s) : Inv rqs off t := by
  have hmem : io ∈ s.ios := mem_of_getElem? he.at_index
  refine ⟨by rw [he.pos]; exact h.off_lt, by rw [he.pos, he.sectS]; exact h.sect, fun io' hio' => ?_,
    fun io' hio' => ?_, fun j hj => ?_, fun j hj => ?_, fun j => ?_, fun j hj => ?_⟩
  · rw [he.pos]
    rcases he.mem_ios hio' with hio' | rfl
    · exact h.range io' hio'
    · exact h.range io hmem
  · rcases he.mem_ios hio' with hio' | rfl
    · exact h.bit io' hio'
    · rfl
  · rw [he.pos] at hj
    rw [he.rq, h.contains_false hj io hmem]
    exact h.fresh j hj
  · rw [he.pos] at hj ⊢
    exact he.begun h hj
  · rw [(he.counts j).2.2, he.pos]
    exact h.few j
  · rw [he.pos] at hj
    rw [(he.counts j).2.2]
    exact h.used j hj

end Ended

theorem Inv.complete (h : Inv rqs off s) (k : Nat) (r : Bool) : Inv rqs off (s.ioReqCommitUser k r) := by
  rw [ioReqCommitUser]
  cases hk : s.ios[k]? with
  | none => exact h
  | some io =>
    by_cases hci : io.ciUser = true
    · simpa [hci] using h
    have hopen : io.outcome = none := by
      rw [← Option.not_isSome_iff_eq_none, ← h.bit io (mem_of_getElem? hk)]
      exact hci
    simp only [hci, Bool.false_eq_true, if_false]
    refine Ended.inv (k := k) (r := r) ⟨hk, hopen, rfl, rfl, rfl, fun j => ?_⟩ h
    dsimp only
    rw [forRqs_apply]
    simp only [UserIo.contains, decide_eq_true_eq, Nat.add_zero]

end Complete

theorem submit_fail_eq (s : UserCommitState) (stop : Nat) :
    s.submit rqs s.pos stop false = (s.submit rqs s.pos stop true).ioReqCommitUser s.ios.length false := by
  have hbody : failFreeRq = commitRq false := funext failFreeRq_eq
  have hlast (io : UserIo) : (s.ios ++ [io])[s.ios.length]? = some io := by simp
  simp only [submit, ioReqCommitUser, hlast, initIorFailFreeAllRq, Nat.sub_self, hbody]
  simp

theorem Inv.submit_fail (h : Inv rqs off s) {stop : Nat} (hst : s.pos < stop) :
    ∃ off', Inv rqs off' (s.submit rqs s.pos stop false) := by
  obtain ⟨off', h'⟩ := h.submit (le_refl s.pos) hst
  rw [submit_fail_eq]
  exact ⟨off', h'.complete _ _⟩

end DiscoClient.UserCommitState
