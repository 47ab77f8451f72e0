import DiscoClient.IoManager.OverlapInvariant

namespace DiscoClient.VolIoReqPool
open List

section submit
variable {s t : VolIoReqPool} {a : UserIoAddr} {wf : a.WellFormed} {dir : IoDir}

private def alloc (s : VolIoReqPool) (a : UserIoAddr) (wf : a.WellFormed) (dir : IoDir) : VolIoReqPool :=
  { s with
    req := Function.update s.req s.numSubmitted (.initRequest a wf dir)
    numSubmitted := s.numSubmitted + 1 }

private def queued (s : VolIoReqPool) : List Nat := s.ioReqOvlpPool.reverse ++ s.ioReqPool.reverse

private theorem alloc_req_ne {x : Nat} (h : x ≠ s.numSubmitted) : (s.alloc a wf dir).req x = s.req x := by
  simp [alloc, h]

private theorem alloc_req_new : (s.alloc a wf dir).req s.numSubmitted = .initRequest a wf dir := by
  simp [alloc]

private theorem mem_queued (q : Nat) : q ∈ s.queued ↔ s.Unfinished q := by
  simp [queued, Unfinished, or_comm]

private theorem nodup_queued (h : QueueInv s) : s.queued.Nodup := by
  have hnd := nodup_append_comm.mp h.nodup
  rw [← nodup_reverse] at hnd
  simpa [queued] using hnd

/-- u is the pool with the new request linked to its rivals; the request runs when it has none. -/
structure Submitted (s u t : VolIoReqPool) (run : Bool) : Prop where
  numSubmitted : t.numSubmitted = s.numSubmitted + 1
  others : ∀ x, x ≠ s.numSubmitted → t.req x = u.req x
  new : t.req s.numSubmitted = { u.req s.numSubmitted with
    stat := if run then .rwUserData else .ovlpWait, inReqPool := run, inWaitPool := !run }
  pool : t.ioReqPool = s.ioReqPool ++ (if run then [s.numSubmitted] else [])
  ovlpPool : t.ioReqOvlpPool = s.ioReqOvlpPool ++ (if run then [] else [s.numSubmitted])
  onfly : t.cntOnflyIoReq = s.cntOnflyIoReq + (if run then 1 else 0)
  onfly_ovlp : t.cntOnflyOvlpIoReq = s.cntOnflyOvlpIoReq + (if run then 0 else 1)
  enterLog : t.enterLog = s.enterLog ++ (if run then [s.numSubmitted] else [])

private theorem submitted (h : QueueInv s) (a : UserIoAddr) (wf : a.WellFormed) (dir : IoDir) :
    Submitted s ((s.alloc a wf dir).linkAll s.numSubmitted s.queued) (s.submit a wf dir)
      (decide ((s.alloc a wf dir).rivals s.numSubmitted s.queued = [])) := by
  obtain ⟨hnp, hnw⟩ := h.not_entered (le_refl s.numSubmitted)
  have heq := ioReqAddReqPool_eq (s.alloc a wf dir) s.numSubmitted
    (by simp [alloc, IoRequest.initRequest]) (by simp [alloc, IoRequest.initRequest])
    (by simp [alloc, IoRequest.initRequest]) (by simp [alloc, hnp, hnw]) h.nodup
  have hq : (s.alloc a wf dir).ioReqOvlpPool.reverse ++ (s.alloc a wf dir).ioReqPool.reverse = s.queued := rfl
  have hnew : (((s.alloc a wf dir).linkAll s.numSubmitted s.queued).req s.numSubmitted).inReqPool = false ∧
      (((s.alloc a wf dir).linkAll s.numSubmitted s.queued).req s.numSubmitted).inWaitPool = false := by
    simp [linkAll, alloc, IoRequest.initRequest]
  simp only [hq] at heq
  obtain ⟨t, ht⟩ : ∃ t, t = ((s.alloc a wf dir).ioReqAddReqPool s.numSubmitted).2 := ⟨_, rfl⟩
  have hsub : s.submit a wf dir = t := ht.symm
  rw [hsub]
  rw [heq] at ht
  by_cases hrv : (s.alloc a wf dir).rivals s.numSubmitted s.queued = []
  · rw [if_pos hrv] at ht
    subst ht
    rw [decide_eq_true hrv]
    refine ⟨rfl, fun x hx => ?_, ?_, rfl, ?_, rfl, ?_, rfl⟩
    · simp [modifyReq, hx]
    · simp [modifyReq, ← hnew.2]
    · simp [modifyReq, linkAll, alloc]
    · simp [modifyReq, linkAll, alloc]
  · rw [if_neg hrv] at ht
    subst ht
    rw [decide_eq_false hrv]
    refine ⟨rfl, fun x hx => ?_, ?_, ?_, rfl, ?_, rfl, ?_⟩
    · simp [modifyReq, hx]
    · simp [modifyReq, ← hnew.1]
    · simp [modifyReq, linkAll, alloc]
    · simp [modifyReq, linkAll, alloc]
    · simp [modifyReq, linkAll, alloc]

namespace Submitted
variable {u : VolIoReqPool} {run : Bool}

section

variable (hs : Submitted s u t run)
include hs

theorem mem_pool (x : Nat) :
    x ∈ t.ioReqPool ↔ x ∈ s.ioReqPool ∨ (x = s.numSubmitted ∧ run = true) := by
  cases run <;> simp [hs.pool]

theorem mem_ovlpPool (x : Nat) :
    x ∈ t.ioReqOvlpPool ↔ x ∈ s.ioReqOvlpPool ∨ (x = s.numSubmitted ∧ run = false) := by
  cases run <;> simp [hs.ovlpPool]

theorem unfinished (x : Nat) :
    t.Unfinished x ↔ s.Unfinished x ∨ x = s.numSubmitted := by
  unfold Unfinished
  rw [hs.mem_pool, hs.mem_ovlpPool]
  cases run <;> simp <;> tauto

theorem nodup_pools (h : QueueInv s) : (t.ioReqOvlpPool ++ t.ioReqPool).Nodup := by
  obtain ⟨hnp, hnw⟩ := h.not_entered (le_refl s.numSubmitted)
  rw [hs.pool, hs.ovlpPool]
  cases run with
  | false =>
    simp only [Bool.false_eq_true, if_false, append_nil]
    refine nodup_append_comm.mp ?_
    rw [← append_assoc]
    exact (nodup_append_comm.mp h.nodup).append (nodup_singleton _) (by simp [hnp, hnw])
  | true =>
    simp only [if_true, append_nil]
    rw [← append_assoc]
    exact h.nodup.append (nodup_singleton _) (by simp [hnp, hnw])

end

section Linked
variable (hs : Submitted s ((s.alloc a wf dir).linkAll s.numSubmitted s.queued) t run)
include hs

theorem sameIo_alloc (x : Nat) : SameIo (t.req x) ((s.alloc a wf dir).req x) := by
  have hl := linkAll_sameIo (s.alloc a wf dir) s.numSubmitted s.queued x
  by_cases hx : x = s.numSubmitted
  · subst hx
    rw [hs.new]
    exact hl
  · rwa [hs.others x hx]

theorem sameIo (x : Nat) (hx : x ≠ s.numSubmitted) : SameIo (t.req x) (s.req x) := by
  have h := hs.sameIo_alloc x
  rwa [alloc_req_ne hx] at h

theorem others_eq {x : Nat} (hx : x ≠ s.numSubmitted) : t.req x =
    { s.req x with
      wakeList := (s.req x).wakeList ++
        if x ∈ (s.alloc a wf dir).rivals s.numSubmitted s.queued then [t.link x s.numSubmitted] else []
      cntOvlpWake := (s.req x).cntOvlpWake +
        if x ∈ (s.alloc a wf dir).rivals s.numSubmitted s.queued then 1 else 0 } := by
  have hlink : t.link x s.numSubmitted = _ :=
    (hs.sameIo_alloc x).linkItem (hs.sameIo_alloc s.numSubmitted) x s.numSubmitted
  rw [hs.others x hx, linkAll_of_ne hx, hlink, alloc_req_ne hx]

theorem arrival (h : QueueInv s) :
    Arrival s t s.numSubmitted ((s.alloc a wf dir).rivals s.numSubmitted s.queued) where
  fresh := h.submitted
  sameIo := hs.sameIo
  unfinished := hs.unfinished
  nodup := (nodup_queued h).filter _
  mem q := by
    rw [rivals, mem_filter, mem_queued, ovlpTest_iff,
      conflict_congr (hs.sameIo_alloc q) (hs.sameIo_alloc s.numSubmitted)]
  new_wait := by
    have hlink (q : Nat) : linkItem ((s.alloc a wf dir).req q) ((s.alloc a wf dir).req s.numSubmitted) q
        s.numSubmitted = t.link q s.numSubmitted :=
      ((hs.sameIo_alloc q).linkItem (hs.sameIo_alloc s.numSubmitted) q s.numSubmitted).symm
    rw [hs.new, linkAll_self]
    simp only [hlink]
    rw [alloc_req_new]
    simp [IoRequest.initRequest]
  new_wake := by
    rw [hs.new, linkAll_self, alloc_req_new]
    exact ⟨rfl, rfl⟩
  wait x hx := by
    rw [hs.others_eq hx]
    exact ⟨rfl, rfl⟩
  wake x hx := by
    rw [hs.others_eq hx]
    exact ⟨rfl, rfl⟩

end Linked

theorem queueInv (hs : Submitted s ((s.alloc a wf dir).linkAll s.numSubmitted s.queued) t run)
    (h : QueueInv s) : QueueInv t := by
  obtain ⟨hnp, hnw⟩ := h.not_entered (le_refl s.numSubmitted)
  have hold (x : Nat) (hx : s.Unfinished x) : x ≠ s.numSubmitted := Nat.ne_of_lt (h.submitted x hx)
  refine ⟨hs.nodup_pools h, fun r hr => ?_, fun r => ?_, fun r => ?_, fun r hr => ?_, fun r hr => ?_,
    ?_, ?_, fun r => ?_⟩
  · rw [hs.numSubmitted]
    rcases (hs.unfinished r).mp hr with hr | rfl
    · exact Nat.lt_succ_of_lt (h.submitted r hr)
    · exact Nat.lt_succ_self _
  · rw [hs.mem_pool]
    by_cases hr : r = s.numSubmitted
    · subst hr
      simp [hs.new, hnp]
    · rw [hs.others_eq hr, h.in_pool]
      simp [hr]
  · rw [hs.mem_ovlpPool]
    by_cases hr : r = s.numSubmitted
    · subst hr
      simp [hs.new, hnw]
    · rw [hs.others_eq hr, h.in_wait]
      simp [hr]
  · rcases (hs.mem_ovlpPool r).mp hr with hr | ⟨rfl, hf⟩
    · rw [hs.others_eq (hold r (Or.inr hr))]
      exact h.waiting_stat r hr
    · simp [hs.new, hf]
  · rcases (hs.mem_pool r).mp hr with hr | ⟨rfl, hf⟩
    · rw [hs.others_eq (hold r (Or.inl hr))]
      exact h.running_stat r hr
    · simp [hs.new, hf, IorFsmState.Started]
  · rw [hs.onfly, hs.pool, h.onfly]
    cases run <;> simp
  · rw [hs.onfly_ovlp, hs.ovlpPool, h.onfly_ovlp]
    cases run <;> simp
  · rw [hs.enterLog, count_append, h.entered, hs.numSubmitted]
    simp only [hs.mem_ovlpPool]
    by_cases hr : r = s.numSubmitted
    · subst hr
      cases run <;> simp [hnw]
    · have hlt : r < s.numSubmitted + 1 ↔ r < s.numSubmitted := by omega
      cases run <;> simp [hr, hlt, Ne.symm hr]

end Submitted

theorem PoolInv.submit (h : PoolInv s) (a : UserIoAddr) (wf : a.WellFormed) (dir : IoDir) :
    PoolInv (s.submit a wf dir) := by
  have hs := submitted h.toQueueInv a wf dir
  have ha := hs.arrival h.toQueueInv
  have hold (x : Nat) (hx : s.Unfinished x) : x ≠ s.numSubmitted := Nat.ne_of_lt (h.submitted x hx)
  refine ⟨ha.linkInv h.toLinkInv, hs.queueInv h.toQueueInv, fun r hr => ?_, fun r hr => ?_⟩
  · rcases (hs.mem_pool r).mp hr with hr | ⟨rfl, hrun⟩
    · rw [(ha.wait r (hold r (Or.inl hr))).1]
      exact h.running_free r hr
    · rw [ha.new_wait.1, of_decide_eq_true hrun, map_nil]
  · rcases (hs.mem_ovlpPool r).mp hr with hr | ⟨rfl, hwait⟩
    · rw [(ha.wait r (hold r (Or.inr hr))).1]
      exact h.waiting_linked r hr
    · rw [ha.new_wait.1]
      exact fun he => of_decide_eq_false hwait (map_eq_nil_iff.mp he)

theorem PoolInv.submit_sameIo (h : PoolInv s) (a : UserIoAddr) (wf : a.WellFormed) (dir : IoDir) :
    (s.submit a wf dir).numSubmitted = s.numSubmitted + 1 ∧
    (∀ x, x ≠ s.numSubmitted → SameIo ((s.submit a wf dir).req x) (s.req x)) ∧
    SameIo ((s.submit a wf dir).req s.numSubmitted) (.initRequest a wf dir) := by
  have hs := submitted h.toQueueInv a wf dir
  refine ⟨hs.numSubmitted, hs.sameIo, ?_⟩
  have hnew := hs.sameIo_alloc s.numSubmitted
  rwa [alloc_req_new] at hnew

theorem PoolInv.submit_unfinished (h : PoolInv s) (a : UserIoAddr) (wf : a.WellFormed) (dir : IoDir) (x : Nat) :
    (s.submit a wf dir).Unfinished x ↔ s.Unfinished x ∨ x = s.numSubmitted :=
  (submitted h.toQueueInv a wf dir).unfinished x

end submit

end DiscoClient.VolIoReqPool
