import DiscoClient.NnClient.NnQueueingStep

namespace DiscoClient
open ThreadPool

namespace NnPoint

def ends : NnPoint → Nat
  | .cancelling | .toRm | .calling _ | .ended _ | .freeing _ => 1
  | _ => 0

def willCall : NnPoint → Nat
  | .cancelling | .toRm | .calling _ => 1
  | _ => 0

theorem not_ending {a : NnPoint} (h : a.ends = 0) : a.willCall = 0 ∧ .toRm ≠ a := by
  cases a <;> first | exact ⟨rfl, NnPoint.noConfusion⟩ | cases h

end NnPoint

namespace NnReqRun
variable {s t : NnReqRun} {cfg : NnTimeConfig}

/-- The timer releases the lock it took and finds the request queued; a retry has time left. -/
def InTime (cfg : NnTimeConfig) (s : NnReqRun) : NnEvent → Prop
  | .toChkState => s.reqID.toNat < nnReqHbucketSize
  | .toRmWorkQ => s.threads (.add .submit) = 0 ∧ s.threads (.add .retry) = 0
  | .schedTimer .retry now => s.scheduleTime cfg now ≠ 0
  | _ => True

instance (cfg : NnTimeConfig) (s : NnReqRun) (e : NnEvent) : Decidable (InTime cfg s e) := by
  unfold InTime
  split <;> infer_instance

def load (s : NnReqRun) : Nat := weight NnPoint.queues s.threads + s.inWorkQ.toNat

/-- One thread at most ends the request, after it has left the pool and, on a timeout, its queue. -/
structure Ending (s : NnReqRun) : Prop where
  ends : weight NnPoint.ends s.threads ≤ s.phase.isFinal.toNat
  calls : s.endCalls + weight NnPoint.willCall s.threads ≤ s.phase.isFinal.toNat
  pooled : s.phase.isFinal = false → s.feaInReqPool = true ∧ s.inReqPool = true
  left : s.phase.isFinal = true → s.inReqPool = false
  drained : s.phase = .timeoutFire → s.threads .toRm = 0 → s.load = 0
  plock : s.plock = false

def pool (s : NnReqRun) : Bool × Bool × Bool × Nat := (s.feaInReqPool, s.inReqPool, s.plock, s.endCalls)

structure Calm (s t : NnReqRun) : Prop where
  pool : t.pool = s.pool
  final : t.phase.isFinal = s.phase.isFinal
  timeout : t.phase = .timeoutFire → s.phase = .timeoutFire
  ends : weight NnPoint.ends t.threads ≤ weight NnPoint.ends s.threads
  calls : weight NnPoint.willCall t.threads ≤ weight NnPoint.willCall s.threads
  toRm : t.threads .toRm = s.threads .toRm
  load : t.phase = .timeoutFire → t.load ≤ s.load

theorem Ending.calm (h : Ending s) (hc : Calm s t) : Ending t := by
  have hpool := hc.pool
  simp only [NnReqRun.pool, Prod.mk.injEq] at hpool
  obtain ⟨hfea, hin, hplock, hcalls⟩ := hpool
  refine ⟨?_, ?_, ?_, ?_, fun hp hrm => ?_, hplock.trans h.plock⟩
  · rw [hc.final]
    exact hc.ends.trans h.ends
  · rw [hc.final, hcalls]
    exact (Nat.add_le_add_left hc.calls _).trans h.calls
  · rw [hc.final, hfea, hin]
    exact h.pooled
  · rw [hc.final, hin]
    exact h.left
  · have hzero := h.drained (hc.timeout hp) (hc.toRm.symm.trans hrm)
    exact Nat.le_zero.mp (hzero ▸ hc.load hp)

theorem updateState_calm (s : NnReqRun) {e : NnReqEvent} (he : e.target.isFinal = false) :
    (s.updateState e).phase.isFinal = s.phase.isFinal ∧
      ((s.updateState e).phase = .timeoutFire → s.phase = .timeoutFire) := by
  by_cases hact : s.action e = e.grant
  · obtain ⟨hsrc, htgt⟩ := granted hact
    rw [htgt, he, NnReqEvent.sources_not_final hsrc]
    refine ⟨rfl, fun hp => ?_⟩
    rw [hp] at he
    cases he
  · rw [refused hact]
    exact ⟨rfl, id⟩

section Calm
variable {a b : NnPoint}

theorem calm_move (ha : 0 < s.threads a) (ht : t.threads = ThreadPool.move s.threads a b) (hpool : t.pool = s.pool)
    (hphase : t.phase.isFinal = s.phase.isFinal ∧ (t.phase = .timeoutFire → s.phase = .timeoutFire))
    (hends : b.ends ≤ a.ends) (hcalls : b.willCall ≤ a.willCall) (hra : .toRm ≠ a) (hrb : .toRm ≠ b)
    (hload : t.inWorkQ.toNat + b.queues ≤ s.inWorkQ.toNat + a.queues) : Calm s t := by
  have hq := weight_move NnPoint.queues b ha
  have he := weight_move NnPoint.ends b ha
  have hw := weight_move NnPoint.willCall b ha
  rw [← ht] at hq he hw
  refine ⟨hpool, hphase.1, hphase.2, by omega, by omega, ?_, fun _ => ?_⟩
  · rw [ht]
    exact move_of_ne _ hra hrb
  · rw [NnReqRun.load, NnReqRun.load]
    omega

theorem calm_leave (ha : 0 < s.threads a) (ht : t.threads = ThreadPool.leave s.threads a) (hpool : t.pool = s.pool)
    (hphase : t.phase.isFinal = s.phase.isFinal ∧ (t.phase = .timeoutFire → s.phase = .timeoutFire))
    (hra : .toRm ≠ a) (hin : t.inWorkQ = s.inWorkQ) : Calm s t := by
  have hq := weight_leave NnPoint.queues ha
  have he := weight_leave NnPoint.ends ha
  have hw := weight_leave NnPoint.willCall ha
  rw [← ht] at hq he hw
  refine ⟨hpool, hphase.1, hphase.2, by omega, by omega, ?_, fun _ => ?_⟩
  · rw [ht]
    exact leave_of_ne _ hra
  · rw [NnReqRun.load, NnReqRun.load, hin]
    omega

theorem calm_enter (ht : t.threads = ThreadPool.enter s.threads b) (hpool : t.pool = s.pool)
    (hphase : t.phase.isFinal = s.phase.isFinal ∧ (t.phase = .timeoutFire → s.phase = .timeoutFire)) (hends : b.ends = 0)
    (hload : t.phase = .timeoutFire → t.inWorkQ.toNat + b.queues ≤ s.inWorkQ.toNat) : Calm s t := by
  obtain ⟨hcalls, hrb⟩ := NnPoint.not_ending hends
  have hq := weight_enter NnPoint.queues s.threads b
  have he := weight_enter NnPoint.ends s.threads b
  have hw := weight_enter NnPoint.willCall s.threads b
  rw [← ht] at hq he hw
  refine ⟨hpool, hphase.1, hphase.2, by omega, by omega, ?_, fun hp => ?_⟩
  · rw [ht]
    exact enter_of_ne _ hrb
  · have := hload hp
    rw [NnReqRun.load, NnReqRun.load]
    omega

theorem calm_pass (ha : 0 < s.threads a) (ht : t.threads = ThreadPool.move s.threads a b) (hpool : t.pool = s.pool)
    (hphase : t.phase.isFinal = s.phase.isFinal ∧ (t.phase = .timeoutFire → s.phase = .timeoutFire))
    (hea : a.ends = 0) (heb : b.ends = 0) (hload : t.inWorkQ.toNat + b.queues ≤ s.inWorkQ.toNat + a.queues) : Calm s t := by
  obtain ⟨hcalls, hrb⟩ := NnPoint.not_ending heb
  refine calm_move ha ht hpool hphase ?_ ?_ (NnPoint.not_ending hea).2 hrb hload
  · exact heb.trans_le (Nat.zero_le _)
  · exact hcalls.trans_le (Nat.zero_le _)

theorem calm_pass_only (ha : 0 < s.threads a) (hea : a.ends = 0) (heb : b.ends = 0) (hload : b.queues ≤ a.queues) :
    Calm s (s.move a b) :=
  calm_pass ha rfl rfl ⟨rfl, id⟩ hea heb (Nat.add_le_add_left hload _)

theorem calm_schedTimer {c : NnCaller} {now : UInt64} (ha : 0 < s.threads (.sched c))
    (hin : InTime cfg s (.schedTimer c now)) : Calm s (s.schedTimer cfg now c) := by
  rw [NnReqRun.schedTimer]
  split_ifs with htime hfea
  · cases c with
    | submit =>
      rw [outOfTime]
      exact calm_pass ha rfl rfl ⟨rfl, id⟩ rfl rfl (Nat.le_succ _)
    | retry => exact absurd htime hin
  · exact calm_pass ha rfl rfl ⟨rfl, id⟩ rfl rfl (Nat.le_succ _)
  · exact calm_pass ha rfl rfl ⟨rfl, id⟩ rfl rfl (Nat.le_refl _)

theorem calm_addWorkQ {c : NnCaller} (ha : 0 < s.threads (.add c)) (hq : Queueing s) : Calm s (s.addWorkQ c) := by
  rw [NnReqRun.addWorkQ]
  split_ifs
  · exact calm_pass_only ha rfl rfl (Nat.zero_le 1)
  · refine calm_pass ha rfl rfl ⟨rfl, id⟩ rfl rfl ?_
    rw [(hq.not_queued ha rfl).1]
    exact Nat.le_refl 1

theorem calm_peekMDReq (hwork : s.inWorkQ = true) : Calm s s.peekMDReq := by
  have henter {b : NnPoint} (hends : b.ends = 0) (hbq : b.queues = 0) :
      Calm s (((s.refReq.updateState .peekWorkQ).rmWorkQ).enter b) := by
    refine calm_enter rfl rfl (updateState_calm s rfl) hends fun _ => ?_
    rw [hbq, hwork]
    exact Bool.toNat_le _
  rw [NnReqRun.peekMDReq]
  split_ifs
  all_goals exact henter rfl rfl

theorem calm_fcWait {enableFc : Bool} (ha : 0 < s.threads .peeked) : Calm s (s.fcWait enableFc) := by
  rw [NnReqRun.fcWait]
  split_ifs
  · exact calm_leave ha rfl rfl ⟨rfl, id⟩ (by simp) rfl
  · exact ⟨rfl, rfl, id, Nat.le_refl _, Nat.le_refl _, rfl, fun _ => Nat.le_refl _⟩
  · exact calm_pass_only ha rfl rfl (Nat.le_refl 0)

theorem calm_chSendDone (ha : 0 < s.threads .chPeeked) : Calm s s.chSendDone := by
  rw [NnReqRun.chSendDone]
  split_ifs
  all_goals exact calm_pass ha rfl rfl (updateState_calm s rfl) rfl rfl (Nat.le_refl _)

theorem calm_connBack : Calm s s.connBack := by
  rw [NnReqRun.connBack]
  split_ifs with hact
  · refine calm_enter rfl rfl (updateState_calm s rfl) rfl fun hp => ?_
    have hact' : s.action .connBack = NnReqEvent.connBack.grant := hact
    have htgt := (granted hact').2
    exact absurd (htgt.symm.trans hp) (by decide)
  · exact ⟨rfl, (updateState_calm s rfl).1, (updateState_calm s rfl).2, Nat.le_refl _, Nat.le_refl _, rfl,
      fun _ => Nat.le_refl _⟩

theorem calm_retryChkDone (ha : 0 < s.threads .rtChk) : Calm s s.retryChkDone := by
  rw [NnReqRun.retryChkDone]
  split_ifs
  · exact calm_leave ha rfl rfl (updateState_calm s rfl) (by simp) rfl
  · exact calm_pass ha rfl rfl (updateState_calm s rfl) rfl rfl (Nat.le_refl _)

theorem calm_initDone (ha : 0 < s.threads .subInit) : Calm s (s.step cfg .initDone) := by
  rw [step]
  split_ifs
  · exact calm_leave ha rfl rfl (updateState_calm s rfl) (by simp) rfl
  · exact calm_pass ha rfl rfl (updateState_calm s rfl) rfl rfl (Nat.le_refl _)

end Calm

end NnReqRun
end DiscoClient
