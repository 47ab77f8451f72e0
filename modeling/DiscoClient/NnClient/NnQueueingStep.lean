import DiscoClient.NnClient.NnQueueing

namespace DiscoClient
open ThreadPool List NnPoint

namespace NnReqRun
variable {s t : NnReqRun} {cfg : NnTimeConfig}

namespace Queueing
variable {a b : NnPoint}

variable (h : Queueing s)
include h

theorem initDone (ha : 0 < s.threads .subInit) : Queueing (s.step cfg .initDone) := by
  rw [step]
  split_ifs with hact
  · rw [refused hact]
    exact h.quiet_leave ha
  · have hphase : ((s.updateState .initDone).move .subInit .subReady).phase = .waitSend :=
      (granted (not_not.mp hact)).2
    obtain ⟨htq, hw⟩ := h.unarmed _ ha rfl
    exact h.advance ha rfl rfl rfl rfl rfl (decide_eq_true hphase) h.armed fun _ => ⟨htq, hw⟩

theorem subRefReq (ha : 0 < s.threads .subReady) : Queueing (s.step cfg .subRefReq) :=
  h.advance ha rfl rfl rfl rfl rfl (h.placed .subReady ha) h.armed fun _ => h.unarmed .subReady ha rfl

theorem schedTimer {c : NnCaller} {now : UInt64} (ha : 0 < s.threads (.sched c)) :
    Queueing (s.schedTimer cfg now c) := by
  have hq : Queueing (s.chargeTime cfg now) := ⟨h.fea, h.one, h.placed, h.queued, h.armed, h.unarmed⟩
  rw [NnReqRun.schedTimer]
  split_ifs with htime hfea
  · cases c <;> exact hq.quiet_move ha rfl (Nat.le_refl 0)
  · exact hq.quiet_move ha rfl (Nat.le_refl 0)
  · refine hq.advance ha rfl rfl rfl rfl rfl ?_ (fun _ => rfl) fun hun => absurd hun Bool.false_ne_true
    exact Bool.or_eq_true_iff.mpr (.inl (h.placed (.sched c) ha))

theorem addWorkQ {c : NnCaller} (ha : 0 < s.threads (.add c)) : Queueing (s.addWorkQ c) := by
  rw [NnReqRun.addWorkQ]
  split_ifs with hfea
  · exact h.quiet_move ha rfl (Nat.le_refl 0)
  · obtain ⟨-, -, hone⟩ := h.not_queued ha rfl
    have hw := weight_move queues (.done c) ha
    have htimer : NoTimer s (({ s with feaInWorkQ := true, inWorkQ := true }).move (.add c) (.done c)) :=
      noTimer_move rfl rfl rfl ha (Nat.le_refl 0)
    refine queueing_none rfl ?_ (fun _ => ?_) (htimer.armed h)
    · change weight queues (ThreadPool.move s.threads (.add c) (.done c)) = 0
      simp only [queues] at hw
      omega
    · have hplaced := h.placed _ ha
      simp only [allows, Bool.or_eq_true, decide_eq_true_eq] at hplaced
      exact hplaced

theorem peekMDReq (hin : s.inWorkQ = true) : Queueing s.peekMDReq := by
  have hone : weight queues s.threads = 0 := by
    have := h.one
    rw [hin, Bool.toNat_true] at this
    omega
  have hfea : s.feaInWorkQ = true := h.fea ▸ hin
  have henter {b : NnPoint} (hq : b.queues = 0) (hw : b.inTimer = 0) :
      Queueing (((s.refReq.updateState .peekWorkQ).rmWorkQ).enter b) := by
    refine h.settle ?_ ?_ rfl (noTimer_enter rfl rfl rfl hw)
    · change weight queues (ThreadPool.enter s.threads b) = 0
      rw [weight_enter, hone, hq]
    · change (s.inWorkQ && !s.feaInWorkQ) = false
      rw [hfea, Bool.not_true, Bool.and_false]
  rw [NnReqRun.peekMDReq]
  split_ifs
  · exact henter rfl rfl
  · exact henter rfl rfl
  · exact henter rfl rfl
  · exact henter rfl rfl

theorem proceed (hidle : s.inWorkQ = false ∧ s.feaInWorkQ = false ∧ weight NnPoint.queues s.threads = 0)
    (ha : 0 < s.threads a) (ht : t.threads = ThreadPool.move s.threads a b) (hb : b.queues = 0)
    (hw : b.inTimer ≤ a.inTimer) (hin : t.inWorkQ = s.inWorkQ) (hfea : t.feaInWorkQ = s.feaInWorkQ)
    (htq : t.timerQueued = s.timerQueued) (hft : t.feaSchedTimer = s.feaSchedTimer) : Queueing t := by
  obtain ⟨hin', hfea', hone⟩ := hidle
  refine h.settle ?_ (hin.trans hin') (hfea.trans hfea') (noTimer_move htq hft ht ha hw)
  have hmove := weight_move queues b ha
  rw [ht]
  omega

theorem sendMDReq (ha : 0 < s.threads .fcDone) : Queueing s.sendMDReq := by
  rw [NnReqRun.sendMDReq]
  by_cases hact : s.action .sendDone = NnReqEvent.sendDone.grant
  · have hidle := h.idle (.inl (mem_singleton.mp (granted hact).1))
    exact h.proceed hidle ha rfl rfl (Nat.le_refl 0) rfl rfl rfl rfl
  · rw [refused hact]
    exact h.quiet_move ha rfl (Nat.le_refl 0)

theorem chSendDone (ha : 0 < s.threads .chPeeked) : Queueing s.chSendDone := by
  rw [NnReqRun.chSendDone]
  split_ifs with hact
  · rw [refused hact]
    exact h.quiet_move ha rfl (Nat.le_refl 0)
  · have hidle := h.idle (.inl (mem_singleton.mp (granted (not_not.mp hact)).1))
    exact h.proceed hidle ha rfl rfl (Nat.le_refl 0) rfl rfl rfl rfl

theorem chRmReqPool (ha : 0 < s.threads .chSent) : Queueing s.chRmReqPool := by
  rw [NnReqRun.chRmReqPool]
  split_ifs with hact hfea
  · rw [refused hact]
    exact h.quiet_move ha rfl (Nat.le_refl 0)
  all_goals
    have hidle := h.idle (.inr (.inl (mem_singleton.mp (granted (not_not.mp hact)).1)))
    exact h.proceed hidle ha rfl rfl (Nat.le_refl 0) rfl rfl rfl rfl

theorem findReqPool : Queueing s.findReqPool := by
  rw [NnReqRun.findReqPool]
  split_ifs with hact hfea
  · rw [refused hact]
    exact h
  all_goals obtain ⟨hin, hfea, hone⟩ := h.idle (.inr (.inl (mem_singleton.mp (granted (not_not.mp hact)).1)))
  · exact h.settle hone hin hfea ⟨rfl, rfl, Nat.le_refl _⟩
  · refine h.settle ?_ hin hfea (noTimer_enter rfl rfl rfl rfl)
    change weight queues (ThreadPool.enter s.threads .cancelling) = 0
    rw [weight_enter, hone]
    rfl

theorem timer_off (hready : s.feaSchedTimer = true → weight NnPoint.inTimer s.threads = 0) :
    (s.timerQueued && !s.feaSchedTimer) = false ∧ weight NnPoint.inTimer s.threads = 0 := by
  cases hfea : s.feaSchedTimer with
  | true => exact ⟨Bool.and_false _, hready hfea⟩
  | false =>
    have hoff : ¬ (s.timerQueued = true ∨ 0 < weight inTimer s.threads) := fun harm =>
      absurd (hfea.symm.trans (h.armed harm)) Bool.false_ne_true
    obtain ⟨htq, hw⟩ := not_or.mp hoff
    exact ⟨by rw [Bool.eq_false_iff.mpr htq, Bool.false_and], Nat.eq_zero_of_not_pos hw⟩

theorem cancelTimer (ha : 0 < s.threads .cancelling)
    (hready : s.feaSchedTimer = true → weight NnPoint.inTimer s.threads = 0) :
    Queueing (s.step cfg .cancelTimer) := by
  obtain ⟨htq, hw⟩ := h.timer_off hready
  obtain ⟨t, ht⟩ : ∃ t, t = s.step cfg .cancelTimer := ⟨_, rfl⟩
  have hthreads : t.threads = ThreadPool.move s.threads .cancelling (.calling .ack) := by rw [ht]; rfl
  have htq' : t.timerQueued = false := by rw [ht]; exact htq
  have hw' : weight inTimer t.threads = 0 := by
    have hmove := weight_move inTimer (.calling .ack) ha
    simp only [inTimer] at hmove
    rw [hthreads]
    omega
  rw [← ht]
  refine h.of_noQueue (noQueue_move ?_ ?_ ?_ hthreads ha rfl) ?_ fun _ _ _ => ⟨htq', hw'⟩
  · rw [ht]; rfl
  · rw [ht]; exact h.fea
  · rw [ht]; exact id
  · rw [htq', hw']
    rintro (hon | hon) <;> cases hon

theorem rtCancelTimer (ha : 0 < s.threads .rtCancel)
    (hready : s.feaSchedTimer = true → weight NnPoint.inTimer s.threads = 0) :
    Queueing (s.step cfg .rtCancelTimer) := by
  obtain ⟨htq, hw⟩ := h.timer_off hready
  refine h.advance ha rfl rfl rfl rfl rfl (h.placed .rtCancel ha) ?_ fun _ => ⟨htq, hw⟩
  rw [hw]
  rintro (hon | hon)
  · exact absurd (htq.symm.trans hon) Bool.false_ne_true
  · cases hon

theorem timerFire (hon : s.timerQueued = true) : Queueing s.timerFire := by
  refine h.of_noQueue (noQueue_enter rfl h.fea id rfl ?_) (fun _ => h.armed (.inl hon)) fun a ha hun => ?_
  · split_ifs <;> rfl
  · exact absurd ((h.unarmed a ha hun).1.symm.trans hon) Bool.false_ne_true

theorem connBack : Queueing s.connBack := by
  rw [NnReqRun.connBack]
  split_ifs with hact
  · have hact' : s.action .connBack = NnReqEvent.connBack.grant := hact
    obtain ⟨hin, hfea, hone⟩ := h.idle (.inr (.inl (mem_singleton.mp (granted hact').1)))
    obtain ⟨t, ht⟩ : ∃ t, t = (s.refReq.updateState .connBack).enter .rtCancel := ⟨_, rfl⟩
    have hthreads : t.threads = ThreadPool.enter s.threads .rtCancel := by rw [ht]; rfl
    have htimer : NoTimer s t := noTimer_enter (by rw [ht]; rfl) (by rw [ht]; rfl) hthreads rfl
    rw [← ht]
    refine queueing_single (b := .rtCancel) ?_ ?_ ?_ ?_ rfl ?_ (htimer.armed h) fun hun => absurd hun Bool.false_ne_true
    · rw [ht]; exact hin
    · rw [ht]; exact hfea
    · rw [hthreads, weight_enter, hone]
      exact Nat.le_refl 1
    · rw [hthreads]
      exact enter_pos _ _
    · rw [ht]
      exact decide_eq_true (granted hact').2
  · have hsame : (s.refReq.updateState .connBack).derefReq = { s with refCnt := s.refCnt + 1 - 1 } := by
      have hfsm := congrArg NnReqRun.fsm (refused (s := s) (e := .connBack) hact)
      simp only [derefReq, NnReqRun.updateState, refReq] at hfsm ⊢
      rw [hfsm]
    rw [hsame]
    exact ⟨h.fea, h.one, h.placed, h.queued, h.armed, h.unarmed⟩

theorem retryChkDone (ha : 0 < s.threads .rtChk) : Queueing s.retryChkDone := by
  rw [NnReqRun.retryChkDone]
  split_ifs with hact
  · rw [refused hact]
    exact h.quiet_leave ha
  · have hphase : ((s.updateState .retryChkDone).move .rtChk (.sched .retry)).phase = .waitSend :=
      (granted (not_not.mp hact)).2
    exact h.advance ha rfl rfl rfl rfl rfl (decide_eq_true hphase) h.armed fun _ => h.unarmed .rtChk ha rfl

theorem toRmWorkQ (ha : 0 < s.threads .toRm) : Queueing (s.step cfg .toRmWorkQ) := by
  have hin : (s.inWorkQ && !s.feaInWorkQ) = false := by
    rw [h.fea]
    exact Bool.and_not_self _
  refine h.quiet (noQueue_move rfl hin (fun h' => ?_) rfl ha rfl) (noTimer_move rfl rfl rfl ha (Nat.le_refl 1))
  exact absurd (hin.symm.trans h') Bool.false_ne_true

theorem relPlock (lockID : Int) : Queueing (s.relPlock lockID) := by
  rw [NnReqRun.relPlock]
  split_ifs
  · exact ⟨h.fea, h.one, h.placed, h.queued, h.armed, h.unarmed⟩
  · exact h

theorem allows_timeout (ha : 0 < s.threads a) (hpos : 0 < weight NnPoint.inTimer s.threads)
    (hsrc : s.phase ∈ NnReqEvent.timeoutFire.sources) : a.allows .timeoutFire = true := by
  have hun : a.unarmed = false := Bool.eq_false_iff.mpr fun hun => by
    rw [(h.unarmed a ha hun).2] at hpos
    cases hpos
  have hplaced := h.placed a ha
  rcases mem_cons.mp hsrc with hp | hp
  · rw [hp] at hplaced
    cases a <;> first | rfl | (cases hun; done) | cases hplaced
  · refine allows_of_queues (weight_eq_zero_iff.mp (h.idle ?_).2.2 a ha) _
    rcases mem_cons.mp hp with hp | hp
    · exact .inl hp
    · exact .inr (.inl (mem_singleton.mp hp))

/-- The request times out, and a thread that has scheduled the timer may still queue it. -/
theorem timeout (hact : s.action .timeoutFire = NnReqEvent.timeoutFire.grant)
    (ha : 0 < s.threads .toRef) (hb : b.queues = 0) (hw : b.inTimer = 1)
    (ht : t.threads = ThreadPool.move s.threads .toRef b) (hfsm : t.phase = (s.updateState .timeoutFire).phase)
    (hin : t.inWorkQ = s.inWorkQ) (hfea : t.feaInWorkQ = s.feaInWorkQ) (htq : t.timerQueued = s.timerQueued)
    (hft : t.feaSchedTimer = s.feaSchedTimer) : Queueing t := by
  have hpos : 0 < weight inTimer s.threads := le_weight inTimer ha
  obtain ⟨hsrc, htgt⟩ := granted hact
  have hphase : t.phase = .timeoutFire := hfsm.trans htgt
  have hmove := weight_move queues b ha
  refine ⟨hin.trans (h.fea.trans hfea.symm), ?_, fun a ha' => ?_, fun _ => .inr hphase,
    (noTimer_move htq hft ht ha (Nat.le_of_eq hw)).armed h, fun a ha' hun => ?_⟩
  · have hone := h.one
    rw [ht, hin]
    omega
  all_goals
    have hold (hq : a.queues = 1) : 0 < s.threads a := by
      rw [ht] at ha'
      refine ha'.trans_le (move_le _ _ fun heq => ?_)
      rw [heq, hb] at hq
      cases hq
  · rw [hphase]
    rcases Nat.lt_or_ge 0 a.queues with hqa | hqa
    · exact h.allows_timeout (hold (Nat.le_antisymm a.queues_le_one hqa)) hpos hsrc
    · exact allows_of_queues (Nat.le_zero.mp hqa) _
  · rw [(h.unarmed a (hold (queues_of_unarmed hun)) hun).2] at hpos
    cases hpos

theorem toChkState (ha : 0 < s.threads .toRef) : Queueing s.toChkState := by
  rw [NnReqRun.toChkState]
  refine relPlock ?_ _
  split_ifs with hact hfea
  · have hsame : s.acquirePlock.updateState .timeoutFire = s.acquirePlock := refused (s := s.acquirePlock) hact
    have hq : Queueing s.acquirePlock := ⟨h.fea, h.one, h.placed, h.queued, h.armed, h.unarmed⟩
    rw [hsame]
    exact hq.quiet_move ha rfl (Nat.le_refl 1)
  · exact h.timeout (not_not.mp hact) ha rfl rfl rfl rfl rfl rfl rfl rfl
  · exact h.timeout (not_not.mp hact) ha rfl rfl rfl rfl rfl rfl rfl rfl

theorem fcWait {enableFc : Bool} (ha : 0 < s.threads .peeked) : Queueing (s.fcWait enableFc) := by
  rw [NnReqRun.fcWait]
  split_ifs
  · exact h.quiet_leave ha
  · exact h
  · exact h.quiet_move ha rfl (Nat.le_refl 0)

end Queueing

theorem queueing_step {e : NnEvent} (h : Queueing s) (he : (machine cfg).enabled s e) :
    Queueing ((machine cfg).step s e) := by
  obtain ⟨hpoint, hready⟩ := he
  change Queueing (s.step cfg e)
  cases e with
  | initDone => exact h.initDone (hpoint _ rfl)
  | subRefReq => exact h.subRefReq (hpoint _ rfl)
  | schedTimer c now => exact h.schedTimer (hpoint _ rfl)
  | addWorkQ c => exact h.addWorkQ (hpoint _ rfl)
  | peekMDReq => exact h.peekMDReq hready
  | fcPass => exact h.quiet_move (hpoint _ rfl) rfl (Nat.le_refl 0)
  | fcWait enableFc => exact h.fcWait (hpoint _ rfl)
  | sendMDReq => exact h.sendMDReq (hpoint _ rfl)
  | chSendDone => exact h.chSendDone (hpoint _ rfl)
  | chRmReqPool => exact h.chRmReqPool (hpoint _ rfl)
  | findReqPool => exact h.findReqPool
  | cancelTimer => exact h.cancelTimer (hpoint _ rfl) hready
  | timerFire => exact h.timerFire hready
  | toChkState => exact h.toChkState (hpoint _ rfl)
  | toRmWorkQ => exact h.toRmWorkQ (hpoint _ rfl)
  | connBack => exact h.connBack
  | rtCancelTimer => exact h.rtCancelTimer (hpoint _ rfl) hready
  | retryChkDone => exact h.retryChkDone (hpoint _ rfl)
  | giveUp a =>
    have hq : Queueing s.derefReq := ⟨h.fea, h.one, h.placed, h.queued, h.armed, h.unarmed⟩
    exact hq.quiet_leave (hpoint _ rfl)
  | endfn w =>
    have hq : Queueing { s with endCalls := s.endCalls + 1 } := ⟨h.fea, h.one, h.placed, h.queued, h.armed, h.unarmed⟩
    refine hq.quiet_move (hpoint _ rfl) rfl ?_
    cases w <;> exact Nat.le_refl _
  | endDerefReq w =>
    have hq : Queueing s.derefReq := ⟨h.fea, h.one, h.placed, h.queued, h.armed, h.unarmed⟩
    refine hq.quiet_move (hpoint _ rfl) rfl ?_
    cases w <;> exact Nat.le_refl _
  | freeReq w =>
    have hq : Queueing { s with freed := s.freed + 1 } := ⟨h.fea, h.one, h.placed, h.queued, h.armed, h.unarmed⟩
    exact hq.quiet_leave (hpoint _ rfl)

end NnReqRun
end DiscoClient
