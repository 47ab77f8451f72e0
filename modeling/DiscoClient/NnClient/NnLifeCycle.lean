import DiscoClient.NnClient.NnEnding

namespace DiscoClient
open ThreadPool

namespace NnReqRun
variable {s t : NnReqRun} {cfg : NnTimeConfig}

namespace Ending

theorem finish (h : Ending s) (hs : s.phase.isFinal = false) (hfinal : t.phase.isFinal = true)
    (hin : t.inReqPool = (s.inReqPool && !s.feaInReqPool)) (hplock : t.plock = false) (hcalls : t.endCalls = s.endCalls)
    (hends : weight NnPoint.ends t.threads ≤ weight NnPoint.ends s.threads + 1)
    (hwill : weight NnPoint.willCall t.threads ≤ weight NnPoint.willCall s.threads + 1)
    (hdrained : t.phase = .timeoutFire → 0 < t.threads .toRm) : Ending t := by
  have hends' := h.ends
  have hcalls' := h.calls
  rw [hs, Bool.toNat_false] at hends' hcalls'
  refine ⟨?_, ?_, fun hnot => ?_, fun _ => ?_, fun hp hrm => ?_, hplock⟩
  · rw [hfinal, Bool.toNat_true]
    omega
  · rw [hfinal, Bool.toNat_true]
    omega
  · rw [hfinal] at hnot
    cases hnot
  · rw [hin, (h.pooled hs).1, Bool.not_true, Bool.and_false]
  · exact absurd hrm (Nat.ne_of_gt (hdrained hp))

theorem chRmReqPool (h : Ending s) (ha : 0 < s.threads .chSent) : Ending s.chRmReqPool := by
  rw [NnReqRun.chRmReqPool]
  split_ifs with hact hfea
  · rw [refused hact]
    exact h.calm (calm_pass_only ha rfl rfl (Nat.le_refl 0))
  all_goals
    obtain ⟨hsrc, htgt⟩ := granted (not_not.mp hact)
    have hs := NnReqEvent.sources_not_final hsrc
  · exact absurd ((h.pooled hs).1.symm.trans hfea) (by decide)
  · refine h.finish hs (congrArg NnReqState.isFinal htgt) rfl h.plock rfl ?_ ?_ fun hp => ?_
    · exact Nat.le_of_eq (weight_move NnPoint.ends .cancelling ha)
    · exact Nat.le_of_eq (weight_move NnPoint.willCall .cancelling ha)
    · exact absurd (htgt.symm.trans hp) (by decide)

theorem findReqPool (h : Ending s) : Ending s.findReqPool := by
  rw [NnReqRun.findReqPool]
  split_ifs with hact hfea
  · rw [refused hact]
    exact h
  all_goals
    obtain ⟨hsrc, htgt⟩ := granted (not_not.mp hact)
    have hs := NnReqEvent.sources_not_final hsrc
  · exact absurd ((h.pooled hs).1.symm.trans hfea) (by decide)
  · refine h.finish hs (congrArg NnReqState.isFinal htgt) rfl h.plock rfl ?_ ?_ fun hp => ?_
    · exact Nat.le_of_eq (weight_enter NnPoint.ends _ .cancelling)
    · exact Nat.le_of_eq (weight_enter NnPoint.willCall _ .cancelling)
    · exact absurd (htgt.symm.trans hp) (by decide)

theorem relPlock {lockID : Int} (hown : lockID = s.bucket) (h : Ending { s with plock := false }) :
    Ending (s.relPlock lockID) := by
  rw [NnReqRun.relPlock, if_pos hown]
  exact h

theorem toChkState (h : Ending s) (ha : 0 < s.threads .toRef) (hid : s.reqID.toNat < nnReqHbucketSize) :
    Ending s.toChkState := by
  have hown : i32 s.reqID.toNat = s.bucket := by
    rw [i32, bucket, Nat.mod_eq_of_lt hid]
    rw [nnReqHbucketSize] at hid
    omega
  rw [NnReqRun.toChkState]
  split_ifs with hact hfea
  · refine relPlock hown (h.calm (calm_pass ha rfl ?_ ?_ rfl rfl (Nat.le_refl _)))
    · rw [pool, pool, h.plock]
      rfl
    · have hsame : s.acquirePlock.updateState .timeoutFire = s.acquirePlock := refused (s := s.acquirePlock) hact
      rw [hsame]
      exact ⟨rfl, id⟩
  all_goals
    obtain ⟨hsrc, htgt⟩ := granted (not_not.mp hact)
    have hs := NnReqEvent.sources_not_final hsrc
  · exact absurd ((h.pooled hs).1.symm.trans hfea) (by decide)
  · refine relPlock hown (h.finish hs (congrArg NnReqState.isFinal htgt) rfl rfl rfl ?_ ?_ fun _ => ?_)
    · exact Nat.le_of_eq (weight_move NnPoint.ends .toRm ha)
    · exact Nat.le_of_eq (weight_move NnPoint.willCall .toRm ha)
    · exact enter_pos (ThreadPool.leave s.threads .toRef) .toRm

theorem toRmWorkQ (h : Ending s) (hq : Queueing s) (ha : 0 < s.threads .toRm)
    (hadd : s.threads (.add .submit) = 0 ∧ s.threads (.add .retry) = 0) : Ending (s.step cfg .toRmWorkQ) := by
  obtain ⟨t, ht⟩ : ∃ t, t = s.step cfg .toRmWorkQ := ⟨_, rfl⟩
  have hthreads : t.threads = ThreadPool.move s.threads .toRm (.calling .timer) := by rw [ht]; rfl
  have hphase : t.phase = s.phase := by rw [ht]; rfl
  have hin : t.inWorkQ = false := by
    rw [ht]
    change (s.inWorkQ && !s.feaInWorkQ) = false
    rw [hq.fea]
    exact Bool.and_not_self _
  have hends := weight_move NnPoint.ends (.calling .timer) ha
  have hwill := weight_move NnPoint.willCall (.calling .timer) ha
  rw [← hthreads] at hends hwill
  rw [← ht]
  refine ⟨?_, ?_, ?_, ?_, fun hp _ => ?_, ?_⟩
  · rw [hphase]
    exact (Nat.le_of_eq (Nat.add_right_cancel hends)).trans h.ends
  · have hcalls : t.endCalls = s.endCalls := by rw [ht]; rfl
    rw [hphase, hcalls, Nat.add_right_cancel hwill]
    exact h.calls
  · rw [hphase, ht]
    exact h.pooled
  · rw [hphase, ht]
    exact h.left
  · -- whoever has still to queue a request that has timed out has scheduled the timer
    have hnone : weight NnPoint.queues t.threads = 0 := by
      refine weight_eq_zero_iff.mpr fun a hpos => ?_
      rw [hthreads] at hpos
      rcases Nat.lt_or_ge 0 a.queues with hqa | hqa
      · have hpos' : 0 < s.threads a := hpos.trans_le (move_le _ _ fun heq => by rw [heq] at hqa; cases hqa)
        have hplaced := hq.placed a hpos'
        rw [← hphase, hp] at hplaced
        cases a with
        | add c =>
          cases c with
          | submit => exact absurd hadd.1 (Nat.ne_of_gt hpos')
          | retry => exact absurd hadd.2 (Nat.ne_of_gt hpos')
        | _ => first | rfl | cases hplaced
      · exact Nat.le_zero.mp hqa
    rw [load, hnone, hin]
    rfl
  · rw [ht]
    exact h.plock

theorem endfn (h : Ending s) {w : NnEnder} (ha : 0 < s.threads (.calling w)) : Ending (s.step cfg (.endfn w)) := by
  obtain ⟨t, ht⟩ : ∃ t, t = s.step cfg (.endfn w) := ⟨_, rfl⟩
  have hthreads : t.threads = ThreadPool.move s.threads (.calling w) (.ended w) := by rw [ht]; rfl
  have hphase : t.phase = s.phase := by rw [ht]; rfl
  have hends := weight_move NnPoint.ends (.ended w) ha
  have hwill := weight_move NnPoint.willCall (.ended w) ha
  have hqueues := weight_move NnPoint.queues (.ended w) ha
  rw [← hthreads] at hends hwill hqueues
  rw [← ht]
  refine ⟨?_, ?_, ?_, ?_, fun hp hrm => ?_, ?_⟩
  · rw [hphase]
    exact (Nat.le_of_eq (Nat.add_right_cancel hends)).trans h.ends
  · have hcalls : t.endCalls = s.endCalls + 1 := by rw [ht]; rfl
    have := h.calls
    simp only [NnPoint.willCall] at hwill
    rw [hphase, hcalls]
    omega
  · rw [hphase, ht]
    exact h.pooled
  · rw [hphase, ht]
    exact h.left
  · have hin : t.inWorkQ = s.inWorkQ := by rw [ht]; rfl
    have hrm' : s.threads .toRm = 0 := by
      rw [hthreads, move_of_ne _ (by simp) (by simp)] at hrm
      exact hrm
    have hzero := h.drained (hphase.symm.trans hp) hrm'
    rw [load] at hzero ⊢
    rw [hin, Nat.add_right_cancel hqueues]
    exact hzero
  · rw [ht]
    exact h.plock

theorem init (acquire cacheHit : Bool) (reqID : UInt32) (tDur : Int) :
    Ending (NnReqRun.init acquire cacheHit reqID tDur) := by
  have hfinal : (NnReqRun.init acquire cacheHit reqID tDur).phase = .init := by cases acquire <;> rfl
  have hweight {w : NnPoint → Nat} (hw : w .subInit = 0) :
      weight w (NnReqRun.init acquire cacheHit reqID tDur).threads = 0 := by
    change weight w (ThreadPool.enter (fun _ => 0) .subInit) = 0
    rw [weight_enter, weight_zero, hw]
  refine ⟨?_, ?_, fun _ => ⟨rfl, rfl⟩, fun h => ?_, fun h => ?_, rfl⟩
  · exact (hweight rfl).trans_le (Nat.zero_le _)
  · rw [hweight rfl]
    exact Nat.zero_le _
  · rw [hfinal] at h
    cases h
  · rw [hfinal] at h
    cases h

theorem freed (h : Ending s) (hq : Queueing s) {w : NnEnder} (ha : 0 < s.threads (.freeing w)) :
    s.inReqPool = false ∧ s.inWorkQ = false ∧ s.plock = false := by
  have hone : 1 ≤ s.phase.isFinal.toNat := (le_weight NnPoint.ends ha).trans h.ends
  have hfinal : s.phase.isFinal = true := Bool.toNat_eq_one.mp (Nat.le_antisymm (Bool.toNat_le _) hone)
  refine ⟨h.left hfinal, ?_, h.plock⟩
  cases hp : s.phase with
  | processResp => exact (hq.idle (.inr (.inr hp))).1
  | timeoutFire =>
    have hrm : s.threads .toRm = 0 :=
      eq_zero_of_weight_le_one (h.ends.trans (Bool.toNat_le _)) ha rfl rfl (by simp)
    have hzero := h.drained hp hrm
    rw [load] at hzero
    exact Bool.toNat_eq_zero.mp (Nat.eq_zero_of_add_eq_zero hzero).2
  | init | waitSend | sending | waitResp | retryReq =>
    rw [hp] at hfinal
    cases hfinal

end Ending

theorem ending_step {e : NnEvent} (h : Ending s) (hq : Queueing s) (he : (machine cfg).enabled s e)
    (hin : InTime cfg s e) : Ending ((machine cfg).step s e) := by
  obtain ⟨hpoint, hready⟩ := he
  change Ending (s.step cfg e)
  cases e with
  | initDone => exact h.calm (calm_initDone (hpoint _ rfl))
  | subRefReq =>
    exact h.calm (calm_pass (hpoint _ rfl) rfl rfl ⟨rfl, id⟩ rfl rfl (Nat.le_refl _))
  | schedTimer c now => exact h.calm (calm_schedTimer (hpoint _ rfl) hin)
  | addWorkQ c => exact h.calm (calm_addWorkQ (hpoint _ rfl) hq)
  | peekMDReq => exact h.calm (calm_peekMDReq hready)
  | fcPass =>
    exact h.calm (calm_pass_only (hpoint _ rfl) rfl rfl (Nat.le_refl 0))
  | fcWait enableFc => exact h.calm (calm_fcWait (hpoint _ rfl))
  | sendMDReq =>
    exact h.calm (calm_pass (hpoint _ rfl) rfl rfl (updateState_calm s rfl) rfl rfl (Nat.le_refl _))
  | chSendDone => exact h.calm (calm_chSendDone (hpoint _ rfl))
  | chRmReqPool => exact h.chRmReqPool (hpoint _ rfl)
  | findReqPool => exact h.findReqPool
  | cancelTimer =>
    exact h.calm (calm_move (hpoint _ rfl) rfl rfl ⟨rfl, id⟩ (Nat.le_refl 1) (Nat.le_refl 1) (by simp) (by simp)
      (Nat.le_refl _))
  | timerFire =>
    refine h.calm (calm_enter rfl rfl ⟨rfl, id⟩ ?_ fun _ => ?_)
    · split_ifs <;> rfl
    · split_ifs <;> exact Nat.le_refl _
  | toChkState => exact h.toChkState (hpoint _ rfl) hin
  | toRmWorkQ => exact h.toRmWorkQ hq (hpoint _ rfl) hin
  | connBack => exact h.calm calm_connBack
  | rtCancelTimer =>
    exact h.calm (calm_pass (hpoint _ rfl) rfl rfl ⟨rfl, id⟩ rfl rfl (Nat.le_refl _))
  | retryChkDone => exact h.calm (calm_retryChkDone (hpoint _ rfl))
  | giveUp a =>
    refine h.calm (calm_leave (hpoint _ rfl) rfl rfl ⟨rfl, id⟩ ?_ rfl)
    rintro rfl
    cases hready
  | endfn w => exact h.endfn (hpoint _ rfl)
  | endDerefReq w =>
    exact h.calm (calm_move (hpoint _ rfl) rfl rfl ⟨rfl, id⟩ (Nat.le_refl 1) (Nat.le_refl 0) (by simp) (by simp)
      (Nat.le_refl _))
  | freeReq w => exact h.calm (calm_leave (hpoint _ rfl) rfl rfl ⟨rfl, id⟩ (by simp) rfl)

theorem ending_exec {acquire cacheHit : Bool} {reqID : UInt32} {tDur : Int} {es : List NnEvent}
    (h : ((machine cfg).restrict (InTime cfg)).Legal (init acquire cacheHit reqID tDur) es) :
    Ending ((machine cfg).exec (init acquire cacheHit reqID tDur) es) ∧
      Queueing ((machine cfg).exec (init acquire cacheHit reqID tDur) es) :=
  GuardedMachine.exec_invariant (m := (machine cfg).restrict (InTime cfg)) (I := fun s => Ending s ∧ Queueing s)
    ⟨.init acquire cacheHit reqID tDur, queueing_init acquire cacheHit reqID tDur⟩
    (fun _ _ hs he => ⟨ending_step hs.1 hs.2 he.1 he.2, queueing_step hs.2 he.1⟩) h

/-- In time, the end function of a request is called at most once, and when the request is freed it is
in neither the pool nor a worker queue, and the lock of its bucket is free. -/
theorem request_ends_once (cfg : NnTimeConfig) (acquire cacheHit : Bool) (reqID : UInt32) (tDur : Int)
    {es : List NnEvent} (h : ((machine cfg).restrict (InTime cfg)).Legal (init acquire cacheHit reqID tDur) es) :
    ((machine cfg).exec (init acquire cacheHit reqID tDur) es).endCalls ≤ 1 ∧
      ∀ (before after : List NnEvent) (w : NnEnder), es = before ++ .freeReq w :: after →
        let s := (machine cfg).exec (init acquire cacheHit reqID tDur) before
        s.inReqPool = false ∧ s.inWorkQ = false ∧ s.plock = false := by
  refine ⟨?_, fun before after w hsplit => ?_⟩
  · have hcalls := (ending_exec h).1.calls
    have := Bool.toNat_le ((machine cfg).exec (init acquire cacheHit reqID tDur) es).phase.isFinal
    omega
  · rw [hsplit, GuardedMachine.legal_append] at h
    obtain ⟨hlegal, ⟨⟨hpoint, -⟩, -⟩, -⟩ := h
    obtain ⟨hend, hq⟩ := ending_exec hlegal
    exact hend.freed hq (hpoint _ rfl)

/-- A request that is sent and answered. -/
theorem answered_request_ends_once :
    let es := submission ++ [.peekMDReq, .fcPass, .sendMDReq, .giveUp .sent, .findReqPool, .cancelTimer, .endfn .ack,
      .endDerefReq .ack, .freeReq .ack]
    ((machine centiseconds).restrict (InTime centiseconds)).Legal (init true false 7 10) es ∧
      ((machine centiseconds).exec (init true false 7 10) es).endCalls ≤ 1 := by
  have hlegal : ((machine centiseconds).restrict (InTime centiseconds)).Legal (init true false 7 10) (submission ++
      [.peekMDReq, .fcPass, .sendMDReq, .giveUp .sent, .findReqPool, .cancelTimer, .endfn .ack, .endDerefReq .ack,
        .freeReq .ack]) := by decide +kernel
  exact ⟨hlegal, (request_ends_once centiseconds true false 7 10 hlegal).1⟩

/-- A late retry frees the request in the pool; the timer function does not release the lock of a request
whose ID is no bucket; and it frees a request that is queued after it has looked into the worker queue. -/
theorem request_freed_in_use :
    (let m := machine centiseconds
      let es := submission ++ [.peekMDReq, .fcPass, .sendMDReq, .giveUp .sent, .connBack, .rtCancelTimer, .retryChkDone,
        .schedTimer .retry 951, .endfn .retry, .endDerefReq .retry]
      m.Legal (init true false 7 10) (es ++ [.freeReq .retry]) ∧
        (m.exec (init true false 7 10) es).inReqPool = true) ∧
    (let m := machine centiseconds
      let es := submission ++ [.timerFire, .toChkState, .toRmWorkQ, .endfn .timer, .endDerefReq .timer]
      m.Legal (init true false 4001 10) (es ++ [.freeReq .timer]) ∧
        (m.exec (init true false 4001 10) es).plock = true) ∧
    (let m := machine centiseconds
      let es : List NnEvent := [.initDone, .subRefReq, .schedTimer .submit 1, .timerFire, .toChkState, .toRmWorkQ,
        .addWorkQ .submit, .giveUp (.done .submit), .endfn .timer, .endDerefReq .timer]
      m.Legal (init true false 7 10) (es ++ [.freeReq .timer]) ∧
        (m.exec (init true false 7 10) es).inWorkQ = true) := by
  refine ⟨⟨?_, ?_⟩, ⟨?_, ?_⟩, ⟨?_, ?_⟩⟩ <;> decide +kernel

end NnReqRun
end DiscoClient
