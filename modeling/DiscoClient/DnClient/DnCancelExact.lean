import DiscoClient.DnClient.DnCancel

namespace DiscoClient
open ThreadPool

def DnPoint.stepsLeft : DnPoint → Nat
  | .subGranted => 4
  | .subRef => 3
  | .subStored | .peeked | .adding => 2
  | .subPooled | .subQueued | .peeking | .sending | .memAck | .finalAck | .ackFree | .retrying | .added => 1
  | .cancelAgain | .cancelRef | .cancelRm | .cancelFree => 0

namespace DnReqRun
variable {s t : DnReqRun} {e : DnEvent} {k : Int} {q : Bool}

/-- One thread waits to free the cancelled request; at least k references are lost, and with q it is queued.
-/
structure Draining (k : Int) (q : Bool) (t : DnReqRun) : Prop where
  stat : t.stat = .cancelReq
  again : t.threads .cancelAgain = 0
  cancelRef : t.threads .cancelRef = 0
  cancelRm : t.threads .cancelRm = 0
  cancelFree : t.threads .cancelFree = 1
  finalAck : t.threads .finalAck = 0
  ackFree : t.threads .ackFree = 0
  leaked : k ≤ t.leaked
  queued : q = true → t.inWorkQ = true

theorem Draining.progress (h : Draining k q t) (hpos : 0 < weight DnPoint.stepsLeft t.threads) :
    ∃ e, t.Enabled e ∧ Draining k q (t.step e) ∧
      weight DnPoint.stepsLeft (t.step e).threads < weight DnPoint.stepsLeft t.threads := by
  have hfinal : t.stat.isFinal = true := by rw [h.stat]; rfl
  have hleak {e : DnEvent} (he : t.Enabled e) : k ≤ (t.step e).leaked := by
    have := h.leaked
    rw [leaked_step he]
    omega
  obtain ⟨a, ha, hw⟩ := exists_of_weight_pos hpos
  have hat {e : DnEvent} (hpoint : e.point = some a) : ∀ b ∈ e.point, 0 < t.threads b := by
    intro b hb
    rw [hpoint] at hb
    cases hb
    exact ha
  cases a with
  | subPooled =>
    have hl := hleak (e := .initDone) (hat rfl)
    refine ⟨.initDone, hat rfl, ?_⟩
    rw [step_initDone_of_final hfinal] at hl ⊢
    exact ⟨{ h with leaked := hl }, weight_leave_lt ha hw⟩
  | subGranted => exact ⟨.subRefReq, hat rfl, { h with leaked := hleak (hat rfl) }, weight_move_lt ha (by decide)⟩
  | subRef => exact ⟨.storeReqID, hat rfl, { h with leaked := hleak (hat rfl) }, weight_move_lt ha (by decide)⟩
  | subStored =>
    refine ⟨.subAddWorkQ, hat rfl, { h with leaked := hleak (hat rfl), queued := fun hq => ?_ },
      weight_move_lt ha (by decide)⟩
    change (t.inWorkQ || !t.feaInWorkQ) = true
    rw [h.queued hq, Bool.true_or]
  | subQueued => exact ⟨.subDerefReq, hat rfl, { h with leaked := hleak (hat rfl) }, weight_leave_lt ha hw⟩
  | peeking =>
    have hl := hleak (e := .peekUpdateState) (hat rfl)
    refine ⟨.peekUpdateState, hat rfl, ?_⟩
    rw [step_peekUpdateState_of_final hfinal] at hl ⊢
    exact ⟨{ h with leaked := hl }, weight_leave_lt ha hw⟩
  | peeked =>
    have hl := hleak (e := .sendDone) (hat rfl)
    refine ⟨.sendDone, hat rfl, ?_⟩
    rw [step_sendDone_of_final hfinal] at hl ⊢
    cases hsend : t.comm.sendDnUdReq with
    | none =>
      rw [hsend] at hl
      exact ⟨{ h with leaked := hl }, weight_leave_lt ha hw⟩
    | some comm =>
      rw [hsend] at hl
      exact ⟨{ h with leaked := hl }, weight_move_lt ha (by decide)⟩
  | sending => exact ⟨.sendEnd, hat rfl, { h with leaked := hleak (hat rfl) }, weight_leave_lt ha hw⟩
  | memAck => exact ⟨.memAckEnd, hat rfl, { h with leaked := hleak (hat rfl) }, weight_leave_lt ha hw⟩
  | finalAck => exact absurd ha (by rw [h.finalAck]; decide)
  | ackFree => exact absurd ha (by rw [h.ackFree]; decide)
  | retrying =>
    have hl := hleak (e := .retryChkDone) (hat rfl)
    refine ⟨.retryChkDone, hat rfl, ?_⟩
    rw [step_retryChkDone_of_final hfinal] at hl ⊢
    exact ⟨{ h with leaked := hl }, weight_leave_lt ha hw⟩
  | adding =>
    refine ⟨.retryAddWorkQ, hat rfl, { h with leaked := hleak (hat rfl), queued := fun hq => ?_ },
      weight_move_lt ha (by decide)⟩
    change (t.inWorkQ || !t.feaInWorkQ) = true
    rw [h.queued hq, Bool.true_or]
  | added => exact ⟨.retryDerefReq, hat rfl, { h with leaked := hleak (hat rfl) }, weight_leave_lt ha hw⟩
  | cancelAgain | cancelRef | cancelRm | cancelFree => exact absurd hw (by decide)

theorem Draining.exists_drained (h : Draining k q t) :
    ∃ es, machine.Legal t es ∧ Draining k q (machine.exec t es) ∧
      ∀ a : DnPoint, a.ofCancel = false → (machine.exec t es).threads a = 0 := by
  obtain ⟨es, hlegal, hend, hzero⟩ := GuardedMachine.exists_legal_of_progress (m := machine) (I := Draining k q)
    (μ := fun t => weight DnPoint.stepsLeft t.threads) (fun t ht hpos => ht.progress hpos) t h
  refine ⟨es, hlegal, hend, fun a ha => Nat.eq_zero_of_not_pos fun hpos => ?_⟩
  have := weight_eq_zero_iff.mp hzero a hpos
  cases a <;> first | exact absurd this (by decide) | exact absurd ha (by decide)

theorem Draining.le_refCnt (h : Draining k q t) (hzero : ∀ a : DnPoint, a.ofCancel = false → t.threads a = 0) :
    k ≤ t.refCnt := by
  have hweight := weight_holdsRef_eq_zero hzero h.cancelRef
  have hleak := h.leaked
  rwa [DnReqRun.leaked, hweight, Int.natCast_zero, sub_zero] at hleak

theorem Cancels.leaked_le (hall : Cancels s) {es : List DnEvent} (hlegal : machine.Legal (s.step .cancel) es)
    (hd : Draining k q (machine.exec (s.step .cancel) es)) : k ≤ 0 := by
  obtain ⟨fs, hfs, hend, hzero⟩ := hd.exists_drained
  have hrun := hall (es ++ fs) ((machine.legal_append _ _ _).mpr ⟨hlegal, hfs⟩)
  rw [machine.exec_append] at hrun
  rw [← hrun.waits hzero (by rw [hend.cancelFree]; decide)]
  exact hend.le_refCnt hzero

theorem Cancels.not_queued (hall : Cancels s) {es : List DnEvent} (hlegal : machine.Legal (s.step .cancel) es)
    (hd : Draining k true (machine.exec (s.step .cancel) es)) : False := by
  obtain ⟨fs, hfs, hend, hzero⟩ := hd.exists_drained
  have hrun := hall (es ++ fs) ((machine.legal_append _ _ _).mpr ⟨hlegal, hfs⟩)
  have hpos : 0 < (machine.exec (machine.exec (s.step .cancel) es) fs).threads .cancelFree := by
    rw [hend.cancelFree]
    decide
  rw [machine.exec_append] at hrun
  have hfree : machine.Legal (s.step .cancel) ((es ++ fs) ++ [.cancelFreeReq]) := by
    rw [machine.legal_append, machine.legal_append, machine.exec_append]
    exact ⟨⟨hlegal, hfs⟩, ⟨hpos, hrun.waits hzero hpos⟩, trivial⟩
  have hlast := hall _ hfree
  rw [machine.exec_append, machine.exec_append] at hlast
  refine absurd (hlast.done fun a ha => ?_).2.1 ?_
  · cases a with
    | cancelAgain => exact hend.again
    | cancelRef => exact hend.cancelRef
    | cancelRm => exact hend.cancelRm
    | cancelFree =>
      change (machine.exec (machine.exec (s.step .cancel) es) fs).threads .cancelFree - 1 = 0
      rw [hend.cancelFree]
    | _ => cases ha
  · change ¬ (machine.exec (machine.exec (s.step .cancel) es) fs).inWorkQ = false
    rw [hend.queued rfl]
    decide

theorem Sound.draining (hs : Sound s) (he : s.Enabled .cancel) (hg : s.action .cancel = .doCancelReq) :
    machine.Legal (s.step .cancel) [.cancelDerefReq, .cancelRmWorkQ] ∧
      Draining s.leaked false (machine.exec (s.step .cancel) [.cancelDerefReq, .cancelRmWorkQ]) ∧
      (machine.exec (s.step .cancel) [.cancelDerefReq, .cancelRmWorkQ]).feaInWorkQ = false := by
  have hzero {a : DnPoint} (ha : a.willFree = 1) := (hs.threads_eq_zero he.1 ha).2
  have hstat := stat_of_granted hg
  have hcancel : (s.step .cancel).leaked = s.leaked := (leaked_step he).trans (add_zero _)
  have hagain : s.threads .cancelAgain = 0 := Nat.eq_zero_of_not_pos fun hpos => by
    rw [action, hs.placed.again hpos] at hg
    cases hg
  obtain ⟨t, ht⟩ : ∃ t, t = s.step .cancel := ⟨_, rfl⟩
  have hthreads : t.threads = ThreadPool.enter s.threads .cancelRef := by rw [ht, step_cancel_of_granted hg]; rfl
  have href : t.threads .cancelRef = 1 := by
    rw [hthreads]
    change s.threads .cancelRef + 1 = 1
    rw [hzero rfl]
  have hother {a : DnPoint} (ha : a ≠ .cancelRef) (hs : s.threads a = 0) : t.threads a = 0 := by
    rw [hthreads, ThreadPool.enter, Function.update_of_ne ha, hs]
  rw [← ht] at hstat hcancel ⊢
  have he₁ : t.Enabled .cancelDerefReq := fun _ hb => by cases hb; rw [href]; decide
  have he₂ : (t.step .cancelDerefReq).Enabled .cancelRmWorkQ := fun _ hb => by
    cases hb
    exact Nat.succ_pos _
  refine ⟨⟨he₁, he₂, trivial⟩, ?_, rfl⟩
  refine ⟨hstat, hother (by decide) hagain, ?_, ?_, ?_, hother (by decide) (hzero rfl), hother (by decide) (hzero rfl),
    ?_, fun h => absurd h Bool.false_ne_true⟩
  · change t.threads .cancelRef - 1 = 0
    rw [href]
  · change t.threads .cancelRm + 1 - 1 = 0
    rw [hother (by decide) (hzero rfl)]
  · change t.threads .cancelFree + 1 = 1
    rw [hother (by decide) (hzero rfl)]
  · change s.leaked ≤ ((t.step .cancelDerefReq).step .cancelRmWorkQ).leaked
    rw [leaked_step he₂, leaked_step he₁, hcancel]
    omega

theorem Cancels.queued (hall : Cancels s) (hs : Sound s) (he : s.Enabled .cancel)
    (hg : s.action .cancel = .doCancelReq) : s.threads .subStored = 0 ∧ s.threads .adding = 0 := by
  obtain ⟨hlegal, hd, hfea⟩ := hs.draining he hg
  obtain ⟨t, ht⟩ : ∃ t, t = machine.exec (s.step .cancel) [.cancelDerefReq, .cancelRmWorkQ] := ⟨_, rfl⟩
  have hpoint (a : DnPoint) (hsub : a = .subStored ∨ a = .adding) : t.threads a = s.threads a := by
    rw [ht, step_cancel_of_granted hg]
    rcases hsub with rfl | rfl <;> rfl
  have hadd {e : DnEvent} (hen : t.Enabled e) (hd' : Draining s.leaked true (t.step e)) : False := by
    have hlegal' : machine.Legal (s.step .cancel) ([.cancelDerefReq, .cancelRmWorkQ] ++ [e]) := by
      rw [machine.legal_append, ← ht]
      exact ⟨hlegal, hen, trivial⟩
    refine hall.not_queued (k := s.leaked) hlegal' ?_
    rw [machine.exec_append, ← ht]
    exact hd'
  rw [← ht] at hd hfea
  have hin : (t.inWorkQ || !t.feaInWorkQ) = true := by rw [hfea, Bool.not_false, Bool.or_true]
  have hleak {e : DnEvent} (hen : t.Enabled e) : s.leaked ≤ (t.step e).leaked := by
    have := hd.leaked
    rw [leaked_step hen]
    omega
  constructor
  · refine Nat.eq_zero_of_not_pos fun hpos => ?_
    have hen : t.Enabled .subAddWorkQ := fun _ hb => by cases hb; rwa [hpoint _ (.inl rfl)]
    exact hadd hen { hd with leaked := hleak hen, queued := fun _ => hin }
  · refine Nat.eq_zero_of_not_pos fun hpos => ?_
    have hen : t.Enabled .retryAddWorkQ := fun _ hb => by cases hb; rwa [hpoint _ (.inr rfl)]
    exact hadd hen { hd with leaked := hleak hen, queued := fun _ => hin }

theorem Cancels.sent (hall : Cancels s) (hs : Sound s) (he : s.Enabled .cancel)
    (hg : s.action .cancel = .doCancelReq) (hpos : 0 < s.threads .peeked) : s.comm.sendDnUdReq ≠ none := by
  intro hnone
  obtain ⟨hlegal, hd, -⟩ := hs.draining he hg
  obtain ⟨t, ht⟩ : ∃ t, t = machine.exec (s.step .cancel) [.cancelDerefReq, .cancelRmWorkQ] := ⟨_, rfl⟩
  have hpeeked : t.threads .peeked = s.threads .peeked := by rw [ht, step_cancel_of_granted hg]; rfl
  have hcomm : t.comm = s.comm := by rw [ht, step_cancel_of_granted hg]; rfl
  rw [← ht] at hd
  have hfinal : t.stat.isFinal = true := by rw [hd.stat]; rfl
  have hen : t.Enabled .sendDone := fun _ hb => by cases hb; rwa [hpeeked]
  have hleak : s.leaked + 1 ≤ (t.step .sendDone).leaked := by
    have := hd.leaked
    rw [leaked_step hen, dropsRef, hcomm, if_pos hnone]
    omega
  have hdrain : Draining (s.leaked + 1) false (t.step .sendDone) := by
    rw [step_sendDone_of_final hfinal, hcomm, hnone] at hleak ⊢
    exact { hd with leaked := hleak }
  have hle : s.leaked + 1 ≤ 0 := by
    have hlegal' : machine.Legal (s.step .cancel) ([.cancelDerefReq, .cancelRmWorkQ] ++ [.sendDone]) := by
      rw [machine.legal_append, ← ht]
      exact ⟨hlegal, hen, trivial⟩
    refine hall.leaked_le (q := false) hlegal' ?_
    rw [machine.exec_append, ← ht]
    exact hdrain
  have := hs.leaked
  omega

theorem ignored_cancel (hg : s.action .cancel ≠ .doCancelReq) :
    (s.step .cancel).action .cancel = .noAction ∧ (s.step .cancel).inReqPool = s.inReqPool ∧
      ∀ a : DnPoint, a ≠ .cancelAgain → (s.step .cancel).threads a = s.threads a := by
  have hnext : (dnReqUpdateState (dnReqUpdateState s.stat .cancel).1 .cancel).2 = .noAction := by
    cases s.stat <;> rfl
  rw [step, cancelReq]
  split
  · exact absurd ‹_› hg
  · exact ⟨hnext, rfl, fun a ha => Function.update_of_ne ha _ _⟩
  · exact ⟨hnext, rfl, fun _ _ => rfl⟩

structure Ignoring (t : DnReqRun) : Prop where
  action : t.action .cancel = .noAction
  pool : t.inReqPool = true
  cancelRef : t.threads .cancelRef = 0
  cancelRm : t.threads .cancelRm = 0
  cancelFree : t.threads .cancelFree = 0

theorem Ignoring.cancelAgain (h : Ignoring t) :
    Ignoring (t.step .cancelAgain) ∧ (t.step .cancelAgain).threads .cancelAgain = t.threads .cancelAgain - 1 := by
  have hno : (t.leave .cancelAgain).action .cancel = .noAction := h.action
  have hstep : t.step .cancelAgain = (t.leave .cancelAgain).updateState .cancel := by
    rw [step, DnReqRun.cancelAgain, if_pos h.pool, cancelReq, hno]
  have hnext : (dnReqUpdateState (dnReqUpdateState t.stat .cancel).1 .cancel).2 = .noAction := by
    cases t.stat <;> rfl
  rw [hstep]
  exact ⟨⟨hnext, h.pool, h.cancelRef, h.cancelRm, h.cancelFree⟩, rfl⟩

theorem Cancels.granted (hall : Cancels s) (hs : Sound s) (he : s.Enabled .cancel) :
    s.action .cancel = .doCancelReq := by
  by_contra hg
  obtain ⟨hact, hpool, hsame⟩ := ignored_cancel hg
  have hfree {a : DnPoint} (hne : a ≠ .cancelAgain) (ha : a.willFree = 1) : (s.step .cancel).threads a = 0 :=
    (hsame a hne).trans (hs.threads_eq_zero he.1 ha).2
  have hprogress (t : DnReqRun) (ht : Ignoring t) (hpos : 0 < t.threads .cancelAgain) :
      ∃ e, machine.enabled t e ∧ Ignoring (machine.step t e) ∧
        (machine.step t e).threads .cancelAgain < t.threads .cancelAgain := by
    obtain ⟨hnext, hless⟩ := ht.cancelAgain
    refine ⟨.cancelAgain, fun _ hb => by cases hb; exact hpos, hnext, ?_⟩
    exact hless.trans_lt (Nat.sub_lt hpos Nat.one_pos)
  obtain ⟨es, hlegal, hend, hzero⟩ := GuardedMachine.exists_legal_of_progress hprogress (s.step .cancel)
    ⟨hact, hpool.trans he.1, hfree (by decide) rfl, hfree (by decide) rfl, hfree (by decide) rfl⟩
  refine absurd ((hall es hlegal).done fun a ha => ?_).1 (by rw [hend.pool]; decide)
  cases a with
  | cancelAgain => exact hzero
  | cancelRef => exact hend.cancelRef
  | cancelRm => exact hend.cancelRm
  | cancelFree => exact hend.cancelFree
  | _ => cases ha

/-- In every state that can be reached, cancelling the request ends with it out of the pool, out of
the worker queue and freed once, whatever the other threads do, exactly in the cancelable states. -/
theorem cancel_complete_iff (comm : DnReqComm) {es : List DnEvent} (h : machine.Legal (init comm) es)
    (he : machine.enabled (machine.exec (init comm) es) .cancel) :
    Cancels (machine.exec (init comm) es) ↔ Cancelable (machine.exec (init comm) es) := by
  have hs := sound_exec comm h
  refine ⟨fun hall => ?_, fun hc => hc.cancels hs he⟩
  have hg := hall.granted hs he
  obtain ⟨hlegal, hd, -⟩ := hs.draining he hg
  obtain ⟨hstored, hadding⟩ := hall.queued hs he hg
  refine ⟨hg, hstored, hadding, ?_, hall.sent hs he hg⟩
  have hle := hall.leaked_le hlegal hd
  exact sub_eq_zero.mp (le_antisymm hle hs.leaked)

/-- A request that waits for its response is cancelled for good. -/
theorem cancel_complete_waitResp :
    let es : List DnEvent := [.initDone, .subRefReq, .storeReqID, .subAddWorkQ, .subDerefReq, .peekWorkQ,
      .peekUpdateState, .sendDone, .sendEnd]
    machine.Legal (init ⟨.read, true, true⟩) es ∧ (machine.exec (init ⟨.read, true, true⟩) es).stat = .waitResp ∧
      Cancels (machine.exec (init ⟨.read, true, true⟩) es) := by
  have hlegal : machine.Legal (init ⟨.read, true, true⟩) [.initDone, .subRefReq, .storeReqID, .subAddWorkQ,
      .subDerefReq, .peekWorkQ, .peekUpdateState, .sendDone, .sendEnd] := by decide
  refine ⟨hlegal, rfl, (cancel_complete_iff ⟨.read, true, true⟩ hlegal (by decide)).mpr ?_⟩
  exact ⟨rfl, rfl, rfl, by decide +kernel, fun h => absurd h (by decide)⟩

/-- A request that is being retried when it is cancelled stays in the pool for ever; one that is
cancelled before it is queued is freed while it is in the worker queue. -/
theorem cancel_leaves_request :
    (let es : List DnEvent := [.initDone, .subRefReq, .storeReqID, .subAddWorkQ, .subDerefReq, .peekWorkQ,
        .peekUpdateState, .sendDone, .sendEnd, .connBack]
      let s := machine.exec (init ⟨.read, true, true⟩) es
      let t := machine.exec s [.cancel, .cancelAgain, .retryChkDone]
      machine.Legal (init ⟨.read, true, true⟩) es ∧ machine.Legal s [.cancel, .cancelAgain, .retryChkDone] ∧
        (∀ a, t.threads a = 0) ∧ t.inReqPool = true ∧ t.freed = 0 ∧ ¬ Cancels s) ∧
    (let es : List DnEvent := [.initDone, .subRefReq, .storeReqID]
      let fs : List DnEvent := [.cancel, .cancelDerefReq, .cancelRmWorkQ, .subAddWorkQ, .subDerefReq, .cancelFreeReq]
      let s := machine.exec (init ⟨.read, true, true⟩) es
      let t := machine.exec s fs
      machine.Legal (init ⟨.read, true, true⟩) es ∧ machine.Legal s fs ∧
        (∀ a, t.threads a = 0) ∧ t.inWorkQ = true ∧ t.freed = 1 ∧ ¬ Cancels s) := by
  refine ⟨⟨by decide, by decide, by decide, rfl, rfl, fun hall => ?_⟩,
    ⟨by decide, by decide, by decide, rfl, rfl, fun hall => ?_⟩⟩
  · have hdone := (hall [.cancelAgain, .retryChkDone] (by decide)).done (by decide)
    exact absurd hdone.1 (by decide)
  · have hdone := (hall [.cancelDerefReq, .cancelRmWorkQ, .subAddWorkQ, .subDerefReq, .cancelFreeReq]
      (by decide)).done (by decide)
    exact absurd hdone.2.1 (by decide)

end DnReqRun
end DiscoClient
