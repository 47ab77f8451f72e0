import DiscoClient.NnClient.NnArrivals

namespace DiscoClient
open ThreadPool

def NnPoint.rank : NnPoint → Nat
  | .subInit | .subReady | .freeing _ => 0
  | .done _ | .peekFail | .sent | .chFail | .toFail | .reportRef | .ended _ => 1
  | .add _ | .fcDone | .calling _ => 2
  | .sched _ | .peeked | .cancelling | .toRm => 3
  | .rtChk | .chSent | .toRef => 4
  | .rtCancel | .chPeeked => 5

theorem NnPoint.holdsRef_of_rank {a : NnPoint} (h : a.rank = 0) : a.holdsRef = 0 := by
  cases a <;> first | rfl | cases h

namespace NnReqRun
variable {s : NnReqRun} {e : NnEvent} {cfg : NnTimeConfig} {a : NnPoint}

/-- Flow control only holds back a worker of an acquire request that is still SENDING, and a timer only
fires for a request whose ID is a bucket of the pool. -/
def Unhindered (s : NnReqRun) : NnEvent → Prop
  | .fcWait _ => s.fsm.stNnReq = .sending
  | .timerFire => s.acquire = true → s.reqID.toNat < nnReqHbucketSize
  | _ => True

instance (s : NnReqRun) : (e : NnEvent) → Decidable (s.Unhindered e)
  | .fcWait _ => inferInstanceAs (Decidable (s.fsm.stNnReq = .sending))
  | .timerFire =>
    have : Decidable (s.reqID.toNat < nnReqHbucketSize) := Nat.decLt _ _
    inferInstanceAs (Decidable (s.acquire = true → s.reqID.toNat < nnReqHbucketSize))
  | .initDone | .subRefReq | .schedTimer _ _ | .addWorkQ _ | .peekMDReq | .fcPass | .sendMDReq | .chSendDone
  | .chRmReqPool | .findReqPool | .cancelTimer | .toChkState | .toRmWorkQ | .connBack | .rtCancelTimer
  | .retryChkDone | .giveUp _ | .endfn _ | .endDerefReq _ | .freeReq _ => isTrue trivial

theorem plock_toChkState (hid : s.reqID.toNat < nnReqHbucketSize) : s.toChkState.plock = false := by
  have hown (t : NnReqRun) (ht : t.reqID = s.reqID) : (t.relPlock (i32 s.reqID.toNat)).plock = false := by
    rw [relPlock, if_pos]
    rw [i32, bucket, ht, Nat.mod_eq_of_lt hid]
    rw [nnReqHbucketSize] at hid
    omega
  rw [NnReqRun.toChkState]
  refine hown _ ?_
  split_ifs <;> rfl

structure Workable (s : NnReqRun) : Prop where
  queueing : Queueing s
  endsPlaced : EndsPlaced s
  leaked : s.leaked = 0
  plock : s.plock = false
  timer : 0 < s.threads .toRef → s.reqID.toNat < nnReqHbucketSize

theorem Workable.retry_granted (h : Workable s) (ha : 0 < s.threads .rtChk) : s.action .retryChkDone = .doAddWorkQ := by
  have hphase : s.phase = .retryReq := of_decide_eq_true (h.queueing.placed .rtChk ha)
  exact granted_of_source (e := .retryChkDone) (List.mem_singleton.mpr hphase) (by simp)

theorem Workable.dropsRef_eq (h : Workable s) (he : (machine cfg).enabled s e) (hu : s.Unhindered e) :
    s.dropsRef e = 0 := by
  cases e with
  | fcWait enableFc => exact if_neg (not_not.mpr hu)
  | retryChkDone => exact if_neg (not_not.mpr (h.retry_granted (he.1 _ rfl)))
  | _ => rfl

theorem workable_step (h : Workable s) (he : (machine cfg).enabled s e) (hu : s.Unhindered e) :
    Workable ((machine cfg).step s e) where
  queueing := queueing_step h.queueing he
  endsPlaced := endsPlaced_step h.endsPlaced he
  leaked := by
    have hstep := leaked_step he
    rw [h.leaked, h.dropsRef_eq he hu] at hstep
    exact hstep
  plock := by
    by_cases hchk : e = .toChkState
    · rw [hchk] at he ⊢
      change (s.step cfg .toChkState).plock = false
      rw [step]
      exact plock_toChkState (h.timer (he.1 _ rfl))
    · exact ((effect_step s e).plock hchk).trans h.plock
  timer := by
    intro hpos
    change (s.step cfg e).reqID.toNat < _
    rw [(effect_step s e).reqID]
    by_cases hfire : e = .timerFire
    · rw [hfire] at hu hpos
      cases hacq : s.acquire with
      | true => exact hu hacq
      | false =>
        refine h.timer ?_
        change 0 < ThreadPool.enter s.threads (if s.acquire then .toRef else .reportRef) .toRef at hpos
        rw [hacq, enter_of_ne _ (by simp)] at hpos
        exact hpos
    · refine h.timer (hpos.trans_le (threads_step_le ?_))
      cases e <;> first | simp [NnEvent.arrives]; done | exact absurd rfl hfire

def Advances (cfg : NnTimeConfig) (s : NnReqRun) (e : NnEvent) : Prop :=
  (machine cfg).enabled s e ∧ e.point.isSome = true ∧ s.Unhindered e ∧
    weight NnPoint.rank (s.step cfg e).threads < weight NnPoint.rank s.threads

theorem advances_of_move (ha : 0 < s.threads a) (hp : e.point = some a) (hready : s.Ready e) (hu : s.Unhindered e)
    (ht : ∃ b : NnPoint, (s.step cfg e).threads = ThreadPool.move s.threads a b ∧ b.rank < a.rank) : Advances cfg s e := by
  obtain ⟨b, ht, hr⟩ := ht
  refine ⟨⟨fun i hi => ?_, hready⟩, hp ▸ rfl, hu, ht ▸ weight_move_lt ha hr⟩
  rw [hp] at hi
  cases hi
  exact ha

theorem advances_giveUp (ha : 0 < s.threads a) (hlast : a.isLast = true) : Advances cfg s (.giveUp a) := by
  refine ⟨⟨fun i hi => ?_, hlast⟩, rfl, trivial, weight_leave_lt ha ?_⟩
  · cases hi
    exact ha
  · cases a <;> first | exact Nat.one_pos | cases hlast

theorem Workable.advance (h : Workable s) (ha : 0 < s.threads a) (hr : 0 < a.rank) (hcan : a ≠ .cancelling)
    (hret : a ≠ .rtCancel) : ∃ e, Advances cfg s e := by
  cases a with
  | subInit | subReady | freeing => cases hr
  | cancelling => exact absurd rfl hcan
  | rtCancel => exact absurd rfl hret
  | done | peekFail | sent | chFail | toFail | reportRef => exact ⟨_, advances_giveUp ha rfl⟩
  | sched c =>
    refine ⟨.schedTimer c 0, advances_of_move ha rfl trivial trivial ?_⟩
    rw [step, NnReqRun.schedTimer]
    split_ifs
    · cases c <;> exact ⟨_, rfl, by decide⟩
    · exact ⟨_, rfl, Nat.le_of_ble_eq_true rfl⟩
    · exact ⟨_, rfl, Nat.le_of_ble_eq_true rfl⟩
  | add c =>
    refine ⟨.addWorkQ c, advances_of_move ha rfl trivial trivial ?_⟩
    rw [step, NnReqRun.addWorkQ]
    split_ifs <;> exact ⟨_, rfl, Nat.lt_succ_self 1⟩
  | peeked => exact ⟨.fcPass, advances_of_move ha rfl trivial trivial ⟨_, rfl, by decide⟩⟩
  | fcDone => exact ⟨.sendMDReq, advances_of_move ha rfl trivial trivial ⟨_, rfl, by decide⟩⟩
  | chPeeked =>
    refine ⟨.chSendDone, advances_of_move ha rfl trivial trivial ?_⟩
    rw [step, NnReqRun.chSendDone]
    split_ifs <;> exact ⟨_, rfl, by decide⟩
  | chSent =>
    refine ⟨.chRmReqPool, advances_of_move ha rfl h.plock trivial ?_⟩
    rw [step, NnReqRun.chRmReqPool]
    split_ifs <;> exact ⟨_, rfl, by decide⟩
  | toRef =>
    refine ⟨.toChkState, advances_of_move ha rfl h.plock trivial ?_⟩
    rw [step, NnReqRun.toChkState, NnReqRun.relPlock]
    split_ifs <;> exact ⟨_, rfl, by decide⟩
  | toRm => exact ⟨.toRmWorkQ, advances_of_move ha rfl trivial trivial ⟨_, rfl, by decide⟩⟩
  | rtChk =>
    refine ⟨.retryChkDone, advances_of_move ha rfl trivial trivial ?_⟩
    rw [step, NnReqRun.retryChkDone, if_neg (not_not.mpr (h.retry_granted ha))]
    exact ⟨_, rfl, by decide⟩
  | calling w => exact ⟨.endfn w, advances_of_move ha rfl trivial trivial ⟨_, rfl, Nat.lt_succ_self 1⟩⟩
  | ended w => exact ⟨.endDerefReq w, advances_of_move ha rfl trivial trivial ⟨_, rfl, Nat.one_pos⟩⟩

theorem Workable.advance_timer (h : Workable s) (htimer : 0 < weight NnPoint.inTimer s.threads)
    (hphase : s.phase ≠ .timeoutFire) : ∃ e, Advances cfg s e := by
  obtain ⟨a, ha, hin⟩ := exists_of_weight_pos htimer
  refine h.advance ha ?_ ?_ ?_
  · cases a with
    | freeing w =>
      cases w with
      | timer => exact absurd (of_decide_eq_true (h.endsPlaced _ ha)) hphase
      | _ => cases hin
    | _ => first | exact Nat.le_of_ble_eq_true rfl | cases hin
  · rintro rfl
    cases hin
  · rintro rfl
    cases hin

theorem Workable.progress (h : Workable s) (hpos : 0 < weight NnPoint.rank s.threads) : ∃ e, Advances cfg s e := by
  obtain ⟨a, ha, hr⟩ := exists_of_weight_pos hpos
  rcases Nat.eq_zero_or_pos (weight NnPoint.inTimer s.threads) with hoff | htimer
  · by_cases hcan : a = .cancelling
    · rw [hcan] at ha
      exact ⟨.cancelTimer, advances_of_move ha rfl (fun _ => hoff) trivial ⟨_, rfl, by decide⟩⟩
    · by_cases hret : a = .rtCancel
      · rw [hret] at ha
        exact ⟨.rtCancelTimer, advances_of_move ha rfl (fun _ => hoff) trivial ⟨_, rfl, by decide⟩⟩
      · exact h.advance ha hr hcan hret
  · by_cases hwait : a = .cancelling ∨ a = .rtCancel
    · refine h.advance_timer htimer fun hp => ?_
      rcases hwait with rfl | rfl
      · exact absurd (hp.symm.trans (of_decide_eq_true (h.endsPlaced _ ha))) (by decide)
      · exact absurd (hp.symm.trans (of_decide_eq_true (h.queueing.placed _ ha))) (by decide)
    · exact h.advance ha hr (fun hcan => hwait (.inl hcan)) fun hret => hwait (.inr hret)

/-- The threads at work on the request can bring its count to zero. -/
def Drains (cfg : NnTimeConfig) (s : NnReqRun) : Prop :=
  ∃ es, ((machine cfg).restrict fun _ e => e.point.isSome = true).Legal s es ∧ ((machine cfg).exec s es).refCnt = 0

theorem Workable.drains (h : Workable s) : Drains cfg s := by
  obtain ⟨es, hlegal, hend, hzero⟩ := GuardedMachine.exists_legal_of_progress
    (m := (machine cfg).restrict fun _ e => e.point.isSome = true) (I := Workable)
    (μ := fun s => weight NnPoint.rank s.threads) (fun t ht hpos => by
      obtain ⟨e, he, hpoint, hu, hlt⟩ : ∃ e, Advances cfg t e := ht.progress hpos
      exact ⟨e, ⟨he, hpoint⟩, workable_step ht he hu, hlt⟩) s h
  refine ⟨es, hlegal, ?_⟩
  have hheld := weight_eq_zero_iff.mpr fun a ha => NnPoint.holdsRef_of_rank (weight_eq_zero_iff.mp hzero a ha)
  have hleaked := hend.leaked
  rw [NnReqRun.leaked, surplus, hheld, Nat.cast_zero, sub_zero] at hleaked
  exact hleaked

theorem workable_init (acquire cacheHit : Bool) (reqID : UInt32) (tDur : Int) :
    Workable (init acquire cacheHit reqID tDur) := by
  have hthreads {a : NnPoint} (ha : 0 < (init acquire cacheHit reqID tDur).threads a) : a = .subInit := by
    by_contra hne
    change 0 < ThreadPool.enter (fun _ => 0) .subInit a at ha
    rw [enter_of_ne _ hne] at ha
    cases ha
  refine ⟨queueing_init acquire cacheHit reqID tDur, fun a ha => ?_, ?_, rfl, fun h => ?_⟩
  · rw [hthreads ha]
    rfl
  · change (0 : Int) - weight NnPoint.holdsRef (ThreadPool.enter (fun _ => 0) .subInit) = 0
    rw [weight_enter, weight_zero]
    rfl
  · cases hthreads h

/-- Unhindered, the reference count of a request is the number of threads that hold a reference to it, and
they can give them all back. -/
theorem references_balanced (cfg : NnTimeConfig) (acquire cacheHit : Bool) (reqID : UInt32) (tDur : Int)
    {es : List NnEvent} (h : ((machine cfg).restrict Unhindered).Legal (init acquire cacheHit reqID tDur) es) :
    let s := (machine cfg).exec (init acquire cacheHit reqID tDur) es
    s.refCnt = weight NnPoint.holdsRef s.threads ∧ Drains cfg s := by
  have hs := GuardedMachine.exec_invariant (m := (machine cfg).restrict Unhindered) (I := Workable)
    (workable_init acquire cacheHit reqID tDur) (fun _ _ ht he => workable_step ht he.1 he.2) h
  exact ⟨sub_eq_zero.mp hs.leaked, hs.drains⟩

/-- A request that is sent and answered. -/
theorem references_balanced_answered :
    let es := submission ++ [.peekMDReq, .fcWait true, .fcPass, .sendMDReq, .findReqPool]
    let s := (machine centiseconds).exec (init true false 4001 10) es
    ((machine centiseconds).restrict Unhindered).Legal (init true false 4001 10) es ∧ s.refCnt = 2 ∧
      Drains centiseconds s := by
  have hlegal : ((machine centiseconds).restrict Unhindered).Legal (init true false 4001 10)
      (submission ++ [.peekMDReq, .fcWait true, .fcPass, .sendMDReq, .findReqPool]) := by decide +kernel
  exact ⟨hlegal, rfl, (references_balanced centiseconds true false 4001 10 hlegal).2⟩

/-- A thread that frees the request waits for ever if all others are gone or wait for the lock of the pool. -/
theorem not_drains (hthreads : ∀ a, 0 < s.threads a → a = .freeing .timer ∨ a = .chSent ∧ s.plock = true)
    (href : s.refCnt ≠ 0) : ¬ Drains cfg s := by
  rintro ⟨es, hlegal, hzero⟩
  cases es with
  | nil => exact href hzero
  | cons e es =>
    obtain ⟨⟨⟨hpoint, hready⟩, hsome⟩, -⟩ := hlegal
    cases e with
    | freeReq w => exact href hready
    | chRmReqPool =>
      rcases hthreads _ (hpoint _ rfl) with h | ⟨-, h⟩
      · cases h
      · exact absurd (h.symm.trans hready) (by decide)
    | giveUp a => rcases hthreads a (hpoint a rfl) with rfl | ⟨rfl, -⟩ <;> cases hready
    | peekMDReq | findReqPool | timerFire | connBack => cases hsome
    | _ => rcases hthreads _ (hpoint _ rfl) with h | ⟨h, -⟩ <;> cases h

/-- A report that flow control holds back is dropped with its reference. So is a request that times out
meanwhile, and the timer function then waits for ever, as it does for a worker that waits for the lock it
has not released. -/
theorem references_lost :
    (let m := machine centiseconds
      let es := submission ++ [.peekMDReq, .fcWait true]
      let s := m.exec (init false false 7 10) es
      m.Legal (init false false 7 10) es ∧ (∀ a, s.threads a = 0) ∧ s.refCnt = 1) ∧
    (let m := machine centiseconds
      let es := submission ++ [.peekMDReq, .timerFire, .toChkState, .fcWait true, .toRmWorkQ, .endfn .timer, .endDerefReq .timer]
      let s := m.exec (init true false 7 10) es
      m.Legal (init true false 7 10) es ∧ s.threads (.freeing .timer) = 1 ∧ ¬ Drains centiseconds s) ∧
    (let m := machine centiseconds
      let es := submission ++ [.peekMDReq, .chSendDone, .timerFire, .toChkState, .toRmWorkQ, .endfn .timer, .endDerefReq .timer]
      let s := m.exec (init true true 4001 10) es
      m.Legal (init true true 4001 10) es ∧ s.threads (.freeing .timer) = 1 ∧ ¬ Drains centiseconds s) := by
  refine ⟨⟨?_, ?_, ?_⟩, ⟨?_, ?_, not_drains ?_ ?_⟩, ⟨?_, ?_, not_drains ?_ ?_⟩⟩ <;> decide +kernel

end NnReqRun
end DiscoClient
