import DiscoClient.DnClient.DnReferences

namespace DiscoClient
open ThreadPool

def DnEvent.queues : DnEvent → Bool
  | .initDone | .subRefReq | .storeReqID | .subAddWorkQ | .peekWorkQ | .retryAddWorkQ | .cancelRmWorkQ => true
  | _ => false

namespace DnReqRun
variable {s : DnReqRun} {e : DnEvent}

/-- A thread that is about to send or to cancel again finds the state that the grant has left. -/
structure Placed (st : DnReqState) (peeked again : Nat) : Prop where
  one : peeked ≤ 1
  sending : 0 < peeked → st = .sending ∨ st = .cancelReq
  again : 0 < again → st = .cancelReq

theorem Placed.update {st : DnReqState} {ev : DnReqEvent} {peeked again : Nat} (h : Placed st peeked again)
    (hne : ev ≠ .sendDone) : Placed (dnReqUpdateState st ev).1 peeked again where
  one := h.one
  sending hpos := by
    rcases h.sending hpos with rfl | rfl
    · cases ev <;> first | exact .inl rfl | exact .inr rfl | exact absurd rfl hne
    · exact .inr rfl
  again hpos := by
    rw [h.again hpos]
    rfl

theorem Placed.sendDone {st : DnReqState} {peeked again : Nat} (h : Placed st peeked again) :
    Placed (dnReqUpdateState st .sendDone).1 (peeked - 1) again where
  one := (Nat.sub_le _ _).trans h.one
  sending hpos := absurd h.one (by omega)
  again hpos := by
    rw [h.again hpos]
    rfl

theorem placed_cancelReq (h : Placed s.stat (s.threads .peeked) (s.threads .cancelAgain)) :
    Placed s.cancelReq.stat (s.cancelReq.threads .peeked) (s.cancelReq.threads .cancelAgain) := by
  have hu : Placed (dnReqUpdateState s.stat .cancel).1 _ _ := h.update (by decide)
  rw [cancelReq]
  split
  · exact hu
  · rename_i hact
    refine ⟨hu.one, hu.sending, fun _ => ?_⟩
    change (dnReqUpdateState s.stat .cancel).1 = .cancelReq
    rw [action] at hact
    cases hs : s.stat <;> rw [hs] at hact <;> first | rfl | cases hact
  · exact hu

theorem placed_step (h : Placed s.stat (s.threads .peeked) (s.threads .cancelAgain)) :
    Placed (s.step e).stat ((s.step e).threads .peeked) ((s.step e).threads .cancelAgain) := by
  have hu (ev : DnReqEvent) (hne : ev ≠ .sendDone) :
      Placed (dnReqUpdateState s.stat ev).1 (s.threads .peeked) (s.threads .cancelAgain) := h.update hne
  cases e with
  | initDone =>
    rw [step]
    split_ifs <;> exact hu .initDone (by decide)
  | peekUpdateState =>
    rw [step, DnReqRun.peekUpdateState]
    split_ifs with hact
    · -- a request that waits to be sent is at no other sender
      have hwait : s.stat = .waitSend := by
        rw [action] at hact
        cases hs : s.stat <;> rw [hs] at hact <;> first | rfl | cases hact
      have hzero : s.threads .peeked = 0 := Nat.eq_zero_of_not_pos fun hpos => by
        rcases h.sending hpos with h' | h' <;> rw [hwait] at h' <;> cases h'
      refine ⟨?_, fun _ => .inl ?_, (hu .peekWorkQ (by decide)).again⟩
      · change s.threads .peeked + 1 ≤ 1
        rw [hzero]
      · change (dnReqUpdateState s.stat .peekWorkQ).1 = .sending
        rw [hwait]
        rfl
    · exact hu .peekWorkQ (by decide)
  | sendDone =>
    rw [step, DnReqRun.sendDone]
    cases s.comm.sendDnUdReq <;> exact h.sendDone
  | findMemAck =>
    rw [step, DnReqRun.findMemAck]
    split_ifs <;> exact hu .findReqOkMemAck (by decide)
  | findFinalAck =>
    rw [step, DnReqRun.findFinalAck]
    split_ifs <;> exact hu .findReqOk (by decide)
  | finalAckEnd doFree => cases doFree <;> exact h
  | connBack =>
    rw [step, DnReqRun.connBack]
    split_ifs <;> exact hu .connBack (by decide)
  | retryChkDone =>
    rw [step, DnReqRun.retryChkDone]
    split_ifs <;> exact hu .retryChkDone (by decide)
  | cancel => exact placed_cancelReq h
  | cancelAgain =>
    rw [step, DnReqRun.cancelAgain]
    split_ifs
    · refine placed_cancelReq ⟨h.one, h.sending, fun hpos => h.again ?_⟩
      exact Nat.lt_of_lt_of_le hpos (Nat.sub_le _ _)
    · exact h
  | subRefReq | storeReqID | subAddWorkQ | subDerefReq | peekWorkQ | sendEnd | memAckEnd | unknownResp | ackFreeReq
  | retryAddWorkQ | retryDerefReq | cancelDerefReq | cancelRmWorkQ | cancelFreeReq => exact h

def queueing (s : DnReqRun) : Bool × Bool × Bool × Nat × Nat × Nat × Nat :=
  (s.inWorkQ, s.feaInWorkQ, s.stored, s.threads .subPooled, s.threads .subGranted, s.threads .subRef,
    s.threads .subStored)

/-- What a step leaves alone: the state machine takes one event at most, SendDone only from the send worker,
which alone changes what is sent; other steps do not touch the queue. -/
structure Effect (e : DnEvent) (s t : DnReqRun) : Prop where
  stat : t.stat = s.stat ∨
    ∃ ev, (ev = .sendDone → e = .sendDone) ∧ t.stat = (dnReqUpdateState s.stat ev).1
  comm : e ≠ .sendDone → t.comm = s.comm
  queueing : e.queues = false → t.queueing = s.queueing

theorem effect_cancelReq (s : DnReqRun) (e : DnEvent) : Effect e s s.cancelReq := by
  rw [cancelReq]
  split <;> exact ⟨.inr ⟨.cancel, DnReqEvent.noConfusion, rfl⟩, fun _ => rfl, fun _ => rfl⟩

theorem effect_step (s : DnReqRun) (e : DnEvent) : Effect e s (s.step e) := by
  cases e with
  | initDone =>
    rw [step]
    split_ifs <;> exact ⟨.inr ⟨.initDone, DnReqEvent.noConfusion, rfl⟩, fun _ => rfl, fun h => by cases h⟩
  | peekUpdateState =>
    rw [step, DnReqRun.peekUpdateState]
    split_ifs <;> exact ⟨.inr ⟨.peekWorkQ, DnReqEvent.noConfusion, rfl⟩, fun _ => rfl, fun _ => rfl⟩
  | sendDone =>
    rw [step, DnReqRun.sendDone]
    cases s.comm.sendDnUdReq <;> exact ⟨.inr ⟨.sendDone, fun _ => rfl, rfl⟩, fun h => absurd rfl h, fun _ => rfl⟩
  | findMemAck =>
    rw [step, DnReqRun.findMemAck]
    split_ifs <;> exact ⟨.inr ⟨.findReqOkMemAck, DnReqEvent.noConfusion, rfl⟩, fun _ => rfl, fun _ => rfl⟩
  | findFinalAck =>
    rw [step, DnReqRun.findFinalAck]
    split_ifs <;> exact ⟨.inr ⟨.findReqOk, DnReqEvent.noConfusion, rfl⟩, fun _ => rfl, fun _ => rfl⟩
  | finalAckEnd doFree => cases doFree <;> exact ⟨.inl rfl, fun _ => rfl, fun _ => rfl⟩
  | connBack =>
    rw [step, DnReqRun.connBack]
    split_ifs <;> exact ⟨.inr ⟨.connBack, DnReqEvent.noConfusion, rfl⟩, fun _ => rfl, fun _ => rfl⟩
  | retryChkDone =>
    rw [step, DnReqRun.retryChkDone]
    split_ifs <;> exact ⟨.inr ⟨.retryChkDone, DnReqEvent.noConfusion, rfl⟩, fun _ => rfl, fun _ => rfl⟩
  | cancel => exact effect_cancelReq s .cancel
  | cancelAgain =>
    rw [step, DnReqRun.cancelAgain]
    split_ifs
    · obtain ⟨hstat, hcomm, hqueue⟩ := effect_cancelReq (s.leave .cancelAgain) .cancelAgain
      exact ⟨hstat, hcomm, hqueue⟩
    · exact ⟨.inl rfl, fun _ => rfl, fun _ => rfl⟩
  | subDerefReq | sendEnd | memAckEnd | unknownResp | ackFreeReq | retryDerefReq | cancelDerefReq
  | cancelFreeReq => exact ⟨.inl rfl, fun _ => rfl, fun _ => rfl⟩
  | subRefReq | storeReqID | subAddWorkQ | peekWorkQ | retryAddWorkQ | cancelRmWorkQ =>
    exact ⟨.inl rfl, fun _ => rfl, fun h => by cases h⟩

def Submitted (s : DnReqRun) : Prop :=
  s.threads .subPooled + s.threads .subGranted + s.threads .subRef + s.stored.toNat ≤ 1

theorem submitted_step (h : s.Submitted) (he : s.Enabled e) : (s.step e).Submitted := by
  cases hq : e.queues with
  | false =>
    have hsame := (effect_step s e).queueing hq
    simp only [queueing, Prod.mk.injEq] at hsame
    rw [Submitted, hsame.2.2.1, hsame.2.2.2.1, hsame.2.2.2.2.1, hsame.2.2.2.2.2.1]
    exact h
  | true =>
    rw [Submitted] at h
    cases e with
    | initDone =>
      have hpos : 0 < s.threads .subPooled := he _ rfl
      rw [step]
      split_ifs
      · change s.threads .subPooled - 1 + (s.threads .subGranted + 1) + s.threads .subRef + s.stored.toNat ≤ 1
        omega
      · change s.threads .subPooled - 1 + s.threads .subGranted + s.threads .subRef + s.stored.toNat ≤ 1
        omega
    | subRefReq =>
      have hpos : 0 < s.threads .subGranted := he _ rfl
      change s.threads .subPooled + (s.threads .subGranted - 1) + (s.threads .subRef + 1) + s.stored.toNat ≤ 1
      omega
    | storeReqID =>
      have hpos : 0 < s.threads .subRef := he _ rfl
      change s.threads .subPooled + s.threads .subGranted + (s.threads .subRef - 1) + 1 ≤ 1
      omega
    | subAddWorkQ | peekWorkQ | retryAddWorkQ | cancelRmWorkQ => exact h
    | _ => cases hq

theorem queue_step (h : s.inWorkQ = s.feaInWorkQ) : (s.step e).inWorkQ = (s.step e).feaInWorkQ := by
  cases hq : e.queues with
  | false =>
    have hsame := (effect_step s e).queueing hq
    simp only [queueing, Prod.mk.injEq] at hsame
    rw [hsame.1, hsame.2.1, h]
  | true =>
    cases e with
    | subAddWorkQ | retryAddWorkQ =>
      change (s.inWorkQ || !s.feaInWorkQ) = true
      rw [h, Bool.or_not_self]
    | peekWorkQ | cancelRmWorkQ =>
      change (s.inWorkQ && !s.feaInWorkQ) = false
      rw [h, Bool.and_not_self]
    | initDone =>
      rw [step]
      split_ifs <;> exact h
    | subRefReq | storeReqID => exact h
    | _ => cases hq

def Pooled (s : DnReqRun) : Prop := s.inReqPool = true → s.feaInReqPool = true ∧ s.ledger.numEnded = 0

theorem Pooled.update (h : s.Pooled) {ev : DnReqEvent} (hev : ev.endsBy (s.action ev) = false) :
    s.inReqPool = true → s.feaInReqPool = true ∧ (s.ledger.updateState ev).numEnded = 0 := by
  intro hin
  obtain ⟨hfea, hnum⟩ := h hin
  refine ⟨hfea, ?_⟩
  have hact : ev.endsBy (s.ledger.action ev) = false := hev
  rw [DnLedger.numEnded_updateState, hnum, hact]
  rfl

theorem pooled_cancelReq (h : s.Pooled) : s.cancelReq.Pooled := by
  rw [cancelReq]
  split
  · exact fun hin => absurd hin Bool.false_ne_true
  · rename_i hact
    exact h.update (by rw [hact]; rfl)
  · rename_i hcancel _
    refine h.update ?_
    cases hact : s.action .cancel <;> first | rfl | exact absurd hact hcancel

theorem pooled_step (h : s.Pooled) (he : s.Enabled e) : (s.step e).Pooled := by
  cases e with
  | initDone =>
    rw [step]
    split_ifs <;> exact h.update rfl
  | peekUpdateState =>
    rw [step, DnReqRun.peekUpdateState]
    split_ifs <;> exact h.update rfl
  | sendDone =>
    rw [step, DnReqRun.sendDone]
    cases s.comm.sendDnUdReq <;> exact h.update rfl
  | findMemAck =>
    rw [step, DnReqRun.findMemAck]
    split_ifs <;> exact h.update rfl
  | findFinalAck =>
    rw [step, DnReqRun.findFinalAck]
    split_ifs with hact hfea
    · refine h.update (s := s) ?_
      cases hno : s.action .findReqOk <;> first | rfl | exact absurd hno hact
    · exact absurd (h he).1 (by rw [show s.feaInReqPool = false from hfea]; decide)
    · exact fun hin => absurd hin Bool.false_ne_true
  | finalAckEnd doFree => cases doFree <;> exact h
  | connBack =>
    rw [step, DnReqRun.connBack]
    split_ifs <;> exact h.update rfl
  | retryChkDone =>
    rw [step, DnReqRun.retryChkDone]
    split_ifs <;> exact h.update rfl
  | cancel => exact pooled_cancelReq h
  | cancelAgain =>
    rw [step, DnReqRun.cancelAgain]
    split_ifs
    · exact pooled_cancelReq (s := s.leave .cancelAgain) h
    · exact h
  | subRefReq | storeReqID | subAddWorkQ | subDerefReq | peekWorkQ | sendEnd | memAckEnd | unknownResp | ackFreeReq
  | retryAddWorkQ | retryDerefReq | cancelDerefReq | cancelRmWorkQ | cancelFreeReq => exact h

structure Sound (s : DnReqRun) : Prop where
  ended : DnLedger.Ended s.ledger
  pooled : s.Pooled
  placed : Placed s.stat (s.threads .peeked) (s.threads .cancelAgain)
  submitted : s.Submitted
  queue : s.inWorkQ = s.feaInWorkQ
  leaked : 0 ≤ s.leaked

theorem Sound.finalAck_left_pool (h : Sound s) (ht : 0 < s.threads .finalAck) : s.inReqPool = false := by
  refine Bool.eq_false_iff.mpr fun hpool => ?_
  have hfrees : s.freed + weight DnPoint.willFree s.threads ≤ s.ledger.numEnded := h.ended.freed
  have hone : DnPoint.willFree .finalAck ≤ weight DnPoint.willFree s.threads := le_weight DnPoint.willFree ht
  rw [(h.pooled hpool).2] at hfrees
  rw [DnPoint.willFree] at hone
  omega

theorem sound_exec (comm : DnReqComm) {es : List DnEvent} (h : machine.Legal (init comm) es) :
    Sound (machine.exec (init comm) es) := by
  refine GuardedMachine.exec_invariant (I := Sound) ?_ (fun s e hs he => ?_) h
  · refine ⟨ended_init comm, fun _ => ⟨rfl, rfl⟩, ⟨Nat.zero_le 1, ?_, ?_⟩, Nat.le_refl 1, rfl, ?_⟩
    · exact fun hpos => absurd hpos (Nat.lt_irrefl 0)
    · exact fun hpos => absurd hpos (Nat.lt_irrefl 0)
    · change 0 ≤ (0 : Int) - (weight DnPoint.holdsRef (ThreadPool.enter (fun _ => 0) .subPooled) : Nat)
      rw [weight_enter, weight_zero]
      decide
  · refine ⟨ended_step hs.ended he, pooled_step hs.pooled he, placed_step hs.placed, submitted_step hs.submitted he,
      queue_step hs.queue, ?_⟩
    have hleak := hs.leaked
    change 0 ≤ (s.step e).leaked
    rw [leaked_step he]
    omega

end DnReqRun
end DiscoClient
