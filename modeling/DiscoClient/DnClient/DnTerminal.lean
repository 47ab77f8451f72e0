import DiscoClient.DnClient.DnUdReq

namespace DiscoClient
open ThreadPool

structure DnLedger where
  stat : DnReqState
  threads : DnPoint → Nat
  granted : List (DnReqEvent × DnReqAction)
  poolRms : Nat
  freed : Nat

def DnPoint.willFree : DnPoint → Nat
  | .finalAck | .ackFree | .cancelRef | .cancelRm | .cancelFree => 1
  | _ => 0

namespace DnLedger
variable {l m : DnLedger} {a b : DnPoint} {ev : DnReqEvent}

def numEnded (l : DnLedger) : Nat := l.granted.countP fun g => g.1.endsBy g.2

def frees (l : DnLedger) : Nat := l.freed + weight DnPoint.willFree l.threads

def action (l : DnLedger) (e : DnReqEvent) : DnReqAction := (dnReqUpdateState l.stat e).2

def enter (l : DnLedger) (b : DnPoint) : DnLedger := { l with threads := ThreadPool.enter l.threads b }

def leave (l : DnLedger) (a : DnPoint) : DnLedger := { l with threads := ThreadPool.leave l.threads a }

def move (l : DnLedger) (a b : DnPoint) : DnLedger := { l with threads := ThreadPool.move l.threads a b }

def updateState (l : DnLedger) (e : DnReqEvent) : DnLedger :=
  { l with
    stat := (dnReqUpdateState l.stat e).1
    granted := if l.action e = .noAction then l.granted else l.granted ++ [(e, l.action e)] }

def rmReq (l : DnLedger) : DnLedger := { l with poolRms := l.poolRms + 1 }

def free (l : DnLedger) : DnLedger := { l with freed := l.freed + 1 }

/-- One grant at most ends the request, as the last one, and the request leaves the pool and is freed by it
only. -/
structure Ended (l : DnLedger) : Prop where
  last : ∀ before g after, l.granted = before ++ g :: after → g.1.endsBy g.2 = true → after = []
  final : 0 < l.numEnded → l.stat.isFinal = true
  once : l.numEnded ≤ 1
  removed : l.poolRms ≤ l.numEnded
  freed : l.frees ≤ l.numEnded

theorem Ended.leave (h : Ended l) (ha : 0 < l.threads a) : Ended (l.leave a) := by
  have hw := weight_leave DnPoint.willFree ha
  have hf : l.freed + weight DnPoint.willFree l.threads ≤ l.numEnded := h.freed
  exact ⟨h.last, h.final, h.once, h.removed, show l.freed + weight _ (ThreadPool.leave l.threads a) ≤ l.numEnded by omega⟩

theorem Ended.move (h : Ended l) (ha : 0 < l.threads a) (hw : b.willFree ≤ a.willFree) : Ended (l.move a b) := by
  have hm := weight_move DnPoint.willFree b ha
  have hf : l.freed + weight DnPoint.willFree l.threads ≤ l.numEnded := h.freed
  exact ⟨h.last, h.final, h.once, h.removed, show l.freed + weight _ (ThreadPool.move l.threads a b) ≤ l.numEnded by omega⟩

theorem Ended.enter (h : Ended l) (hb : b.willFree = 0) : Ended (l.enter b) := by
  have hf : l.freed + weight DnPoint.willFree l.threads ≤ l.numEnded := h.freed
  refine ⟨h.last, h.final, h.once, h.removed, ?_⟩
  change l.freed + weight _ (ThreadPool.enter l.threads b) ≤ l.numEnded
  rw [weight_enter, hb, Nat.add_zero]
  exact hf

theorem Ended.free (h : Ended l) (ha : 0 < l.threads a) (hw : a.willFree = 1) : Ended (l.free.leave a) := by
  have hl := weight_leave DnPoint.willFree ha
  have hf : l.freed + weight DnPoint.willFree l.threads ≤ l.numEnded := h.freed
  refine ⟨h.last, h.final, h.once, h.removed, ?_⟩
  change l.freed + 1 + weight _ (ThreadPool.leave l.threads a) ≤ l.numEnded
  omega

theorem numEnded_updateState (l : DnLedger) (e : DnReqEvent) :
    (l.updateState e).numEnded = l.numEnded + (e.endsBy (l.action e)).toNat := by
  rw [numEnded, numEnded, updateState]
  split_ifs with hno
  · rw [hno]
    cases e <;> rfl
  · rw [List.countP_append, List.countP_singleton]
    cases e.endsBy (l.action e) <;> rfl

theorem Ended.numEnded_eq_zero (h : Ended l) (hact : l.action ev ≠ .noAction) : l.numEnded = 0 := by
  refine Nat.eq_zero_of_not_pos fun hpos => hact ?_
  rw [action, dnReqUpdateState_of_isFinal (h.final hpos)]

theorem Ended.last_updateState (h : Ended l) (ev : DnReqEvent) :
    ∀ before g after, (l.updateState ev).granted = before ++ g :: after → g.1.endsBy g.2 = true → after = [] := by
  intro before g after hsplit hends
  rw [updateState] at hsplit
  by_cases hno : l.action ev = .noAction
  · exact h.last before g after ((if_pos hno).symm.trans hsplit) hends
  · -- what was granted before did not end the request, so the split is at the new grant
    have hnone := List.countP_eq_zero.mp (h.numEnded_eq_zero hno)
    have hsplit : l.granted ++ [(ev, l.action ev)] = before ++ g :: after := (if_neg hno).symm.trans hsplit
    cases after using List.reverseRecOn with
    | nil => rfl
    | append_singleton after x =>
      rw [← List.cons_append, ← List.append_assoc] at hsplit
      have hold := (List.append_inj' hsplit rfl).1
      exact absurd hends (hnone g (by rw [hold]; simp))

theorem Ended.updateState (h : Ended l) (ev : DnReqEvent) : Ended (l.updateState ev) := by
  have hnum := numEnded_updateState l ev
  have hle : l.numEnded ≤ (l.updateState ev).numEnded := by omega
  refine ⟨h.last_updateState ev, fun hpos => ?_, ?_, h.removed.trans hle, h.freed.trans hle⟩
  · cases hends : ev.endsBy (l.action ev) with
    | true => exact isFinal_of_endsBy hends
    | false =>
      rw [hnum, hends] at hpos
      have hfin := h.final hpos
      change (dnReqUpdateState l.stat ev).1.isFinal = true
      rw [dnReqUpdateState_of_isFinal hfin]
      exact hfin
  · cases hends : ev.endsBy (l.action ev) with
    | true =>
      have hact : l.action ev ≠ .noAction := fun hno => by rw [hno] at hends; cases ev <;> cases hends
      rw [hnum, h.numEnded_eq_zero hact, hends]
      exact Nat.le_refl 1
    | false =>
      rw [hnum, hends]
      exact h.once

theorem Ended.endsBy (h : Ended l) (ev : DnReqEvent) (hends : ev.endsBy (l.action ev) = true) (hb : b.willFree = 1) :
    Ended (((l.updateState ev).rmReq).enter b) := by
  have hact : l.action ev ≠ .noAction := fun hno => by rw [hno] at hends; cases ev <;> cases hends
  have hnum : (l.updateState ev).numEnded = 1 := by
    rw [numEnded_updateState, h.numEnded_eq_zero hact, hends]
    rfl
  have hu := h.updateState ev
  have hzero := h.numEnded_eq_zero hact
  have hf : l.freed + weight DnPoint.willFree l.threads ≤ l.numEnded := h.freed
  refine ⟨hu.last, hu.final, hu.once, ?_, ?_⟩
  · change l.poolRms + 1 ≤ (l.updateState ev).numEnded
    have := h.removed
    omega
  · change l.freed + weight _ (ThreadPool.enter l.threads b) ≤ (l.updateState ev).numEnded
    rw [weight_enter, hb]
    omega

end DnLedger

namespace DnReqRun
variable {s : DnReqRun} {e : DnEvent}

def ledger (s : DnReqRun) : DnLedger := ⟨s.stat, s.threads, s.granted, s.poolRms, s.freed⟩

theorem ended_init (comm : DnReqComm) : DnLedger.Ended (init comm).ledger where
  last before g after hsplit _ := by simp [ledger, init] at hsplit
  final h := absurd h (Nat.lt_irrefl 0)
  once := Nat.zero_le 1
  removed := Nat.le_refl 0
  freed := by
    change 0 + weight DnPoint.willFree (ThreadPool.enter (fun _ => 0) .subPooled) ≤ 0
    rw [weight_enter, weight_zero]
    exact Nat.le_refl 0

theorem findMemAck_pool (s : DnReqRun) :
    (s.step .findMemAck).inReqPool = s.inReqPool ∧ (s.step .findMemAck).poolRms = s.poolRms := by
  rw [step, DnReqRun.findMemAck]
  split_ifs <;> exact ⟨rfl, rfl⟩

open DnLedger in
theorem ended_cancelReq (h : Ended s.ledger) : Ended s.cancelReq.ledger := by
  rw [cancelReq]
  split
  · rename_i hact
    have hact : s.ledger.action .cancel = .doCancelReq := hact
    exact h.endsBy .cancel (by rw [hact]; rfl) rfl
  · exact (h.updateState .cancel).enter rfl
  · exact h.updateState .cancel

open DnLedger in
theorem ended_step (h : Ended s.ledger) (he : s.Enabled e) : Ended (s.step e).ledger := by
  cases e with
  | initDone =>
    rw [step]
    split_ifs
    · exact (h.updateState .initDone).move (he _ rfl) (Nat.le_refl 0)
    · exact (h.updateState .initDone).leave (he _ rfl)
  | subRefReq | storeReqID | subAddWorkQ | retryAddWorkQ => exact h.move (he _ rfl) (Nat.le_refl 0)
  | subDerefReq | sendEnd | memAckEnd | retryDerefReq | unknownResp => exact h.leave (he _ rfl)
  | peekWorkQ => exact h.enter rfl
  | peekUpdateState =>
    rw [step, DnReqRun.peekUpdateState]
    split_ifs
    · exact (h.updateState .peekWorkQ).move (he _ rfl) (Nat.le_refl 0)
    · exact (h.updateState .peekWorkQ).leave (he _ rfl)
  | sendDone =>
    rw [step, DnReqRun.sendDone]
    cases s.comm.sendDnUdReq with
    | some comm => exact (h.updateState .sendDone).move (he _ rfl) (Nat.le_refl 0)
    | none => exact (h.updateState .sendDone).leave (he _ rfl)
  | findMemAck =>
    rw [step, DnReqRun.findMemAck]
    split_ifs
    · exact (h.updateState .findReqOkMemAck).enter rfl
    · exact h.updateState .findReqOkMemAck
  | findFinalAck =>
    rw [step, DnReqRun.findFinalAck]
    split_ifs with hact hfea
    · exact h.updateState .findReqOk
    · exact h.updateState .findReqOk
    · have hact : s.ledger.action .findReqOk = .doProcessResp := not_not.mp hact
      exact h.endsBy .findReqOk (by rw [hact]; rfl) rfl
  | finalAckEnd doFree =>
    cases doFree with
    | true => exact h.move (he _ rfl) (Nat.le_refl 1)
    | false => exact h.leave (he _ rfl)
  | ackFreeReq | cancelFreeReq => exact h.free he.1 rfl
  | connBack =>
    rw [step, DnReqRun.connBack]
    split_ifs
    · exact (h.updateState .connBack).enter rfl
    · exact h.updateState .connBack
  | retryChkDone =>
    rw [step, DnReqRun.retryChkDone]
    split_ifs
    · exact (h.updateState .retryChkDone).move (he _ rfl) (Nat.le_refl 0)
    · exact (h.updateState .retryChkDone).leave (he _ rfl)
  | cancel => exact ended_cancelReq h
  | cancelAgain =>
    rw [step, cancelAgain]
    split_ifs
    · exact ended_cancelReq (h.leave (he _ rfl))
    · exact h
  | cancelDerefReq | cancelRmWorkQ => exact h.move (he _ rfl) (Nat.le_refl 1)

/-- In every interleaving at most one grant ends the request, it is the last one, and the request
leaves the pool and is freed no more often than that; a memory ack leaves it in the pool. -/
theorem one_terminal_event (comm : DnReqComm) {es : List DnEvent} (h : machine.Legal (init comm) es) :
    let s := machine.exec (init comm) es
    (∀ before g after, s.granted = before ++ g :: after → g.1.endsBy g.2 = true → after = []) ∧
      s.ledger.numEnded ≤ 1 ∧ s.poolRms ≤ s.ledger.numEnded ∧ s.freed ≤ s.ledger.numEnded ∧
      (s.step .findMemAck).inReqPool = s.inReqPool ∧ (s.step .findMemAck).poolRms = s.poolRms := by
  have hend := GuardedMachine.exec_invariant (m := machine) (I := fun s => DnLedger.Ended s.ledger)
    (ended_init comm) (fun _ _ ht he => ended_step ht he) h
  refine ⟨hend.last, hend.once, hend.removed, ?_, findMemAck_pool _⟩
  exact (Nat.le_add_right _ _).trans hend.freed

/-- A write that is acked from memory and then from disk, and freed after that. -/
theorem one_terminal_event_write :
    let es : List DnEvent := [.initDone, .subRefReq, .storeReqID, .subAddWorkQ, .peekWorkQ, .subDerefReq,
      .peekUpdateState, .sendDone, .findMemAck, .sendEnd, .findFinalAck, .memAckEnd, .finalAckEnd true, .ackFreeReq]
    machine.Legal (init ⟨.write, true, true⟩) es ∧ (machine.exec (init ⟨.write, true, true⟩) es).freed = 1 ∧
      (machine.exec (init ⟨.write, true, true⟩) es).freed ≤
        (machine.exec (init ⟨.write, true, true⟩) es).ledger.numEnded := by
  have hlegal : machine.Legal (init ⟨.write, true, true⟩) [.initDone, .subRefReq, .storeReqID, .subAddWorkQ,
      .peekWorkQ, .subDerefReq, .peekUpdateState, .sendDone, .findMemAck, .sendEnd, .findFinalAck, .memAckEnd,
      .finalAckEnd true, .ackFreeReq] := by decide
  exact ⟨hlegal, by decide, (one_terminal_event ⟨.write, true, true⟩ hlegal).2.2.2.1⟩

end DnReqRun
end DiscoClient
