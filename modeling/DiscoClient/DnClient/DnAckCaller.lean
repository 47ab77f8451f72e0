import DiscoClient.DnClient.DnAck

namespace DiscoClient.DnReqRun
variable {s : DnReqRun} {e : DnEvent} {dir : IoDir} {r : DnReqComm} {past : List DnEvent} {n : Nat}

theorem comm_sendDone (s : DnReqRun) : (s.step .sendDone).comm = s.comm.sendDnUdReq.getD s.comm := by
  rw [step, DnReqRun.sendDone]
  cases s.comm.sendDnUdReq <;> rfl

theorem isFinal_step (h : s.stat.isFinal = true) : (s.step e).stat.isFinal = true := by
  rcases (effect_step s e).stat with hstat | ⟨ev, -, hstat⟩
  · rwa [hstat]
  · rwa [hstat, dnReqUpdateState_of_isFinal h]

def lostRefs (r : DnReqComm) (sends : Nat) : Nat := if r.plain then 0 else sends - 1

theorem lostRefs_succ (r : DnReqComm) (n : Nat) :
    lostRefs r (n + 1) = lostRefs r n + if 0 < n ∧ r.plain = false then 1 else 0 := by
  rw [lostRefs, lostRefs]
  cases r.plain with
  | true => simp
  | false => cases n <;> simp

theorem lostRefs_eq_zero_iff : lostRefs r n = 0 ↔ r.plain = true ∨ n ≤ 1 := by
  rw [lostRefs]
  cases r.plain <;> simp [Nat.sub_eq_zero_iff_le]

/-- The first send derives the operation code, and every later one of a derived code costs a reference. -/
structure Sends (dir : IoDir) (r : DnReqComm) (past : List DnEvent) (s : DnReqRun) : Prop where
  ended : DnLedger.Ended s.ledger
  comm : s.comm = if past.count .sendDone = 0 then r else r.sent dir
  sent : s.stat = .waitResp ∨ s.stat = .retryReq → 0 < past.count .sendDone
  leaked : s.stat.isFinal = false → s.leaked = lostRefs r (past.count .sendDone)

theorem Sends.dropsRef (h : Sends dir r past s) (hr : r.opcode = dir.dnOpcode) (hstat : s.stat.isFinal = false)
    (he : s.Enabled e) :
    s.dropsRef e = if e = .sendDone ∧ 0 < past.count .sendDone ∧ r.plain = false then 1 else 0 := by
  cases e with
  | sendDone =>
    rw [DnReqRun.dropsRef, h.comm]
    rcases Nat.eq_zero_or_pos (past.count .sendDone) with hzero | hpos
    · rw [if_pos hzero, DnReqComm.sendDnUdReq_first hr]
      simp [hzero]
    · rw [if_neg (Nat.ne_of_gt hpos), DnReqComm.sendDnUdReq_again hr]
      cases r.plain <;> simp [hpos]
  | unknownResp =>
    -- a final ack is being processed only after the request has ended
    have hfree : 0 < s.ledger.numEnded := by
      have hle := ThreadPool.le_weight DnPoint.willFree (he _ rfl)
      have hf : s.freed + ThreadPool.weight DnPoint.willFree s.threads ≤ s.ledger.numEnded := h.ended.freed
      exact Nat.lt_of_lt_of_le (Nat.lt_of_lt_of_le Nat.one_pos hle) ((Nat.le_add_left _ _).trans hf)
    exact absurd ((h.ended.final hfree).symm.trans hstat) Bool.false_ne_true.symm
  | _ => rfl

theorem Sends.step (h : Sends dir r past s) (hr : r.opcode = dir.dnOpcode) (he : s.Enabled e) :
    Sends dir r (past ++ [e]) (s.step e) := by
  have hcount : (past ++ [e]).count .sendDone = past.count .sendDone + if e = .sendDone then 1 else 0 := by
    rw [List.count_append, List.count_singleton]
    simp only [beq_iff_eq]
  refine ⟨ended_step h.ended he, ?_, fun hwait => ?_, fun hstat => ?_⟩
  · by_cases hsend : e = .sendDone
    · subst hsend
      rw [comm_sendDone, hcount, h.comm]
      rcases Nat.eq_zero_or_pos (past.count .sendDone) with hzero | hpos
      · simp [hzero, DnReqComm.sendDnUdReq_first hr]
      · rw [if_neg (Nat.ne_of_gt hpos), DnReqComm.sendDnUdReq_again hr]
        cases r.plain <;> simp
    · rw [(effect_step s e).comm hsend, hcount, if_neg hsend, h.comm, Nat.add_zero]
  · rw [hcount]
    by_cases hsend : e = .sendDone
    · rw [if_pos hsend]
      exact Nat.succ_pos _
    · rw [if_neg hsend]
      refine h.sent ?_
      rcases (effect_step s e).stat with hsame | ⟨ev, hev, hnext⟩
      · rwa [hsame] at hwait
      · rw [hnext] at hwait
        cases hs : s.stat <;> rw [hs] at hwait <;> cases ev <;>
          first | exact .inl rfl | exact .inr rfl | exact absurd (hev rfl) hsend | simp [dnReqUpdateState] at hwait
  · have hbefore : s.stat.isFinal = false := Bool.eq_false_iff.mpr fun hfin =>
      Bool.false_ne_true (hstat.symm.trans (isFinal_step hfin))
    rw [leaked_step he, h.leaked hbefore, h.dropsRef hr hbefore he, hcount]
    by_cases hsend : e = .sendDone
    · simp only [hsend, if_true, true_and]
      rw [lostRefs_succ, Int.natCast_add]
    · simp [hsend]

theorem sends_exec (dir : IoDir) (payload io : Bool) {es : List DnEvent}
    (h : machine.Legal (init ⟨dir.dnOpcode, payload, io⟩) es) :
    Sends dir ⟨dir.dnOpcode, payload, io⟩ es (machine.exec (init ⟨dir.dnOpcode, payload, io⟩) es) := by
  refine GuardedMachine.exec_history (R := Sends dir ⟨dir.dnOpcode, payload, io⟩) ?_
    (fun _ _ _ hs he => hs.step rfl he) h
  refine ⟨ended_init _, rfl, fun hwait => ?_, fun _ => ?_⟩
  · rcases hwait with hwait | hwait <;> cases hwait
  · change (0 : Int) - (ThreadPool.weight DnPoint.holdsRef (ThreadPool.enter (fun _ => 0) .subPooled) : Nat) = _
    rw [ThreadPool.weight_enter, ThreadPool.weight_zero]
    simp [DnPoint.holdsRef, lostRefs]

/-- The ack tells the caller the result, and the free it leads to does not wait for a lost reference. -/
structure Delivers (dir : IoDir) (eij : Option ErrInject) (resp : DnUdResp) (s : DnReqRun) : Prop where
  tells : (processDnAck eij s.comm.opcode resp).Tells dir
  refs : s.leaked = 0

/-- In every run up to its final ack, a request is delivered exactly when it has not been sent
again with a derived operation code and the response type is handled for its direction. -/
theorem final_ack_delivers_iff (dir : IoDir) (payload io : Bool) {es : List DnEvent}
    (h : machine.Legal (init ⟨dir.dnOpcode, payload, io⟩) es)
    (hwait : (machine.exec (init ⟨dir.dnOpcode, payload, io⟩) es).stat = .waitResp)
    (eij : Option ErrInject) (resp : DnUdResp) :
    Delivers dir eij resp (machine.exec (init ⟨dir.dnOpcode, payload, io⟩) es) ↔
      ((payload && io) = true ∨ es.count .sendDone ≤ 1) ∧
        ∃ final, injectedResp eij resp = some final ∧ final.handled dir (payload && io) = true := by
  have hs := sends_exec dir payload io h
  have hsent := hs.sent (.inl hwait)
  have hcomm := hs.comm.trans (if_neg (Nat.ne_of_gt hsent))
  have hleak := hs.leaked (by rw [hwait]; rfl)
  have hplain : (DnReqComm.mk dir.dnOpcode payload io).plain = (payload && io) := rfl
  have hrefs : (machine.exec (init ⟨dir.dnOpcode, payload, io⟩) es).leaked = 0 ↔
      (payload && io) = true ∨ es.count .sendDone ≤ 1 := by
    rw [hleak, Int.natCast_eq_zero, lostRefs_eq_zero_iff, hplain]
  have htells : (processDnAck eij (machine.exec (init ⟨dir.dnOpcode, payload, io⟩) es).comm.opcode resp).Tells dir ↔
      ∃ final, injectedResp eij resp = some final ∧ final.handled dir (payload && io) = true := by
    rw [processDnAck, hcomm]
    cases injectedResp eij resp with
    | none => exact iff_of_false (not_tells_nil _ _ _) (by simp)
    | some final =>
      refine (handleDnResp_tells_iff dir _ final).trans ?_
      simp [hplain]
  exact ⟨fun hd => ⟨hrefs.mp hd.refs, htells.mp hd.tells⟩, fun hc => ⟨htells.mpr hc.2, hrefs.mpr hc.1⟩⟩

/-- The disk ack of a write without payload, sent once. -/
theorem final_ack_delivers_write :
    let es : List DnEvent := [.initDone, .subRefReq, .storeReqID, .subAddWorkQ, .subDerefReq, .peekWorkQ,
      .peekUpdateState, .sendDone, .sendEnd]
    machine.Legal (init ⟨.write, false, true⟩) es ∧
      Delivers .write none .diskAck (machine.exec (init ⟨.write, false, true⟩) es) := by
  have hlegal : machine.Legal (init ⟨.write, false, true⟩) [.initDone, .subRefReq, .storeReqID, .subAddWorkQ,
      .subDerefReq, .peekWorkQ, .peekUpdateState, .sendDone, .sendEnd] := by decide
  refine ⟨hlegal, (final_ack_delivers_iff .write false true hlegal rfl none .diskAck).mpr ?_⟩
  exact ⟨.inr (by decide), .diskAck, rfl, rfl⟩

/-- A write whose data node reports an IO failure with the LUN in order is neither ended nor freed, nor is a
read without payload; a write is told a read's metadata error; and a read without payload that is sent again
is dropped. -/
theorem final_ack_lost :
    processDnAck none .write .errIoFailLunOk = ⟨[], true, false⟩ ∧
      processDnAck none .readNoPayload .errLunFail = ⟨[], true, false⟩ ∧
      processDnAck none .write .hbidErr = ⟨[.mdErr], true, true⟩ ∧
      (let es : List DnEvent := [.initDone, .subRefReq, .storeReqID, .subAddWorkQ, .subDerefReq, .peekWorkQ,
          .peekUpdateState, .sendDone, .sendEnd]
        let fs : List DnEvent := [.connBack, .retryChkDone, .retryAddWorkQ, .retryDerefReq, .peekWorkQ,
          .peekUpdateState, .sendDone]
        let s := machine.exec (init ⟨.write, true, true⟩) es
        let t := machine.exec (init ⟨.read, false, true⟩) (es ++ fs)
        machine.Legal (init ⟨.write, true, true⟩) es ∧ s.stat = .waitResp ∧
          ¬ Delivers .write none .errIoFailLunOk s ∧
          machine.Legal (init ⟨.read, false, true⟩) (es ++ fs) ∧ t.stat = .waitResp ∧ (∀ a, t.threads a = 0) ∧
          t.refCnt = 1 ∧ ¬ Delivers .read none .readPayload t) := by
  refine ⟨rfl, rfl, rfl, by decide, rfl, fun hd => ?_, by decide, rfl, by decide, rfl, fun hd => ?_⟩
  · exact absurd hd.tells (not_tells_nil _ _ _)
  · exact absurd hd.refs (by decide +kernel)

end DiscoClient.DnReqRun
