import DiscoClient.Metadata.WriteAckCounters
import DiscoClient.Payload.ReleaseAck

namespace DiscoClient
namespace PayloadReq
variable {p q : PayloadReq} {cfg : ToConfig} {now : UInt64}

/-- Number of calls of PLReq_endReq. -/
def numEnds (p : PayloadReq) : Nat := p.calls.countP PlCall.isEnd

structure TimeoutEnds (p t : PayloadReq) : Prop where
  stat : t.stat = .ciCaller
  reqPool : t.inReqPool = false
  callerPool : t.inCallerPool = false
  ended : t.numEnds = p.numEnds + 1
  freed : t.freed = p.freed + 1

/-- A firing of the timer should end a waiting request whose count is exhausted, and it should take a commit bit
of a write only when it ends the request. -/
structure TimeoutOk (p t : PayloadReq) : Prop where
  ends : p.Waiting → p.rToChkCnt ≤ 1 → TimeoutEnds p t
  bits : p.opcode = .write → t.mdItem.ciUser ≠ p.mdItem.ciUser ∨ t.mdItem.ciMds ≠ p.mdItem.ciMds → TimeoutEnds p t

def Exhausted (p : PayloadReq) : Prop := p.Waiting ∧ p.rToChkCnt ≤ 1

/-- The user has been told of the write, and the wait for its other replicas is over. -/
def WaitOver (cfg : ToConfig) (now : UInt64) (p : PayloadReq) : Prop :=
  p.opcode = .write ∧ p.stat = .waitIoDone ∧ p.mdItem.ciUser = true ∧ p.mdItem.ciMds = false ∧
    cfg.highRespWriteIo = true ∧ chkWaitOtherReplica cfg now p = false

structure StillHeld (p t : PayloadReq) : Prop where
  waiting : t.Waiting
  reqPool : t.inReqPool = p.inReqPool
  callerPool : t.inCallerPool = p.inCallerPool
  ended : t.numEnds = p.numEnds
  freed : t.freed = p.freed

theorem StillHeld.not_ends {t : PayloadReq} (h : StillHeld p t) : ¬ TimeoutEnds p t := by
  intro he
  have hends := he.ended
  rw [h.ended] at hends
  exact absurd hends (Nat.ne_of_lt (Nat.lt_succ_self _))

theorem ciUserCallerReq_held (h : StillHeld p q) (now : UInt64) (r : Option Bool) :
    StillHeld p (q.ciUserCallerReq now r) := by
  cases r with
  | none => exact h
  | some b =>
    refine ⟨h.waiting, h.reqPool, h.callerPool, ?_, h.freed⟩
    have hend : (q.calls ++ [PlCall.ciUser q.numHbids b]).countP PlCall.isEnd = q.calls.countP PlCall.isEnd := by
      rw [List.countP_append]
      rfl
    exact hend.trans h.ended

theorem chkWPlReqWait_fire_iff : chkWPlReqWait cfg now { p with rToChkCnt := p.rToChkCnt - 1, stat := .toCheck } = false ↔
    p.rToChkCnt ≤ 1 ∨
      (p.mdItem.ciUser = true ∧ cfg.highRespWriteIo = true ∧ chkWaitOtherReplica cfg now p = false) := by
  rw [chkWPlReqWait]
  dsimp only
  split_ifs with hcnt huser hhigh
  · exact iff_of_true rfl (.inl (by omega))
  · exact iff_of_false (by decide) fun h => h.elim (by omega) fun h => absurd (h.1.symm.trans huser) (by decide)
  · refine ⟨fun h => .inr ⟨Bool.eq_true_of_not_eq_false huser, hhigh, h⟩, fun h => h.elim (by omega) fun h => h.2.2⟩
  · exact iff_of_false (by decide) fun h => h.elim (by omega) fun h => hhigh h.2.1

/-- The handler does not go on waiting for a write: both commit bits are taken and nothing is ended. -/
theorem toHandlerGut_giveUp (hop : p.opcode = .write) (hstat : p.stat = .waitIoDone)
    (hgive : chkWPlReqWait cfg now { p with rToChkCnt := p.rToChkCnt - 1, stat := .toCheck } = false) :
    let t := p.toHandlerGut cfg now
    StillHeld p t ∧ t.mdItem.ciUser = true ∧ t.mdItem.ciMds = true := by
  obtain ⟨q, hq⟩ : ∃ q : PayloadReq, q = { p with
    rToChkCnt := p.rToChkCnt - 1, stat := .toCheck, mdItem := p.mdItem.timeoutCommitResult.1 } := ⟨_, rfl⟩
  have ht : p.toHandlerGut cfg now =
      { q.ciUserCallerReq now p.mdItem.timeoutCommitResult.2.ciUser with stat := .waitIoDone } := by
    rw [toHandlerGut_eq, toHandlerBody_fire hstat]
    dsimp only
    rw [if_neg (by rw [hop]; decide), writeToHandle_eq rfl, if_neg (by rw [hgive]; decide), hq]
  have hheld : StillHeld p q := by
    rw [hq]
    exact ⟨.inr rfl, rfl, rfl, rfl, rfl⟩
  obtain ⟨-, hpool, hcaller, hended, hfreed⟩ := ciUserCallerReq_held hheld now p.mdItem.timeoutCommitResult.2.ciUser
  intro t
  change t = _ at ht
  rw [ht]
  refine ⟨⟨.inl rfl, hpool, hcaller, hended, hfreed⟩, ?_⟩
  rw [(ciUserCallerReq_stat q now _).2, hq]
  exact ⟨rfl, rfl⟩

theorem exhausted_held (h : p.Exhausted) : StillHeld p (p.toHandlerGut cfg now) := by
  obtain ⟨hstat | hstat, hcnt⟩ := h
  · cases hop : p.opcode with
    | read =>
      rw [toHandlerGut_eq, toHandlerBody_fire hstat]
      dsimp only
      rw [if_pos hop, readToHandle_timeup rfl (by dsimp only; omega)]
      exact ⟨.inl rfl, rfl, rfl, rfl, rfl⟩
    | write => exact (toHandlerGut_giveUp hop hstat (chkWPlReqWait_fire_iff.mpr (.inl hcnt))).1
  · rw [toHandlerGut_eq, toHandlerBody_of_ne (by rw [hstat]; decide)]
    exact ⟨.inr hstat, rfl, rfl, rfl, rfl⟩

theorem waitOver_held (h : p.WaitOver cfg now) : StillHeld p (p.toHandlerGut cfg now) ∧
    (p.toHandlerGut cfg now).mdItem.ciUser = true ∧ (p.toHandlerGut cfg now).mdItem.ciMds = true :=
  toHandlerGut_giveUp h.1 h.2.1 (chkWPlReqWait_fire_iff.mpr (.inr ⟨h.2.2.1, h.2.2.2.2⟩))

/-- A firing takes a bit of a write only when the handler gives up waiting. -/
theorem bits_taken (hop : p.opcode = .write)
    (h : (p.toHandlerGut cfg now).mdItem.ciUser ≠ p.mdItem.ciUser ∨ (p.toHandlerGut cfg now).mdItem.ciMds ≠ p.mdItem.ciMds) :
    p.Exhausted ∨ p.WaitOver cfg now := by
  have hsame {t : PayloadReq} (ht : p.toHandlerGut cfg now = t) (hmd : t.mdItem = p.mdItem) : False := by
    rw [ht, hmd] at h
    exact h.elim (absurd rfl) (absurd rfl)
  by_cases hstat : p.stat = .waitIoDone
  · cases hwait : chkWPlReqWait cfg now { p with rToChkCnt := p.rToChkCnt - 1, stat := .toCheck } with
    | true =>
      refine (hsame (t := { p with rToChkCnt := p.rToChkCnt - 1, stat := .waitIoDone }) ?_ rfl).elim
      rw [toHandlerGut_eq, toHandlerBody_fire hstat]
      dsimp only
      rw [if_neg (by rw [hop]; decide), writeToHandle_eq rfl, if_pos hwait]
    | false =>
      rcases chkWPlReqWait_fire_iff.mp hwait with hcnt | ⟨huser, hhigh, hover⟩
      · exact .inl ⟨.inl hstat, hcnt⟩
      · obtain ⟨-, hu, hm⟩ := toHandlerGut_giveUp hop hstat hwait
        rw [hu, hm, huser] at h
        refine .inr ⟨hop, hstat, huser, ?_, hhigh, hover⟩
        exact Bool.eq_false_of_not_eq_true fun hmds => h.elim (absurd rfl) fun h => h hmds.symm
  · refine (hsame ?_ (rfl : ({ p with rToChkCnt := p.rToChkCnt - 1 } : PayloadReq).mdItem = p.mdItem)).elim
    rw [toHandlerGut_eq, toHandlerBody_of_ne hstat]

theorem timeoutOk_iff : TimeoutOk p (p.toHandlerGut cfg now) ↔ ¬ p.Exhausted ∧ ¬ p.WaitOver cfg now := by
  refine ⟨fun hok => ⟨fun hex => ?_, fun hover => ?_⟩, fun hnot => ⟨fun hw hcnt => ?_, fun hop hbits => ?_⟩⟩
  · exact (exhausted_held hex).not_ends (hok.ends hex.1 hex.2)
  · obtain ⟨hheld, -, hmds⟩ := waitOver_held hover
    refine hheld.not_ends (hok.bits hover.1 (.inr ?_))
    rw [hmds, hover.2.2.2.1]
    decide
  · exact absurd ⟨hw, hcnt⟩ hnot.1
  · exact ((bits_taken hop hbits).elim hnot.1 hnot.2).elim

end PayloadReq

def PlEvent.isTimeout : PlEvent → Bool
  | .timeout _ => true
  | _ => false

namespace PlRun
open PayloadReq

theorem rToChkCnt_aloneVisible (v : Visible) : (aloneVisible v).rToChkCnt = v.rToChkCnt := by
  rw [aloneVisible]
  split_ifs <;> rfl

/-- The count goes down by one with every firing of the timer. -/
theorem rToChkCnt_step (cfg : ToConfig) (minDiskAck : Nat) (s : PlRun) (e : PlEvent) :
    (s.step cfg minDiskAck e).p.rToChkCnt = s.p.rToChkCnt - [e].countP PlEvent.isTimeout := by
  cases e with
  | ack now result bkIdx dnLocIdx =>
    refine Eq.trans ?_ (Int.sub_zero _).symm
    rcases endfnBody_cases minDiskAck now s.p result bkIdx dnLocIdx with ⟨-, -, -, hvis⟩ | ⟨-, ⟨-, -, hvis⟩ | ⟨-, hvis⟩⟩
    all_goals exact congrArg Visible.rToChkCnt hvis
  | timeout now =>
    change (s.p.toHandlerGut cfg now).rToChkCnt = _
    rw [toHandlerGut_eq]
    refine (congrArg Visible.rToChkCnt (toHandlerBody_visible cfg now s.p).2).trans ?_
    dsimp only
    split_ifs
    · exact rToChkCnt_aloneVisible _
    · rfl
  | free => exact (congrArg Visible.rToChkCnt (visible_freePlReq s.p)).trans (Int.sub_zero _).symm

theorem rToChkCnt_exec (cfg : ToConfig) (minDiskAck : Nat) (p : PayloadReq) {es : List PlEvent}
    (h : (machine cfg minDiskAck).Legal ⟨p, 0⟩ es) :
    ((machine cfg minDiskAck).exec ⟨p, 0⟩ es).p.rToChkCnt = p.rToChkCnt - es.countP PlEvent.isTimeout := by
  refine GuardedMachine.exec_history (m := machine cfg minDiskAck)
    (R := fun past s => s.p.rToChkCnt = p.rToChkCnt - past.countP PlEvent.isTimeout) (Int.sub_zero _).symm
    (fun past s e hs _ => ?_) h
  refine (rToChkCnt_step cfg minDiskAck s e).trans ?_
  rw [hs, List.countP_append]
  omega

/-- A firing of the timer does what it should exactly when the count is not exhausted and the handler does not
give up a write of which the user was told. At the first firing in a run of a new request, and there is no other,
the count is not exhausted. -/
theorem timeout_ok_iff (cfg : ToConfig) (now : UInt64) :
    (∀ p : PayloadReq, TimeoutOk p (p.toHandlerGut cfg now) ↔ ¬ p.Exhausted ∧ ¬ p.WaitOver cfg now) ∧
      ∀ (minDiskAck : Nat) (p : PayloadReq) (es : List PlEvent), p.rToChkCnt = plReqReadToCnt →
        (machine cfg minDiskAck).Legal ⟨p, 0⟩ es → (∀ e ∈ es, e.isTimeout = false) →
        let q := ((machine cfg minDiskAck).exec ⟨p, 0⟩ es).p
        (TimeoutOk q (q.toHandlerGut cfg now) ↔ ¬ q.WaitOver cfg now) := by
  refine ⟨fun p => timeoutOk_iff, fun minDiskAck p es hnew hlegal hnone => ?_⟩
  refine timeoutOk_iff.trans (and_iff_right fun hex => ?_)
  have hcnt := hex.2
  rw [rToChkCnt_exec cfg minDiskAck p hlegal, hnew, plReqReadToCnt,
    List.countP_eq_zero.mpr fun e he => Bool.eq_false_iff.mp (hnone e he)] at hcnt
  omega

/-- A write to two replicas, and the ack of the first at 1000 jiffies, on which the user is told. -/
def newWrite : PayloadReq :=
  ((initReq .write (.init 2) true 8).genSubmitDnWriteReq 0 true).genSubmitDnWriteReq 1 true

def toldWrite : PayloadReq :=
  ((machine ⟨true, 3000, UInt64.toNat⟩ 1).exec ⟨newWrite, 0⟩ [.ack 1000 .writeOk 0 0]).p

/-- The timer fires 3000 jiffies later: the last commit bit is taken and the request is not ended. -/
theorem told_write_not_ended :
    let cfg : ToConfig := ⟨true, 3000, UInt64.toNat⟩
    let t := toldWrite.toHandlerGut cfg 4000
    (machine cfg 1).Legal ⟨newWrite, 0⟩ [.ack 1000 .writeOk 0 0] ∧ toldWrite.rToChkCnt = plReqReadToCnt ∧
      toldWrite.calls = [.ciUser 8 true] ∧ toldWrite.mdItem.ciMds = false ∧ t.mdItem.ciMds = true ∧
      t.stat = .waitIoDone ∧ t.calls = [.ciUser 8 true] ∧ t.inReqPool = true ∧ t.freed = 0 := by
  decide

/-- 2000 jiffies later the handler goes on waiting, as it should. -/
theorem timeout_ok_iff_told :
    let cfg : ToConfig := ⟨true, 3000, UInt64.toNat⟩
    TimeoutOk toldWrite (toldWrite.toHandlerGut cfg 3000) ∧ ¬ TimeoutOk toldWrite (toldWrite.toHandlerGut cfg 4000) := by
  have hearly := (timeout_ok_iff ⟨true, 3000, UInt64.toNat⟩ 3000).2 1 newWrite [.ack 1000 .writeOk 0 0] rfl
    (by decide) (by decide)
  have hlate := (timeout_ok_iff ⟨true, 3000, UInt64.toNat⟩ 4000).2 1 newWrite [.ack 1000 .writeOk 0 0] rfl
    (by decide) (by decide)
  exact ⟨hearly.mpr fun h => absurd h.2.2.2.2.2 (by decide),
    fun h => hlate.mp h ⟨by decide, by decide, by decide, by decide, by decide, by decide⟩⟩

end PlRun

structure WriteAck where
  result : UDataState
  bkIdx : Nat
  dnLocIdx : Nat
  now : UInt64

namespace PayloadReq

theorem writeDnEndfn_lost (minDiskAck : Nat) (a : WriteAck) {p q : PayloadReq} (h : StillHeld p q)
    (hu : q.mdItem.ciUser = true) (hm : q.mdItem.ciMds = true) :
    let t := q.writeDnEndfn minDiskAck a.now a.result a.bkIdx a.dnLocIdx
    StillHeld p t ∧ t.mdItem.ciUser = true ∧ t.mdItem.ciMds = true := by
  obtain ⟨hbu, hnone, hbm, hfalse, -⟩ := q.mdItem.onAckEvent_bits minDiskAck (.ack a.result a.dnLocIdx)
  obtain ⟨w, hw⟩ : ∃ w, w = (if a.result = .writeOk ∨ a.result = .diskFailure then
      ({ q with mdItem := q.mdItem.updateDnUDataStat a.dnLocIdx a.result } : PayloadReq).rmDnUdReq a.bkIdx
    else { q with mdItem := q.mdItem.updateDnUDataStat a.dnLocIdx a.result }) := ⟨_, rfl⟩
  obtain ⟨hheld, hmd⟩ : StillHeld p w ∧ w.mdItem = q.mdItem.updateDnUDataStat a.dnLocIdx a.result := by
    rw [hw]
    split_ifs <;> exact ⟨⟨h.waiting, h.reqPool, h.callerPool, h.ended, h.freed⟩, rfl⟩
  obtain ⟨r, hr⟩ : ∃ r, r = q.mdItem.onAckEvent minDiskAck (.ack a.result a.dnLocIdx) := ⟨_, rfl⟩
  have ht : q.writeDnEndfn minDiskAck a.now a.result a.bkIdx a.dnLocIdx = { w with mdItem := r.1 } := by
    have hsignal : w.mdItem.writeAckCommitResult minDiskAck a.result = r := by rw [hmd, hr]; rfl
    rw [writeDnEndfn, writeDnBody]
    dsimp only
    rw [← hw, hsignal, hr, hnone hu, hfalse hm]
    rfl
  intro t
  rw [← hr] at hbu hbm
  change t = _ at ht
  rw [ht]
  refine ⟨⟨hheld.waiting, hheld.reqPool, hheld.callerPool, hheld.ended, hheld.freed⟩, ?_, ?_⟩
  · rw [hbu, hu]
    rfl
  · rw [hbm, hm]
    rfl

/-- After such a timeout no sequence of acks ends the write: it stays in both pools for ever. -/
theorem timed_out_write_stays (minDiskAck : Nat) (h : p.WaitOver cfg now) (acks : List WriteAck) :
    StillHeld p (acks.foldl (fun q a => q.writeDnEndfn minDiskAck a.now a.result a.bkIdx a.dnLocIdx)
      (p.toHandlerGut cfg now)) := by
  have hrun (q : PayloadReq) (h : StillHeld p q) (hu : q.mdItem.ciUser = true) (hm : q.mdItem.ciMds = true) :
      StillHeld p (acks.foldl (fun q a => q.writeDnEndfn minDiskAck a.now a.result a.bkIdx a.dnLocIdx) q) := by
    induction acks generalizing q with
    | nil => exact h
    | cons a acks ih =>
      obtain ⟨h', hu', hm'⟩ := writeDnEndfn_lost minDiskAck a h hu hm
      exact ih _ h' hu' hm'
  obtain ⟨hheld, hu, hm⟩ := waitOver_held h
  exact hrun _ hheld hu hm

end PayloadReq
end DiscoClient
