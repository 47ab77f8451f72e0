import DiscoClient.Payload.CancelIds
import DiscoClient.Payload.ReleaseAck

namespace DiscoClient
open RefTrace List

namespace DnPoolView
variable {pool : DnPoolView} {ids : List Nat} {h : PlRef → Int}

theorem balanced_cancelReq (pool : DnPoolView) (id : Nat) : Balanced (pool.cancelReq id) := by
  rw [cancelReq]
  split_ifs
  · exact fun h => hold_ref_deref h (.dn id)
  · exact balanced_nil

theorem balanced_cancelReqs (pool : DnPoolView) (ids : List Nat) : Balanced (pool.cancelReqs ids) :=
  .flatMap fun id _ => pool.balanced_cancelReq id

theorem noSelfWait_cancelReqs :
    NoSelfWait h (pool.cancelReqs ids) ↔ ∀ id ∈ ids, pool.grants id = true → h (.dn id) = 0 := by
  rw [cancelReqs, noSelfWait_flatMap fun id _ => pool.balanced_cancelReq id]
  refine forall₂_congr fun id _ => ?_
  rw [cancelReq]
  split_ifs with hgrant
  · have hback : hold (hold h (.ref (.dn id))) (.deref (.dn id)) = h := hold_ref_deref h (.dn id)
    simp only [NoSelfWait, MayWait, hback, true_and, and_true, hgrant, forall_const]
  · exact ⟨fun _ hg => absurd hg hgrant, fun _ => trivial⟩

end DnPoolView

namespace PayloadReq
variable {p q : PayloadReq} {pool : DnPoolView} {ids : List Nat} {h : PlRef → Int} {r : PayloadReq × Bool}

theorem balanced_submitTrace (p q : PayloadReq) : Balanced (p.submitTrace q) :=
  .flatMap fun id _ => balanced_ref_deref (PlRef.dn id)

theorem noSelfWait_submitTrace : NoSelfWait h (p.submitTrace q) := by
  rw [submitTrace, noSelfWait_flatMap fun id _ => balanced_ref_deref (PlRef.dn id)]
  exact fun id _ => ⟨trivial, trivial, trivial⟩

theorem balanced_endTrace (pool : DnPoolView) (p : PayloadReq) (r : PayloadReq × Bool) :
    Balanced (p.endTrace pool r) := by
  refine Balanced.append (fun h => holdAll_bracket ?_ h .payload) ?_
  · exact (p.balanced_submitTrace r.1).append (pool.balanced_cancelReqs _)
  · split_ifs
    · exact (pool.balanced_cancelReqs _).append fun h => rfl
    · exact balanced_nil

/-- The IDs that are cancelled with the payload request held, and those that are cancelled when it
is freed. -/
theorem noSelfWait_endTrace :
    NoSelfWait h (p.endTrace pool r) ↔ (∀ id ∈ p.idsSince r.1, pool.grants id = true → h (.dn id) = 0) ∧
      (r.2 = true → (∀ id ∈ r.1.freeIds, pool.grants id = true → h (.dn id) = 0) ∧ h .payload = 0) := by
  have hbal : Balanced (p.submitTrace r.1 ++ pool.cancelReqs (p.idsSince r.1)) :=
    (p.balanced_submitTrace r.1).append (pool.balanced_cancelReqs _)
  have hdn (id : Nat) : hold h (.ref .payload) (.dn id) = h (.dn id) := hold_ref_of_ne (by simp)
  rw [endTrace, noSelfWait_append, noSelfWait_bracket, holdAll_bracket hbal, noSelfWait_append,
    p.balanced_submitTrace r.1, DnPoolView.noSelfWait_cancelReqs]
  simp only [hdn, noSelfWait_submitTrace, true_and]
  refine and_congr_right fun _ => ?_
  split_ifs with hfree
  · rw [freeTrace, noSelfWait_append, pool.balanced_cancelReqs, DnPoolView.noSelfWait_cancelReqs, idsSince_freePlReq]
    simp only [NoSelfWait, MayWait, and_true, hfree, forall_const]
  · exact ⟨fun _ hf => absurd hf hfree, fun _ => trivial⟩

section Handler
variable {minDiskAck : Nat} {now : UInt64} {d : DnUdReq} {result : UDataState}

def CancelsID (minDiskAck : Nat) (now : UInt64) (p : PayloadReq) (result : UDataState) (d : DnUdReq) : Prop :=
  let r := p.endfnBody minDiskAck now result d.bkIdx d.dnLocIdx
  d.id ∈ p.idsSince r.1 ∨ (r.2 = true ∧ d.id ∈ r.1.freeIds)

theorem noSelfWait_endfnTrace :
    NoSelfWait (hold 0 (.ref (.dn d.id))) (p.endfnTrace minDiskAck now pool result d.bkIdx d.dnLocIdx) ↔
      ¬ (pool.grants d.id = true ∧ p.CancelsID minDiskAck now result d) := by
  have hpl : hold (0 : PlRef → Int) (.ref (.dn d.id)) .payload = 0 := hold_ref_of_ne (by simp)
  have hdn (id : Nat) : hold (0 : PlRef → Int) (.ref (.dn d.id)) (.dn id) = 0 ↔ id ≠ d.id := by
    by_cases hid : id = d.id
    · simp [hid, hold_ref_self]
    · simp [hid, hold_ref_of_ne]
  have hids (ids : List Nat) : (∀ id ∈ ids, pool.grants id = true → id ≠ d.id) ↔ (pool.grants d.id = true → d.id ∉ ids) :=
    ⟨fun hall hg hmem => hall _ hmem hg rfl, fun hnot id hid hg heq => hnot (heq ▸ hg) (heq ▸ hid)⟩
  rw [endfnTrace, noSelfWait_endTrace]
  simp only [hdn, hpl, and_true, hids, CancelsID]
  tauto

theorem noSelfWait_handlerTrace {o : AckOutcome} (ho : o.doFree = true → o.derefs = true) :
    NoSelfWait 0 (p.handlerTrace minDiskAck now pool d o) ↔
      ∀ result ∈ o.results, ¬ (pool.grants d.id = true ∧ p.CancelsID minDiskAck now result d) := by
  have hbal (results : List UDataState) : ∀ result ∈ results,
      Balanced (p.endfnTrace minDiskAck now pool result d.bkIdx d.dnLocIdx) := fun _ _ => balanced_endTrace _ _ _
  rw [handlerTrace, cons_append, cons_append, NoSelfWait, noSelfWait_append, noSelfWait_append,
    holdAll_append, Balanced.flatMap (hbal _), noSelfWait_flatMap (hbal _)]
  simp only [noSelfWait_endfnTrace, MayWait, true_and]
  refine ⟨fun h => h.1.1, fun h => ⟨⟨h, ?_⟩, ?_⟩⟩
  · split_ifs
    · exact ⟨trivial, trivial⟩
    · trivial
  · by_cases hfree : o.doFree = true
    · rw [if_pos (ho hfree), if_pos hfree]
      exact ⟨congrFun (hold_ref_deref 0 _) _, trivial⟩
    · rw [if_neg hfree]
      trivial

def Lacks (p : PayloadReq) (id : Nat) : Prop := ∀ i, p.arrDnUdReq i ≠ some id

theorem lacks_rmDnUdReq {id bkIdx : Nat} (hown : ∀ i, p.arrDnUdReq i = some id → i = bkIdx) :
    (p.rmDnUdReq bkIdx).Lacks id := by
  intro i hi
  change Function.update p.arrDnUdReq bkIdx none i = some id at hi
  rw [Function.update_apply] at hi
  split_ifs at hi with hbk
  exact hbk (hown i hi)

namespace Lacks
variable {id bkIdx : Nat}

theorem not_mem (hp : p.Lacks id) (bkSkip : Option Nat) : id ∉ p.bucketIds bkSkip := fun hmem => by
  obtain ⟨i, -, -, hi⟩ := mem_bucketIds.mp hmem
  exact hp i hi

theorem not_mem_cancelIds (hp : p.Lacks id) (bkSkip : Option Nat) : id ∉ p.cancelIds bkSkip := by
  rw [cancelIds]
  split_ifs
  all_goals first | exact not_mem_nil | exact hp.not_mem _

theorem not_mem_freeIds (hp : p.Lacks id) : id ∉ p.freeIds := by
  rw [freeIds]
  split_ifs
  · exact not_mem_nil
  · exact hp.not_mem _

theorem firstHbidErr (hp : p.Lacks id) :
    id ∉ p.idsSince (p.firstHbidErr bkIdx).1 ∧ id ∉ (p.firstHbidErr bkIdx).1.freeIds := by
  rw [PayloadReq.firstHbidErr]
  dsimp only
  split_ifs
  · obtain ⟨q, hq⟩ : ∃ q, q = ({ p with stat := (plReqUpdateState p.stat .ciCaller).1 } : PayloadReq).cancelTimer := ⟨_, rfl⟩
    have hlacks : q.Lacks id := by rw [hq]; exact hp
    have hids : p.idsSince (q.cancelDnUdReq (some bkIdx)) = q.cancelIds (some bkIdx) := by
      rw [← idsSince_cancelDnUdReq, idsSince, idsSince, show q.cancelled = p.cancelled by rw [hq]; rfl]
    rw [← hq]
    refine ⟨?_, not_mem_freeIds fun i hi => hlacks i (arr_cancelDnUdReq hi)⟩
    change id ∉ p.idsSince (q.cancelDnUdReq (some bkIdx))
    rw [hids]
    exact hlacks.not_mem_cancelIds _
  · refine ⟨?_, not_mem_freeIds hp⟩
    change id ∉ p.idsSince p
    rw [idsSince_self]
    exact not_mem_nil

end Lacks

theorem not_cancelsID_read (hread : p.opcode = .read) (hown : ∀ i, p.arrDnUdReq i = some d.id → i = d.bkIdx)
    (hr : result = .readNa ∨ result = .writeMemOk) : ¬ p.CancelsID minDiskAck now result d := by
  obtain ⟨q, hq⟩ : ∃ q, q = ({ p with mdItem := p.mdItem.updateDnUDataStat d.dnLocIdx result } : PayloadReq) := ⟨_, rfl⟩
  have hlacks : (q.rmDnUdReq d.bkIdx).Lacks d.id := lacks_rmDnUdReq (by rw [hq]; exact hown)
  have hsince (r : PayloadReq) : p.idsSince r = q.idsSince r := by rw [hq]; rfl
  have hsubmit : q.idsSince (q.submitDnUdReadReq d.dnLocIdx).1 = [] := by
    rw [idsSince, cancelled_submitDnUdReadReq, drop_length]
  have hnone {r : PayloadReq × Bool} (hfree : r.2 = false) (h : q.idsSince r.1 = []) :
      ¬ (d.id ∈ q.idsSince r.1 ∨ (r.2 = true ∧ d.id ∈ r.1.freeIds)) := by
    rw [h, hfree]
    exact fun h => h.elim not_mem_nil fun h => Bool.false_ne_true h.1
  rw [CancelsID, endfnBody, hread]
  dsimp only
  rw [hsince, readDnBody, ← hq]
  split_ifs
  · rcases hr with rfl | rfl
    · exact hnone rfl hsubmit
    · exact hnone rfl q.idsSince_self
  · rcases hr with rfl | rfl
    · by_cases hrep : q.mdItem.numReplica > 1
      · rw [readDnNonTrueMD, if_pos hrep]
        exact hnone rfl hsubmit
      · rw [readDnNonTrueMD, if_neg hrep]
        exact fun h => h.elim hlacks.firstHbidErr.1 fun h => hlacks.firstHbidErr.2 h.2
    · exact hnone rfl q.idsSince_self

theorem mem_freeIds_cancelDnUdReq {id bkIdx : Nat} (hown : ∀ i, p.arrDnUdReq i = some id → i = bkIdx) :
    id ∈ (p.cancelDnUdReq (some bkIdx)).freeIds ↔ bkIdx < maxNumReplica ∧ p.arrDnUdReq bkIdx = some id ∧
      (p.numDnUdReq = 1 ∨ p.numDnUdReq ≠ (p.bucketIds (some bkIdx)).length) := by
  have hbucket (q : PayloadReq) (hq : ∀ i, q.arrDnUdReq i = some id → p.arrDnUdReq i = some id)
      (hbk : q.arrDnUdReq bkIdx = p.arrDnUdReq bkIdx) :
      id ∈ q.bucketIds none ↔ bkIdx < maxNumReplica ∧ p.arrDnUdReq bkIdx = some id := by
    rw [mem_bucketIds]
    constructor
    · rintro ⟨i, hi, -, harr⟩
      have hpi := hq i harr
      rw [hown i hpi] at hi hpi
      exact ⟨hi, hpi⟩
    · rintro ⟨hlt, harr⟩
      exact ⟨bkIdx, hlt, by simp, hbk.trans harr⟩
  rw [cancelDnUdReq, if_neg (Option.some_ne_none bkIdx)]
  split_ifs with hnum
  · rw [freeIds, if_neg (by omega), hbucket p (fun _ h => h) rfl]
    simp only [hnum, true_or, and_true]
  · have hc := cancelled_cancelBuckets (some bkIdx) p
    have hcount : (p.cancelBuckets (some bkIdx)).numDnUdReq = p.numDnUdReq - (p.bucketIds (some bkIdx)).length := hc.counted
    rw [freeIds, hcount]
    split_ifs with hzero
    · simp only [not_mem_nil, false_iff]
      rintro ⟨-, -, h | h⟩
      · exact hnum h
      · exact h (by omega)
    · have hne : p.numDnUdReq ≠ (p.bucketIds (some bkIdx)).length := by omega
      rw [hbucket]
      · simp only [hne, ne_eq, not_false_eq_true, or_true, and_true]
      · intro i hi
        rw [hc.arr] at hi
        split_ifs at hi
        exact hi
      · rw [hc.arr, if_neg fun h => h.2 rfl]

/-- The write has its last result: MData_writeAck_commitResult lets it commit to the name node. -/
def Commits (minDiskAck : Nat) (p : PayloadReq) (result : UDataState) (dnLocIdx : Nat) : Bool :=
  ((p.mdItem.updateDnUDataStat dnLocIdx result).writeAckCommitResult minDiskAck result).2.ciMds

theorem writeDnBody_kept (minDiskAck : Nat) (now : UInt64) (p : PayloadReq) (bkIdx dnLocIdx : Nat)
    (hr : ¬ (result = .writeOk ∨ result = .diskFailure)) :
    let r := p.writeDnBody minDiskAck now result bkIdx dnLocIdx
    (r.2 = true ↔ p.Commits minDiskAck result dnLocIdx = true ∧ p.Waiting) ∧
      ((r.2 = false ∧ p.idsSince r.1 = []) ∨
        (r.2 = true ∧ ∃ t : PayloadReq, t.arrDnUdReq = p.arrDnUdReq ∧ t.numDnUdReq = p.numDnUdReq ∧
          t.cancelled = p.cancelled ∧ p.idsSince r.1 = p.idsSince (t.cancelDnUdReq (some bkIdx)) ∧
          r.1.freeIds = (t.cancelDnUdReq (some bkIdx)).freeIds)) := by
  rw [writeDnBody, Commits]
  dsimp only
  rw [if_neg hr]
  obtain ⟨w, hw⟩ : ∃ w, w = (p.mdItem.updateDnUDataStat dnLocIdx result).writeAckCommitResult minDiskAck result := ⟨_, rfl⟩
  obtain ⟨t, ht⟩ : ∃ t, t = ({ p with mdItem := w.1 } : PayloadReq).ciUserCallerReq now w.2.ciUser := ⟨_, rfl⟩
  have hkeep : t.arrDnUdReq = p.arrDnUdReq ∧ t.numDnUdReq = p.numDnUdReq ∧ t.stat = p.stat ∧ t.cancelled = p.cancelled := by
    rw [ht]
    cases w.2.ciUser <;> exact ⟨rfl, rfl, rfl, rfl⟩
  obtain ⟨harr, hnum, hstat, hcan⟩ := hkeep
  rw [← hw, ← ht, hstat]
  have hfalse : ¬ (false = true) := Bool.false_ne_true
  have hsince : p.idsSince t = [] := by rw [idsSince, hcan, drop_length]
  cases w.2.ciMds with
  | false => exact ⟨⟨fun h => absurd h hfalse, fun h => absurd h.1 hfalse⟩, .inl ⟨rfl, hsince⟩⟩
  | true =>
    by_cases hwait : p.Waiting
    · rw [updateState_ciCaller hwait]
      refine ⟨⟨fun _ => ⟨rfl, hwait⟩, fun _ => rfl⟩, .inr ⟨rfl, ?_⟩⟩
      exact ⟨({ t with stat := .ciCaller } : PayloadReq).cancelTimer.rmReqPool, harr, hnum, hcan, rfl, rfl⟩
    · rw [updateState_ciCaller_not hwait]
      exact ⟨⟨fun h => absurd h hfalse, fun h => absurd h.2 hwait⟩, .inl ⟨rfl, hsince⟩⟩

theorem cancelsID_write_iff (hwrite : p.opcode = .write) (hown : ∀ i, p.arrDnUdReq i = some d.id → i = d.bkIdx)
    (hr : ¬ (result = .writeOk ∨ result = .diskFailure)) :
    p.CancelsID minDiskAck now result d ↔ p.Commits minDiskAck result d.dnLocIdx = true ∧ p.Waiting ∧
      d.bkIdx < maxNumReplica ∧ p.arrDnUdReq d.bkIdx = some d.id ∧
        (p.numDnUdReq = 1 ∨ p.numDnUdReq ≠ (p.bucketIds (some d.bkIdx)).length) := by
  obtain ⟨hfree, hids⟩ := writeDnBody_kept minDiskAck now p d.bkIdx d.dnLocIdx hr
  have hskip : d.id ∉ p.cancelIds (some d.bkIdx) := by
    rw [cancelIds]
    split_ifs
    all_goals first
    | exact not_mem_nil
    | intro hmem
      obtain ⟨i, -, hne, hi⟩ := mem_bucketIds.mp hmem
      exact hne (congrArg some (hown i hi).symm)
  rw [CancelsID, endfnBody, hwrite]
  dsimp only
  rw [← and_assoc, ← hfree]
  rcases hids with ⟨hf, hids⟩ | ⟨hf, t, harr, hnum, hcan, hids, hfreeIds⟩
  · rw [hids, hf]
    exact ⟨fun h => h.elim (fun h => absurd h not_mem_nil) fun h => absurd h.1 Bool.false_ne_true,
      fun h => absurd h.1 Bool.false_ne_true⟩
  · have hcancel : p.idsSince (t.cancelDnUdReq (some d.bkIdx)) = p.cancelIds (some d.bkIdx) := by
      rw [idsSince, ← hcan]
      change t.idsSince _ = _
      rw [idsSince_cancelDnUdReq, cancelIds, cancelIds, bucketIds, bucketIds, idsIn, idsIn, harr, hnum]
    have hmem : d.id ∈ (t.cancelDnUdReq (some d.bkIdx)).freeIds ↔ _ :=
      mem_freeIds_cancelDnUdReq (by rw [harr]; exact hown)
    rw [bucketIds, idsIn, harr, hnum] at hmem
    rw [hids, hcancel, hfreeIds, hmem]
    exact ⟨fun h => h.elim (fun h => absurd h hskip) id, .inr⟩

end Handler

section Timeout

theorem noSelfWait_freeTrace : NoSelfWait 0 (p.freeTrace pool) := by
  rw [freeTrace, noSelfWait_append, pool.balanced_cancelReqs, DnPoolView.noSelfWait_cancelReqs]
  exact ⟨fun _ _ _ => rfl, rfl, trivial⟩

theorem noSelfWait_held {es : PlTrace} (hes : Balanced es) (hheld : NoSelfWait (hold 0 (.ref .payload)) es) :
    NoSelfWait 0 (.ref .payload :: es ++ .deref .payload :: if r.2 then r.1.freeTrace pool else []) := by
  rw [append_cons]
  change NoSelfWait 0 (.ref .payload :: (es ++ [.deref .payload]) ++ _)
  rw [noSelfWait_append, noSelfWait_bracket, holdAll_bracket hes]
  refine ⟨hheld, ?_⟩
  split_ifs
  · exact noSelfWait_freeTrace
  · trivial

theorem rToTryReplica_returns (htimer : p.timerOn = true) (hret : p.rToTryReplica.2 = true) :
    (p.readDnBody .readNa p.lastReadDnBkIdx p.lastReadReplicaIdx).2 = false := by
  cases hfree : (p.readDnBody .readNa p.lastReadDnBkIdx p.lastReadReplicaIdx).2 with
  | false => rfl
  | true =>
    rw [rToTryReplica] at hret
    dsimp only at hret
    rw [hfree, htimer] at hret
    cases hret

theorem toHandlerTrace_cases (cfg : ToConfig) (now : UInt64) (harmed : p.Waiting → p.timerOn = true) :
    p.toHandlerTrace cfg now pool = ([.ref .payload], false) ∨
      ∃ es, p.toHandlerTrace cfg now pool = (es, true) ∧ Balanced es ∧ NoSelfWait (hold 0 (.ref .payload)) es := by
  have hdn (id : Nat) : hold (0 : PlRef → Int) (.ref .payload) (.dn id) = 0 := hold_ref_of_ne (by simp)
  rw [toHandlerTrace]
  split_ifs with hfire hret
  · refine .inr ⟨_, rfl, balanced_endTrace _ _ _, ?_⟩
    have hwait : p.Waiting := by
      cases hs : p.stat with
      | waitIoDone => exact .inl hs
      | init | ciCaller | toCheck =>
        rw [hs] at hfire
        exact absurd hfire.1 (by decide)
    have hfree := rToTryReplica_returns (p := p.toFire) (harmed hwait) hret
    rw [noSelfWait_endTrace]
    exact ⟨fun id _ _ => hdn id, fun h => absurd (hfree.symm.trans h) Bool.false_ne_true⟩
  · exact .inl rfl
  · exact .inr ⟨_, rfl, pool.balanced_cancelReqs _, DnPoolView.noSelfWait_cancelReqs.mpr fun id _ _ => hdn id⟩

/-- The handler of the timer waits for no reference of its own. -/
theorem noSelfWait_timeoutTrace (cfg : ToConfig) (now : UInt64) (harmed : p.Waiting → p.timerOn = true) :
    NoSelfWait 0 (p.timeoutTrace cfg now pool) := by
  rw [timeoutTrace]
  rcases toHandlerTrace_cases cfg now harmed with hhang | ⟨es, hes, hbal, hheld⟩
  · rw [hhang]
    exact ⟨trivial, trivial, trivial⟩
  · rw [hes]
    exact noSelfWait_held (r := p.toHandlerBody cfg now) hbal hheld

end Timeout

/-- A write ends with a result that leaves its own bucket occupied, and its request can still be cancelled.
-/
def CancelsOwn (minDiskAck : Nat) (pool : DnPoolView) (p : PayloadReq) (d : DnUdReq) (result : UDataState) : Prop :=
  p.opcode = .write ∧ pool.grants d.id = true ∧ p.Commits minDiskAck result d.dnLocIdx = true ∧ p.Waiting ∧
    d.bkIdx < maxNumReplica ∧ p.arrDnUdReq d.bkIdx = some d.id ∧
      (p.numDnUdReq = 1 ∨ p.numDnUdReq ≠ (p.bucketIds (some d.bkIdx)).length)

def SelfWaits (minDiskAck : Nat) (pool : DnPoolView) (p : PayloadReq) (d : DnUdReq) : PlEntry → Prop
  | .ack found _ _ resp => found = true ∧ resp.isMemAck = true ∧ p.CancelsOwn minDiskAck pool d .writeMemOk
  | .connLost lostLong => lostLong = true ∧ p.CancelsOwn minDiskAck pool d .writeFail
  | .timeout => False

instance (minDiskAck : Nat) (pool : DnPoolView) (p : PayloadReq) (d : DnUdReq) (result : UDataState) :
    Decidable (p.CancelsOwn minDiskAck pool d result) := inferInstanceAs (Decidable (_ ∧ _))

instance (minDiskAck : Nat) (pool : DnPoolView) (p : PayloadReq) (d : DnUdReq) :
    (e : PlEntry) → Decidable (p.SelfWaits minDiskAck pool d e)
  | .ack _ _ _ _ | .connLost _ => inferInstanceAs (Decidable (_ ∧ _))
  | .timeout => inferInstanceAs (Decidable False)

/-- The own request is cancelled only by a write that its result leaves in its bucket. -/
theorem cancelsOwn_iff {minDiskAck : Nat} {now : UInt64} {d : DnUdReq} {result : UDataState}
    (hown : ∀ i, p.arrDnUdReq i = some d.id → i = d.bkIdx) (hr : result = .writeMemOk ∨ result = .writeFail)
    (hread : p.opcode = .read → result = .writeMemOk) :
    pool.grants d.id = true ∧ p.CancelsID minDiskAck now result d ↔ p.CancelsOwn minDiskAck pool d result := by
  rw [CancelsOwn]
  cases hop : p.opcode with
  | read =>
    refine iff_of_false (fun h => ?_) fun h => absurd h.1 (by decide)
    exact not_cancelsID_read hop hown (.inr (hread hop)) h.2
  | write =>
    rw [cancelsID_write_iff hop hown (by rcases hr with rfl | rfl <;> decide)]
    simp only [true_and]

/-- On every way a thread can come to a payload request, it waits for its own reference exactly on these
entries. A timer that fires for a request still waiting is on. -/
theorem no_self_wait_iff (cfg : ToConfig) (minDiskAck : Nat) (now : UInt64) (pool : DnPoolView) (p : PayloadReq)
    (d : p.OwnDnReq) (e : PlEntry) (harmed : e = .timeout → p.Waiting → p.timerOn = true) :
    NoSelfWait 0 (p.entryTrace cfg minDiskAck now pool d.toDnUdReq e) ↔ ¬ p.SelfWaits minDiskAck pool d.toDnUdReq e := by
  cases e with
  | ack found eij opcode resp =>
    cases found with
    | false => exact iff_of_true ⟨trivial, trivial, trivial⟩ fun h => absurd h.1 Bool.false_ne_true
    | true =>
      rw [entryTrace, noSelfWait_handlerTrace (processDnAck_derefs eij opcode resp)]
      cases hmem : resp.isMemAck with
      | false =>
        -- the request of a final ack is no longer in the pool
        have hnot : ¬ DnPoolView.grants (Function.update pool d.id none) d.id = true := by
          simp [DnPoolView.grants]
        exact iff_of_true (fun _ _ h => hnot h.1) fun h => absurd (h.2.1.symm.trans hmem) (by decide)
      | true =>
        rw [if_pos rfl, processDnAck_memAck hmem, forall_mem_singleton,
          cancelsOwn_iff d.own (.inl rfl) fun _ => rfl]
        exact not_congr ⟨fun h => ⟨rfl, hmem, h⟩, fun h => h.2.2⟩
  | connLost lostLong =>
    rw [entryTrace, noSelfWait_handlerTrace fun _ => connLostOutcome_derefs p.opcode lostLong]
    cases hop : p.opcode with
    | read =>
      rw [show (connLostOutcome .read lostLong).results = [.readNa] from rfl, forall_mem_singleton]
      refine iff_of_true (fun h => not_cancelsID_read hop d.own (.inl rfl) h.2) fun h => ?_
      rw [h.2.1] at hop
      cases hop
    | write =>
      cases lostLong with
      | false => exact iff_of_true (fun _ h => absurd h not_mem_nil) fun h => absurd h.1 Bool.false_ne_true
      | true =>
        rw [show (connLostOutcome .write true).results = [.writeFail] from rfl, forall_mem_singleton,
          cancelsOwn_iff d.own (.inr rfl) fun h => absurd (hop.symm.trans h) (by decide)]
        exact not_congr ⟨fun h => ⟨rfl, h⟩, fun h => h.2⟩
  | timeout => exact iff_of_true (noSelfWait_timeoutTrace cfg now (harmed rfl)) id

def writeOneDown : PayloadReq :=
  (((initReq .write (.init 2) true 1).genSubmitDnWriteReq 0 true).genSubmitDnWriteReq 1 true).writeDnEndfn 1 0 .writeOk 0 0

/-- The connection to the second replica of the write is lost. -/
theorem thread_waits_for_itself :
    ⟨2, 1, 1⟩ ∈ writeOneDown.dnReqs ∧
      ¬ NoSelfWait 0 (writeOneDown.entryTrace ⟨true, 0, UInt64.toNat⟩ 1 0 (fun _ => some .waitResp) ⟨2, 1, 1⟩
        (.connLost true)) := by
  decide

/-- The timer of a read with one replica fires: its handler waits for no reference, although it does not
return. -/
theorem no_self_wait_iff_timer :
    let p := (initReq .read (.init 1) false 1).onBucketEvent (.submitRead 0 true)
    p.toFire.rToTryReplica.2 = false ∧
      NoSelfWait 0 (p.entryTrace ⟨true, 0, UInt64.toNat⟩ 1 0 (fun _ => some .waitResp) ⟨1, 0, 0⟩ .timeout) :=
  ⟨by decide, (no_self_wait_iff ⟨true, 0, UInt64.toNat⟩ 1 0 (fun _ => some .waitResp) _
    (((Owned.initReq .read (.init 1) false 1).step (.submitRead 0 true)).ownDnReq (d := ⟨1, 0, 0⟩) (by decide)) .timeout
    fun _ _ => rfl).mpr id⟩

end PayloadReq
end DiscoClient
