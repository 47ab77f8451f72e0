import DiscoClient.Payload.Release

namespace DiscoClient
namespace PayloadReq
variable {p : PayloadReq}

/-- The result makes a read without true metadata report a mismatch: _PLReq_1st_hbidErr. -/
def ReportsMdErr (p : PayloadReq) (result : UDataState) : Prop :=
  p.opcode = .read ∧ p.trueMD = false ∧ p.Waiting ∧
    (result = .mdErr ∨ (result = .readNa ∨ result = .diskFailure) ∧ p.mdItem.numReplica ≤ 1)

instance (result : UDataState) : Decidable (p.ReportsMdErr result) := inferInstanceAs (Decidable (_ ∧ _ ∧ _ ∧ _))

def TimesOutAlone (p : PayloadReq) : Prop :=
  p.opcode = .read ∧ p.trueMD = false ∧ p.stat = .waitIoDone ∧ 1 < p.rToChkCnt ∧ p.mdItem.numReplica ≤ 1

instance : Decidable p.TimesOutAlone := inferInstanceAs (Decidable (_ ∧ _ ∧ _ ∧ _ ∧ _))

/-- A result ends the request from inside its pools if it reports a mismatch, otherwise outside or not at
all. -/
def AckEnds (p : PayloadReq) (reports : Prop) (r : PayloadReq × Bool) : Prop :=
  (reports ∧ Ends p r p.inReqPool p.inCallerPool) ∨ (¬ reports ∧ (Ends p r false false ∨ GoesOn p r))

theorem readDnTrueMDRep_cases (p : PayloadReq) (result : UDataState) (bkIdx dnLocIdx : Nat) :
    Ends p (p.readDnTrueMDRep result bkIdx dnLocIdx) false false ∨
      GoesOn p (p.readDnTrueMDRep result bkIdx dnLocIdx) := by
  cases result with
  | readOk => exact readOk_cases p bkIdx
  | readNa => exact .inr ⟨rfl, visible_submitDnUdReadReq p dnLocIdx⟩
  | mdErr => exact readNextDn_cases (p.rmDnUdReq bkIdx) bkIdx dnLocIdx
  | diskFailure => exact readNextDn_cases { p.rmDnUdReq bkIdx with numReadFailDn := p.numReadFailDn + 1 } bkIdx dnLocIdx
  | init | writeOk | writeMemOk | writeFail | operationErr => exact .inr ⟨rfl, rfl⟩

theorem AckEnds.report {reports : Prop} {r : PayloadReq × Bool} (hiff : reports ↔ p.Waiting)
    (h : if p.Waiting then Ends p r p.inReqPool p.inCallerPool else GoesOn p r) : AckEnds p reports r := by
  split_ifs at h with hw
  · exact .inl ⟨hiff.mpr hw, h⟩
  · exact .inr ⟨fun hr => hw (hiff.mp hr), .inr h⟩

theorem readDnNonTrueMD_cases {result : UDataState} (hread : p.opcode = .read) (htrue : p.trueMD = false)
    (bkIdx dnLocIdx : Nat) : AckEnds p (p.ReportsMdErr result) (p.readDnNonTrueMD result bkIdx dnLocIdx) := by
  have hreports (h : result = .mdErr ∨ (result = .readNa ∨ result = .diskFailure) ∧ p.mdItem.numReplica ≤ 1) :
      p.ReportsMdErr result ↔ p.Waiting :=
    ⟨fun hr => hr.2.2.1, fun hw => ⟨hread, htrue, hw, h⟩⟩
  have hnot (h : ¬ (result = .mdErr ∨ (result = .readNa ∨ result = .diskFailure) ∧ p.mdItem.numReplica ≤ 1)) :
      ¬ p.ReportsMdErr result := fun hr => h hr.2.2.2
  cases result with
  | readOk => exact .inr ⟨hnot (by simp), readOk_cases p bkIdx⟩
  | readNa =>
    rw [readDnNonTrueMD]
    split_ifs with hrep
    · exact .inr ⟨hnot (by simpa using hrep), .inr ⟨rfl, visible_submitDnUdReadReq p dnLocIdx⟩⟩
    · exact .report (hreports (by simpa using hrep)) (firstHbidErr_cases (p.rmDnUdReq bkIdx) bkIdx)
  | mdErr => exact .report (hreports (.inl rfl)) (firstHbidErr_cases (p.rmDnUdReq bkIdx) bkIdx)
  | diskFailure =>
    rw [readDnNonTrueMD]
    dsimp only
    split_ifs with hrep
    · exact .inr ⟨hnot (by simpa using (show 1 < p.mdItem.numReplica from hrep)), readNextDn_cases
        { p.rmDnUdReq bkIdx with numReadFailDn := p.numReadFailDn + 1 } bkIdx dnLocIdx⟩
    · exact .report (hreports (by simpa using (show ¬ 1 < p.mdItem.numReplica from hrep)))
        (firstHbidErr_cases { p.rmDnUdReq bkIdx with numReadFailDn := p.numReadFailDn + 1 } bkIdx)
  | init | writeOk | writeMemOk | writeFail | operationErr => exact .inr ⟨hnot (by simp), .inr ⟨rfl, rfl⟩⟩

theorem readDnBody_cases (hread : p.opcode = .read) (result : UDataState) (bkIdx dnLocIdx : Nat) :
    AckEnds p (p.ReportsMdErr result) (p.readDnBody result bkIdx dnLocIdx) := by
  obtain ⟨q, hq⟩ : ∃ q, q = ({ p with mdItem := p.mdItem.updateDnUDataStat dnLocIdx result } : PayloadReq) := ⟨_, rfl⟩
  rw [readDnBody, ← hq]
  split_ifs with htrue
  · rw [hq] at htrue ⊢
    exact .inr ⟨fun hr => Bool.false_ne_true (hr.2.1.symm.trans htrue),
      readDnTrueMDRep_cases { p with mdItem := p.mdItem.updateDnUDataStat dnLocIdx result } result bkIdx dnLocIdx⟩
  · rw [hq] at htrue ⊢
    exact readDnNonTrueMD_cases (p := { p with mdItem := p.mdItem.updateDnUDataStat dnLocIdx result }) hread
      (Bool.eq_false_iff.mpr htrue) bkIdx dnLocIdx

theorem writeDnBody_cases (minDiskAck : Nat) (now : UInt64) (p : PayloadReq) (result : UDataState) (bkIdx dnLocIdx : Nat) :
    Ends p (p.writeDnBody minDiskAck now result bkIdx dnLocIdx) false false ∨
      GoesOn p (p.writeDnBody minDiskAck now result bkIdx dnLocIdx) := by
  rw [writeDnBody]
  dsimp only
  obtain ⟨q, hq⟩ : ∃ q, q = (if result = .writeOk ∨ result = .diskFailure then
    ({ p with mdItem := p.mdItem.updateDnUDataStat dnLocIdx result } : PayloadReq).rmDnUdReq bkIdx else
    { p with mdItem := p.mdItem.updateDnUDataStat dnLocIdx result }) := ⟨_, rfl⟩
  rw [← hq]
  obtain ⟨t, ht⟩ : ∃ t, t = ({ q with mdItem := (q.mdItem.writeAckCommitResult minDiskAck result).1 } :
    PayloadReq).ciUserCallerReq now (q.mdItem.writeAckCommitResult minDiskAck result).2.ciUser := ⟨_, rfl⟩
  have hvis : t.visible = p.visible := by
    rw [ht, visible_ciUserCallerReq, hq]
    split_ifs <;> rfl
  rw [← ht]
  split_ifs with hmds hact
  · have hw : t.Waiting := by
      by_contra hnot
      rw [updateState_ciCaller_not hnot] at hact
      cases hact
    refine .inl ⟨(waiting_congr hvis).mp hw, rfl, ?_⟩
    rw [updateState_ciCaller hw, visible_call, visible_rmCallerReq, visible_cancelDnUdReq, ← hvis]
    rfl
  · have hw : ¬ t.Waiting := fun hw => hact (by rw [updateState_ciCaller hw])
    rw [updateState_ciCaller_not hw]
    exact .inr ⟨rfl, hvis⟩
  · exact .inr ⟨rfl, hvis⟩

theorem endfnBody_cases (minDiskAck : Nat) (now : UInt64) (p : PayloadReq) (result : UDataState) (bkIdx dnLocIdx : Nat) :
    AckEnds p (p.ReportsMdErr result) (p.endfnBody minDiskAck now result bkIdx dnLocIdx) := by
  rw [endfnBody]
  cases hop : p.opcode with
  | read => exact readDnBody_cases hop result bkIdx dnLocIdx
  | write =>
    refine .inr ⟨fun hr => ?_, writeDnBody_cases minDiskAck now p result bkIdx dnLocIdx⟩
    rw [hr.1] at hop
    cases hop

theorem readDnBody_readNa (hrep : ¬ (p.trueMD = false ∧ p.mdItem.numReplica ≤ 1)) (bkIdx dnLocIdx : Nat) :
    GoesOn p (p.readDnBody .readNa bkIdx dnLocIdx) := by
  obtain ⟨q, hq⟩ : ∃ q, q = ({ p with mdItem := p.mdItem.updateDnUDataStat dnLocIdx .readNa } : PayloadReq) := ⟨_, rfl⟩
  have hsubmit : (q.submitDnUdReadReq dnLocIdx).1.visible = p.visible := by rw [visible_submitDnUdReadReq, hq]; rfl
  rw [readDnBody, ← hq]
  split_ifs with htrue
  · exact ⟨rfl, hsubmit⟩
  · rw [readDnNonTrueMD, if_pos]
    · exact ⟨rfl, hsubmit⟩
    · rw [hq] at htrue ⊢
      exact Nat.not_le.mp fun hle => hrep ⟨Bool.eq_false_iff.mpr htrue, hle⟩

theorem readDnBody_readNa_alone (hw : p.Waiting) (htrue : p.trueMD = false) (hrep : p.mdItem.numReplica ≤ 1) :
    p.readDnBody .readNa p.lastReadDnBkIdx p.lastReadReplicaIdx =
      ((p.untilCancelTimer.cancelDnUdReq (some p.lastReadDnBkIdx)).call (.reportMDErr p.numHbids), true) := by
  obtain ⟨q, hq⟩ : ∃ q, q = ({ p with mdItem := p.mdItem.updateDnUDataStat p.lastReadReplicaIdx .readNa } : PayloadReq) :=
    ⟨_, rfl⟩
  have hstat : (q.rmDnUdReq p.lastReadDnBkIdx).stat = p.stat := by rw [hq]; rfl
  rw [readDnBody, ← hq, if_neg (by rw [hq]; exact Bool.eq_false_iff.mp htrue), readDnNonTrueMD,
    if_neg (by rw [hq]; exact Nat.not_lt.mpr hrep), firstHbidErr, hstat, updateState_ciCaller hw, hq]
  rfl

theorem rToTryReplica_alone (hw : p.Waiting) (htrue : p.trueMD = false) (hrep : p.mdItem.numReplica ≤ 1) :
    p.rToTryReplica = if p.timerOn then (p.untilCancelTimer, false)
      else (((p.untilCancelTimer.cancelDnUdReq (some p.lastReadDnBkIdx)).call (.reportMDErr p.numHbids)).freePlReq, true) := by
  rw [rToTryReplica, readDnBody_readNa_alone hw htrue hrep]
  exact if_pos rfl

theorem rToTryReplica_other (hrep : ¬ (p.trueMD = false ∧ p.mdItem.numReplica ≤ 1)) :
    p.rToTryReplica = ((p.readDnBody .readNa p.lastReadDnBkIdx p.lastReadReplicaIdx).1, true) := by
  rw [rToTryReplica]
  dsimp only
  rw [if_neg (by rw [(readDnBody_readNa hrep _ _).1]; exact Bool.false_ne_true)]

theorem writeToHandle_visible (cfg : ToConfig) (now : UInt64) (h : p.stat = .toCheck) :
    (p.writeToHandle cfg now).2 = false ∧
      (p.writeToHandle cfg now).1.visible = { p.visible with stat := .waitIoDone } := by
  rw [writeToHandle_eq h]
  refine ⟨rfl, ?_⟩
  split_ifs
  · rfl
  · rw [visible_withStat, visible_ciUserCallerReq]
    rfl

/-- What is seen of a request when its timer fires for a read that has no other replica: the handler hangs with
the request claimed, or, had the timer not been on, would report a mismatch and free it. -/
def aloneVisible (v : Visible) : Visible :=
  if v.timerOn then { v with stat := .ciCaller, timerOn := false }
  else { v with stat := .ciCaller, timerOn := false, numNotified := v.numNotified + 1, freed := v.freed + 1 }

theorem readToHandle_visible (h : p.stat = .toCheck) :
    p.readToHandle.2 = false ∧ p.readToHandle.1.visible =
      if p.trueMD = false ∧ 0 < p.rToChkCnt ∧ p.mdItem.numReplica ≤ 1 then aloneVisible p.visible
      else { p.visible with stat := .waitIoDone } := by
  by_cases hcnt : 0 < p.rToChkCnt
  · rw [readToHandle, if_pos hcnt]
    split_ifs with hrep
    · rw [rToTryReplica_alone (.inr h) hrep.1 hrep.2.2, aloneVisible]
      change _ ∧ _ = if p.timerOn then _ else _
      split_ifs with htimer
      · exact ⟨rfl, rfl⟩
      · refine ⟨rfl, ?_⟩
        obtain ⟨t, ht⟩ : ∃ t, t = ((p.untilCancelTimer.cancelDnUdReq (some p.lastReadDnBkIdx)).call
          (.reportMDErr p.numHbids)).freePlReq := ⟨_, rfl⟩
        have hvis : t.visible =
            { p.visible with
              stat := .ciCaller, timerOn := false, numNotified := p.visible.numNotified + 1
              freed := p.visible.freed + 1 } := by
          rw [ht, visible_freePlReq, visible_call, visible_cancelDnUdReq]
          rfl
        have hstat : t.stat = .ciCaller := congrArg Visible.stat hvis
        rw [← ht]
        dsimp only
        rw [if_pos rfl, hstat, visible_withStat, hvis]
        rfl
    · have hne := fun hr : p.trueMD = false ∧ p.mdItem.numReplica ≤ 1 => hrep ⟨hr.1, hcnt, hr.2⟩
      have hvis := (readDnBody_readNa hne p.lastReadDnBkIdx p.lastReadReplicaIdx).2
      have hstat := (congrArg Visible.stat hvis).trans h
      rw [rToTryReplica_other hne]
      refine ⟨rfl, ?_⟩
      dsimp only
      rw [if_pos rfl, visible_withStat, hvis, show PayloadReq.stat _ = .toCheck from hstat]
      rfl
  · rw [readToHandle_timeup h (Int.not_lt.mp hcnt), if_neg fun hr => hcnt hr.2.1]
    exact ⟨rfl, rfl⟩

/-- Apart from its count a timeout changes nothing of what is seen of the request, unless it is a read without
another replica. -/
theorem toHandlerBody_visible (cfg : ToConfig) (now : UInt64) (p : PayloadReq) :
    (p.toHandlerBody cfg now).2 = false ∧ (p.toHandlerBody cfg now).1.visible =
      let v := { p.visible with rToChkCnt := p.rToChkCnt - 1 }
      if p.TimesOutAlone then aloneVisible v else v := by
  by_cases hstat : p.stat = .waitIoDone
  · rw [toHandlerBody_fire hstat]
    by_cases hop : p.opcode = .read
    · obtain ⟨hfree, hvis⟩ := readToHandle_visible (p := { p with rToChkCnt := p.rToChkCnt - 1, stat := .toCheck }) rfl
      dsimp only
      rw [if_pos hop]
      refine ⟨hfree, hvis.trans ?_⟩
      have hiff : (p.trueMD = false ∧ 0 < p.rToChkCnt - 1 ∧ p.mdItem.numReplica ≤ 1) ↔ p.TimesOutAlone :=
        ⟨fun h => ⟨hop, h.1, hstat, by omega, h.2.2⟩, fun h => ⟨h.2.1, by have := h.2.2.2.1; omega, h.2.2.2.2⟩⟩
      simp only [hiff]
      split_ifs
      · rfl
      · simp only [visible, hstat]
        rfl
    · obtain ⟨hfree, hvis⟩ :=
        writeToHandle_visible (p := { p with rToChkCnt := p.rToChkCnt - 1, stat := .toCheck }) cfg now rfl
      dsimp only
      rw [if_neg hop, if_neg fun h => hop h.1]
      refine ⟨hfree, hvis.trans ?_⟩
      simp only [visible, hstat]
      rfl
  · rw [if_neg fun h => hstat h.2.2.1, toHandlerBody_of_ne hstat]
    exact ⟨rfl, rfl⟩

theorem toHandlerGut_eq (cfg : ToConfig) (now : UInt64) (p : PayloadReq) :
    p.toHandlerGut cfg now = (p.toHandlerBody cfg now).1 := by
  rw [toHandlerGut]
  dsimp only
  rw [if_neg (by rw [(toHandlerBody_visible cfg now p).1]; exact Bool.false_ne_true)]

end PayloadReq

end DiscoClient
