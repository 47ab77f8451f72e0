import DiscoClient.Metadata.WriteAck

namespace DiscoClient
open List

theorem i8_le (x : Int) : i8 x ≤ 127 := by
  unfold i8
  omega

theorem i8_of_le {x : Int} (h0 : 0 ≤ x) (h : x ≤ 127) : i8 x = x := by
  unfold i8
  omega

@[simp] theorem i8_i8_add_one (x : Int) : i8 (i8 x + 1) = i8 (x + 1) := by
  unfold i8
  omega

namespace AckEvent

def hasStatus (st : UDataState) : AckEvent → Bool
  | .ack st' _ => st' = st
  | _ => false

def cnt (st : UDataState) (es : List AckEvent) : Nat := es.countP (hasStatus st)

@[simp] theorem cnt_nil (st : UDataState) : cnt st [] = 0 := rfl

theorem cnt_append (st : UDataState) (es : List AckEvent) (e : AckEvent) :
    cnt st (es ++ [e]) = cnt st es + if hasStatus st e then 1 else 0 := by
  simp [cnt, countP_append, countP_singleton]

theorem cnt_pos {st : UDataState} {es : List AckEvent} : 0 < cnt st es ↔ ∃ idx, .ack st idx ∈ es := by
  unfold cnt
  rw [countP_pos_iff]
  constructor
  · rintro ⟨e, he, hst⟩
    cases e with
    | ack st' idx =>
      obtain rfl : st' = st := by simpa [hasStatus] using hst
      exact ⟨idx, he⟩
    | reset idx => cases hst
    | timeout => cases hst
  · rintro ⟨idx, he⟩
    exact ⟨_, he, by simp [hasStatus]⟩

theorem length_finals (es : List AckEvent) :
    (es.filterMap finalReplica).length = cnt .writeOk es + cnt .diskFailure es := by
  induction es with
  | nil => rfl
  | cons e es ih =>
    unfold cnt at *
    cases e with
    | ack st idx => cases st <;> simp [finalReplica, hasStatus, isFinal, ih] <;> omega
    | reset idx => simpa [filterMap_cons, finalReplica, hasStatus] using ih
    | timeout => simpa [filterMap_cons, finalReplica, hasStatus] using ih

end AckEvent

structure AckInv (minDiskAck n : Nat) (s : AckRun) : Prop where
  numReplica : s.md.numReplica = n
  numDnLoc : s.md.numDnLoc = n
  diskack : s.md.diskack = i8 (AckEvent.cnt .writeOk s.past)
  diskErrAck : s.md.diskErrAck = i8 (AckEvent.cnt .diskFailure s.past)
  finals : (s.past.filterMap AckEvent.finalReplica).Nodup
  finals_lt : ∀ r ∈ s.past.filterMap AckEvent.finalReplica, r < n
  mds_user : s.md.ciMds = true → s.md.ciUser = true
  first : minDiskAck = 0 → s.md.ciUser = false → ∀ st idx, AckEvent.ack st idx ∉ s.past

namespace MdItem
variable (md : MdItem) (minDiskAck : Nat) (e : AckEvent)

theorem onAckEvent_counters : let md' := (md.onAckEvent minDiskAck e).1
    md'.numReplica = md.numReplica ∧ md'.numDnLoc = md.numDnLoc ∧
    md'.diskack = (if e.hasStatus .writeOk then i8 (md.diskack + 1) else md.diskack) ∧
    md'.diskErrAck = (if e.hasStatus .diskFailure then i8 (md.diskErrAck + 1) else md.diskErrAck) := by
  cases e with
  | ack st idx => cases st <;> exact ⟨rfl, rfl, rfl, rfl⟩
  | reset idx =>
    simp only [onAckEvent, wRetryResetDnLoc]
    split <;> exact ⟨rfl, rfl, rfl, rfl⟩
  | timeout => exact ⟨rfl, rfl, rfl, rfl⟩

theorem countAck_bits (st : UDataState) :
    (md.countAck st).ciUser = md.ciUser ∧ (md.countAck st).ciMds = md.ciMds := by
  cases st <;> exact ⟨rfl, rfl⟩

theorem onAckEvent_bits : let r := md.onAckEvent minDiskAck e
    r.1.ciUser = (md.ciUser || r.2.ciUser.isSome) ∧ (md.ciUser = true → r.2.ciUser = none) ∧
    r.1.ciMds = (md.ciMds || r.2.ciMds) ∧ (md.ciMds = true → r.2.ciMds = false) ∧
    (r.2.ciMds = true → r.1.ciUser = true) := by
  cases e with
  | ack st idx =>
    simp only [onAckEvent, writeAckCommitResult]
    obtain ⟨hu, hm⟩ : _ = md.ciUser ∧ _ = md.ciMds := countAck_bits (md.updateDnUDataStat idx st) st
    generalize (md.updateDnUDataStat idx st).countAck st = c at *
    rw [hu, hm]
    generalize chkCiMdsCriteria _ = mds
    cases c.chkCiUserCriteria minDiskAck <;> cases md.ciUser <;> cases md.ciMds <;> cases mds <;> simp
  | reset idx =>
    simp only [onAckEvent, wRetryResetDnLoc]
    split <;> simp [updateDnUDataStat]
  | timeout => cases h : md.ciUser <;> cases h' : md.ciMds <;> simp [onAckEvent, timeoutCommitResult, h, h']

theorem ack_signal {md : MdItem} (hu : md.ciUser = false) (hm : md.ciMds = false) (st : UDataState) (idx : Nat) :
    (md.onAckEvent minDiskAck (.ack st idx)).2.ciUser =
      match (md.countAck st).chkCiUserCriteria minDiskAck with
      | some r => some r
      | none => if (md.countAck st).chkCiMdsCriteria then some false else none := by
  obtain ⟨hu', hm'⟩ := countAck_bits md st
  rw [hu] at hu'
  rw [hm] at hm'
  have hcomm : (md.updateDnUDataStat idx st).countAck st = (md.countAck st).updateDnUDataStat idx st := by
    cases st <;> rfl
  simp only [onAckEvent, writeAckCommitResult, hcomm]
  generalize md.countAck st = c at *
  -- neither criteria reads the status of a replica or the bits
  change (if ((c.chkCiUserCriteria minDiskAck).isSome && !c.ciUser || (c.chkCiMdsCriteria && !c.ciMds &&
    !(c.ciUser || (c.chkCiUserCriteria minDiskAck).isSome))) = true
    then some ((c.chkCiUserCriteria minDiskAck).getD false) else none) = _
  rw [hu', hm']
  cases c.chkCiUserCriteria minDiskAck <;> cases c.chkCiMdsCriteria <;> rfl

theorem chkCiUserCriteria_zero {md : MdItem} (h : 0 ≤ md.diskack) : md.chkCiUserCriteria 0 = some true := by
  unfold chkCiUserCriteria
  split_ifs with h1 h2
  · rfl
  · rfl
  all_goals exact absurd (Or.inl h) h2

end MdItem

theorem enabled_final {minDiskAck n r : Nat} {s : AckRun} {e : AckEvent}
    (he : (ackMachine minDiskAck n).enabled s e) (hr : e.finalReplica = some r) :
    r < n ∧ r ∉ s.past.filterMap AckEvent.finalReplica := by
  cases e with
  | ack st idx =>
    simp only [AckEvent.finalReplica, Option.ite_none_right_eq_some, Option.some.injEq] at hr
    obtain ⟨hf, rfl⟩ := hr
    exact ⟨he.1, he.2.2 hf⟩
  | reset idx => cases hr
  | timeout => cases hr

theorem AckInv.init (minDiskAck n : Nat) : AckInv minDiskAck n (AckRun.init n) where
  numReplica := rfl
  numDnLoc := rfl
  diskack := by simp [AckRun.init, MdItem.init, i8]
  diskErrAck := by simp [AckRun.init, MdItem.init, i8]
  finals := nodup_nil
  finals_lt _ hr := absurd hr not_mem_nil
  mds_user h := absurd h Bool.false_ne_true
  first _ _ _ _ := not_mem_nil

theorem AckInv.mds_clear {minDiskAck n : Nat} {s : AckRun} (h : AckInv minDiskAck n s)
    (hu : s.md.ciUser = false) : s.md.ciMds = false := by
  cases hm : s.md.ciMds with
  | false => rfl
  | true => exact (h.mds_user hm).symm.trans hu

theorem AckInv.diskack_counted {minDiskAck n : Nat} {s : AckRun} (h : AckInv minDiskAck n s)
    (h0 : minDiskAck = 0) (hu : s.md.ciUser = false) (st : UDataState) : 0 ≤ (s.md.countAck st).diskack := by
  have hcnt : AckEvent.cnt .writeOk s.past = 0 := by
    refine Nat.eq_zero_of_not_pos fun hpos => ?_
    obtain ⟨idx, hin⟩ := AckEvent.cnt_pos.mp hpos
    exact h.first h0 hu _ idx hin
  have hd : s.md.diskack = 0 := by
    rw [h.diskack, hcnt]
    decide
  cases st <;> simp [MdItem.countAck, hd, i8]

theorem AckInv.step {minDiskAck n : Nat} {s : AckRun} {e : AckEvent} (h : AckInv minDiskAck n s)
    (he : (ackMachine minDiskAck n).enabled s e) : AckInv minDiskAck n ((ackMachine minDiskAck n).step s e) := by
  obtain ⟨h1, h2, h3, h4⟩ := s.md.onAckEvent_counters minDiskAck e
  obtain ⟨b1, -, b3, -, b5⟩ := s.md.onAckEvent_bits minDiskAck e
  have hfin : ((ackMachine minDiskAck n).step s e).past.filterMap AckEvent.finalReplica =
      s.past.filterMap AckEvent.finalReplica ++ e.finalReplica.toList := by
    simp only [ackMachine, filterMap_append]
    cases hr : e.finalReplica <;> simp [hr]
  refine ⟨h1.trans h.numReplica, h2.trans h.numDnLoc, ?_, ?_, ?_, ?_, ?_, ?_⟩
  · simp only [ackMachine, h3, AckEvent.cnt_append, h.diskack]
    split_ifs <;> simp
  · simp only [ackMachine, h4, AckEvent.cnt_append, h.diskErrAck]
    split_ifs <;> simp
  · rw [hfin]
    cases hr : e.finalReplica with
    | none => simpa using h.finals
    | some r =>
      refine nodup_append.mpr ⟨h.finals, by simp, fun a ha b hb => ?_⟩
      rw [mem_singleton.mp hb]
      rintro rfl
      exact (enabled_final he hr).2 ha
  · intro r hr
    rw [hfin, mem_append, Option.mem_toList] at hr
    rcases hr with hr | hr
    · exact h.finals_lt r hr
    · exact (enabled_final he hr).1
  · intro hm
    rcases Bool.or_eq_true_iff.mp (b3.symm.trans hm) with hm | hm
    · exact b1.trans (by rw [h.mds_user hm, Bool.true_or])
    · exact b5 hm
  · intro h0 hu st idx
    rw [show ((ackMachine minDiskAck n).step s e).past = s.past ++ [e] from rfl, mem_append,
      mem_singleton, not_or]
    have hu' := Bool.or_eq_false_iff.mp (b1.symm.trans hu)
    refine ⟨h.first h0 hu'.1 st idx, ?_⟩
    rintro rfl
    have hsig := MdItem.ack_signal minDiskAck hu'.1 (h.mds_clear hu'.1) st idx
    rw [h0, MdItem.chkCiUserCriteria_zero (h.diskack_counted h0 hu'.1 st)] at hsig
    rw [h0, hsig] at hu'
    cases hu'.2

end DiscoClient
