import DiscoClient.Payload.Buckets

namespace DiscoClient.PayloadReq
variable {p q : PayloadReq}

def ReadAccepted (p : PayloadReq) (replicaIdx : Nat) : Prop :=
  (∃ i < p.mdItem.numDnLoc, getNextDnIndex p.mdItem replicaIdx = some i) ∧ p.dnReqs.length < p.mdItem.numDnLoc

section

variable (h : Tracked p)
include h

theorem Tracked.submitDnUdReadReq_rejected (hlt : p.dnReqs.length < maxNumReplica) {replicaIdx : Nat}
    (hrej : ¬ p.ReadAccepted replicaIdx) :
    p.submitDnUdReadReq replicaIdx = ({ p with numDnUdReq := p.numDnUdReq + 1 }, false) := by
  rw [submitDnUdReadReq, h.allocBk hlt]
  dsimp only
  unfold genSubmitDnReadReq
  cases hnext : getNextDnIndex p.mdItem replicaIdx with
  | none => rfl
  | some i =>
    dsimp only
    split_ifs with hi hbk
    · rfl
    · rfl
    · exact absurd ⟨⟨i, Nat.not_le.mp hi, hnext⟩, by omega⟩ hrej

theorem Tracked.submitRead (hlt : p.dnReqs.length < maxNumReplica) (replicaIdx : Nat) (memOk : Bool) :
    ((memOk = true ∧ p.ReadAccepted replicaIdx) ∧ ∃ i, Stored p (p.submitDnUdReadReqMem replicaIdx memOk) i) ∨
      (¬ (memOk = true ∧ p.ReadAccepted replicaIdx) ∧ NotStored p (p.submitDnUdReadReqMem replicaIdx memOk)) := by
  by_cases hacc : p.ReadAccepted replicaIdx
  · obtain ⟨⟨i, hi, hnext⟩, hbk⟩ := id hacc
    have heq := submitDnUdReadReq_some hnext hi _ h.counted hbk hlt
    cases memOk with
    | true =>
      refine .inl ⟨⟨rfl, hacc⟩, i, ?_⟩
      rw [submitDnUdReadReqMem, heq]
      exact ⟨rfl, rfl, rfl, rfl⟩
    | false =>
      refine .inr ⟨fun hm => Bool.false_ne_true hm.1, ?_⟩
      rw [submitDnUdReadReqMem, heq, h.allocBk hlt]
      exact ⟨rfl, rfl, rfl⟩
  · refine .inr ⟨fun hm => hacc hm.2, ?_⟩
    rw [submitDnUdReadReqMem, h.submitDnUdReadReq_rejected hlt hacc, Bool.not_false, Bool.or_true, if_pos rfl]
    exact ⟨rfl, rfl, rfl⟩

theorem Tracked.submitWrite (hlt : p.dnReqs.length < maxNumReplica) (i : Nat) (memOk : Bool) :
    ((memOk = true ∧ p.dnReqs.length ≤ i) ∧ ∃ j, Stored p (p.genSubmitDnWriteReq i memOk) j) ∨
      (¬ (memOk = true ∧ p.dnReqs.length ≤ i) ∧ NotStored p (p.genSubmitDnWriteReq i memOk)) := by
  rw [genSubmitDnWriteReq, h.allocBk hlt]
  dsimp only
  split_ifs with hbk hmem
  · exact .inr ⟨fun hm => absurd hm.2 (by omega), ⟨rfl, rfl, rfl⟩⟩
  · have hnat : ¬ ((p.dnReqs.length : Int) < 0) := by omega
    refine .inl ⟨⟨hmem, by omega⟩, i, ?_⟩
    rw [submitDnUDataWriteRequest]
    simp only [if_neg hnat, Int.toNat_natCast]
    exact ⟨rfl, rfl, rfl, rfl⟩
  · exact .inr ⟨fun hm => hmem hm.1, ⟨rfl, rfl, rfl⟩⟩

theorem Tracked.handed_empty_iff (hlt : p.dnReqs.length < maxNumReplica) :
    (∀ bk : Nat, p.allocBkDnUdReq.2 = bk → p.arrDnUdReq bk = none) ↔ p.NextFree := by
  rw [h.allocBk hlt]
  constructor
  · intro hempty d hd heq
    have hheld := (h.fills.held d hd).2
    rw [heq, hempty _ rfl] at hheld
    cases hheld
  · intro hfree bk hbk
    rw [← Int.ofNat_inj.mp hbk]
    cases harr : p.arrDnUdReq p.dnReqs.length with
    | none => rfl
    | some id =>
      obtain ⟨d, hd, hslot, -⟩ := h.fills.owned _ id harr
      exact absurd hslot (hfree d hd)

theorem Tracked.submission_iff (hlt : p.dnReqs.length < maxNumReplica) {ok : Prop}
    (hq : (ok ∧ ∃ i, Stored p q i) ∨ (¬ ok ∧ NotStored p q)) :
    (Booked q ∧ ∀ bk : Nat, p.allocBkDnUdReq.2 = bk → p.arrDnUdReq bk = none) ↔ ok ∧ p.NextFree := by
  rw [h.handed_empty_iff hlt]
  rcases hq with ⟨hok, i, hs⟩ | ⟨hok, hf⟩
  · exact ⟨fun hb => ⟨hok, hb.2⟩, fun hfree => ⟨(h.stored hlt hfree.2 hs).booked, hfree.2⟩⟩
  · exact ⟨fun hb => absurd hb.1 (h.not_booked hf), fun hfree => absurd hfree.1 hok⟩

theorem Tracked.submission (hlt : p.dnReqs.length < maxNumReplica) {ok : Prop}
    (hq : (ok ∧ ∃ i, Stored p q i) ∨ (¬ ok ∧ NotStored p q)) (hok : ok) (hfree : p.NextFree) : Tracked q := by
  rcases hq with ⟨-, i, hs⟩ | ⟨hnot, -⟩
  · exact h.stored hlt hfree hs
  · exact absurd hok hnot

theorem Tracked.step {e : BucketEvent} (he : bucketMachine.enabled p e) (hturn : p.BucketsInTurn e) :
    Tracked (p.onBucketEvent e) := by
  cases e with
  | submitRead replicaIdx memOk =>
    obtain ⟨hm, hnext, hbk, hfree⟩ := hturn
    exact h.submission he.2 (h.submitRead he.2 replicaIdx memOk) ⟨hm, hnext, hbk⟩ hfree
  | submitWrite i memOk =>
    obtain ⟨hm, hi, hfree⟩ := hturn
    exact h.submission he.2 (h.submitWrite he.2 i memOk) ⟨hm, hi⟩ hfree
  | finalAck d result => exact h.finalAck he.2.1 result
  | cancel bkSkip => exact h.cancelDnUdReq bkSkip
  | free => exact h.freePlReq.1

theorem Tracked.keepsBuckets_iff {e : BucketEvent} (he : bucketMachine.enabled p e) :
    p.KeepsBuckets e ↔ p.BucketsInTurn e := by
  cases e with
  | submitRead replicaIdx memOk =>
    refine (h.submission_iff he.2 (h.submitRead he.2 replicaIdx memOk)).trans ?_
    simp only [ReadAccepted, BucketsInTurn, and_assoc]
  | submitWrite i memOk =>
    refine (h.submission_iff he.2 (h.submitWrite he.2 i memOk)).trans ?_
    simp only [BucketsInTurn, and_assoc]
  | finalAck d result => exact ⟨fun _ => trivial, fun _ => ⟨(h.finalAck he.2.1 result).booked, trivial⟩⟩
  | cancel bkSkip =>
    have hbooked := (h.cancelDnUdReq bkSkip).booked
    cases bkSkip with
    | none =>
      refine ⟨fun _ => trivial, fun _ => ⟨hbooked, fun d hd => ?_⟩⟩
      change d ∈ (p.cancelDnUdReq none).dnReqs at hd
      rw [PayloadReq.cancelDnUdReq, if_pos rfl] at hd
      split_ifs at hd with hnum
      · rw [h.counted] at hnum
        rw [List.eq_nil_of_length_eq_zero (Int.ofNat_eq_zero.mp hnum)] at hd
        exact absurd hd List.not_mem_nil
      · exact (((h.cancelBuckets none).2 d).mp hd).2
    | some bk => exact ⟨fun hk => (h.cancel_reaches_iff bk).mp hk.2, fun ht => ⟨hbooked, (h.cancel_reaches_iff bk).mpr ht⟩⟩
  | free => exact ⟨fun _ => trivial, fun _ => ⟨h.freePlReq.1.booked, h.freePlReq.2⟩⟩

end

/-- The buckets account for the requests outstanding at every event of a run exactly when
every submission succeeds and comes when its bucket is free, and no cancellation is misled
by the count. -/
theorem buckets_account_iff (opcode : IoDir) (md : MdItem) (trueMD : Bool) (numHbids : Nat) (es : List BucketEvent) :
    (bucketMachine.restrict KeepsBuckets).Legal (initReq opcode md trueMD numHbids) es ↔
      (bucketMachine.restrict BucketsInTurn).Legal (initReq opcode md trueMD numHbids) es :=
  GuardedMachine.restrict_legal_congr (I := Tracked) (.initReq opcode md trueMD numHbids)
    (fun _ _ h he => h.keepsBuckets_iff he) fun _ _ h he hturn => h.step he hturn

/-- The bucket of a released request is followed by one in use, which the new request takes; a submission
without memory stays counted; a cancellation that skips a released bucket misses the request that is left.
-/
theorem buckets_mislaid :
    (let p := initReq .read (.init 3) true 8
     let es := [.submitRead 0 true, .submitRead 1 true, .finalAck ⟨1, 0, 0⟩ .diskFailure]
     let s := bucketMachine.exec p es
     let t := s.onBucketEvent (.submitRead 1 true)
     bucketMachine.Legal p (es ++ [.submitRead 1 true]) ∧ s.allocBkDnUdReq.2 = 1 ∧ s.arrDnUdReq 1 = some 2 ∧
       ⟨2, 1, 1⟩ ∈ t.dnReqs ∧ (∀ i < maxNumReplica, t.arrDnUdReq i ≠ some 2) ∧ t.numDnUdReq = 2 ∧
       SlotTable.occupied maxNumReplica t.arrDnUdReq = 1 ∧ t.freePlReq.dnReqs = [⟨2, 1, 1⟩]) ∧
    (let p := initReq .read (.init 3) true 8
     let t := p.onBucketEvent (.submitRead 0 false)
     bucketMachine.Legal p [.submitRead 0 false] ∧ t.numDnUdReq = 1 ∧
       SlotTable.occupied maxNumReplica t.arrDnUdReq = 0) ∧
    (let p := initReq .write (.init 3) false 8
     let es := [.submitWrite 0 true, .submitWrite 1 true, .finalAck ⟨1, 0, 0⟩ .writeOk, .cancel (some 0)]
     bucketMachine.Legal p es ∧ (bucketMachine.exec p es).dnReqs = [⟨2, 1, 1⟩]) := by
  decide

end DiscoClient.PayloadReq
