import DiscoClient.Payload.WaitTrace

namespace DiscoClient
open List

namespace PayloadReq
variable {p q : PayloadReq} {bkSkip : Option Nat} {id : Nat}

def idsIn (p : PayloadReq) (bkSkip : Option Nat) (is : List Nat) : List Nat :=
  (is.filter fun i => bkSkip ≠ some i).filterMap p.arrDnUdReq

/-- The IDs in the buckets, but for the one to skip. -/
def bucketIds (p : PayloadReq) (bkSkip : Option Nat) : List Nat := p.idsIn bkSkip (List.range maxNumReplica)

theorem mem_bucketIds :
    id ∈ p.bucketIds bkSkip ↔ ∃ i < maxNumReplica, bkSkip ≠ some i ∧ p.arrDnUdReq i = some id := by
  simp only [bucketIds, idsIn, mem_filterMap, mem_filter, mem_range, decide_eq_true_iff, and_assoc]

structure Cancelled (bkSkip : Option Nat) (is : List Nat) (p q : PayloadReq) : Prop where
  arr : ∀ i, q.arrDnUdReq i = if i ∈ is ∧ bkSkip ≠ some i then none else p.arrDnUdReq i
  counted : q.numDnUdReq = p.numDnUdReq - (p.idsIn bkSkip is).length
  dnReqs : ∀ d ∈ q.dnReqs, d ∈ p.dnReqs
  nextID : q.nextDnReqID = p.nextDnReqID
  handed : q.cancelled = p.cancelled ++ p.idsIn bkSkip is

theorem cancelled_one (bkSkip : Option Nat) (p : PayloadReq) (i : Nat) :
    Cancelled bkSkip [i] p (cancelBucket bkSkip p i) := by
  rw [cancelBucket]
  split_ifs with hskip
  · have hids : p.idsIn bkSkip [i] = [] := by simp [idsIn, hskip]
    refine ⟨fun j => (if_neg ?_).symm, by simp [hids], fun _ hd => hd, rfl, by simp [hids]⟩
    rintro ⟨hj, hne⟩
    rw [mem_singleton.mp hj] at hne
    exact hne hskip
  · cases hbk : p.arrDnUdReq i with
    | none =>
      have hids : p.idsIn bkSkip [i] = [] := by simp [idsIn, hskip, hbk]
      refine ⟨fun j => ?_, by simp [hids], fun _ hd => hd, rfl, by simp [hids]⟩
      split_ifs with hj
      · rw [mem_singleton.mp hj.1, hbk]
      · rfl
    | some id =>
      have hids : p.idsIn bkSkip [i] = [id] := by simp [idsIn, hskip, hbk]
      refine ⟨fun j => ?_, by rw [hids]; rfl, fun _ hd => (mem_filter.mp hd).1, rfl, by rw [hids]⟩
      change Function.update p.arrDnUdReq i none j = _
      rw [Function.update_apply]
      refine if_congr ⟨?_, fun hj => mem_singleton.mp hj.1⟩ rfl rfl
      rintro rfl
      exact ⟨mem_singleton_self _, hskip⟩

theorem Cancelled.cons {r : PayloadReq} {i : Nat} {is : List Nat} (hi : i ∉ is) (hone : Cancelled bkSkip [i] p q)
    (hrest : Cancelled bkSkip is q r) : Cancelled bkSkip (i :: is) p r := by
  have hids : q.idsIn bkSkip is = p.idsIn bkSkip is := by
    refine filterMap_congr fun j hj => ?_
    have hne : j ≠ i := fun heq => hi (heq ▸ (mem_filter.mp hj).1)
    rw [hone.arr, if_neg fun h => hne (mem_singleton.mp h.1)]
  have hsplit : p.idsIn bkSkip (i :: is) = p.idsIn bkSkip [i] ++ p.idsIn bkSkip is := by
    rw [idsIn, idsIn, idsIn, ← filterMap_append, ← filter_append, singleton_append]
  refine ⟨fun j => ?_, ?_, fun d hd => hone.dnReqs d (hrest.dnReqs d hd), hrest.nextID.trans hone.nextID, ?_⟩
  · rw [hrest.arr, hone.arr]
    simp only [mem_cons, not_mem_nil, or_false]
    split_ifs <;> first | rfl | (exfalso; tauto)
  · rw [hrest.counted, hone.counted, hids, hsplit, length_append]
    omega
  · rw [hrest.handed, hone.handed, hids, hsplit, append_assoc]

theorem cancelled_foldl (bkSkip : Option Nat) (p : PayloadReq) {is : List Nat} (hnodup : is.Nodup) :
    Cancelled bkSkip is p (is.foldl (cancelBucket bkSkip) p) := by
  induction is generalizing p with
  | nil => exact ⟨fun i => by simp, by simp [idsIn], fun _ hd => hd, rfl, by simp [idsIn]⟩
  | cons i is ih =>
    obtain ⟨hi, hrest⟩ := nodup_cons.mp hnodup
    exact (cancelled_one bkSkip p i).cons hi (ih _ hrest)

theorem cancelled_cancelBuckets (bkSkip : Option Nat) (p : PayloadReq) :
    Cancelled bkSkip (List.range maxNumReplica) p (p.cancelBuckets bkSkip) :=
  cancelled_foldl bkSkip p nodup_range

theorem arr_cancelDnUdReq {i : Nat} (h : (p.cancelDnUdReq bkSkip).arrDnUdReq i = some id) : p.arrDnUdReq i = some id := by
  rw [cancelDnUdReq] at h
  split_ifs at h with hnum hnum
  · exact h
  · rw [(cancelled_cancelBuckets _ p).arr] at h
    split_ifs at h
    exact h
  · exact h
  · rw [(cancelled_cancelBuckets _ p).arr] at h
    split_ifs at h
    exact h

theorem idsSince_self (p : PayloadReq) : p.idsSince p = [] := drop_length

theorem idsSince_of_append {ids : List Nat} (h : q.cancelled = p.cancelled ++ ids) : p.idsSince q = ids := by
  rw [idsSince, h, drop_left]

/-- What PLReq_cancel_DNUDReq hands on. -/
def cancelIds (p : PayloadReq) (bkSkip : Option Nat) : List Nat :=
  if p.numDnUdReq = (if bkSkip = none then 0 else 1) then [] else p.bucketIds bkSkip

theorem idsSince_cancelDnUdReq (p : PayloadReq) (bkSkip : Option Nat) :
    p.idsSince (p.cancelDnUdReq bkSkip) = p.cancelIds bkSkip := by
  rw [cancelDnUdReq, cancelIds]
  split_ifs
  all_goals first | exact p.idsSince_self | exact idsSince_of_append (cancelled_cancelBuckets _ p).handed

/-- What _PLReq_free_allDNReq hands on. -/
def freeIds (p : PayloadReq) : List Nat := if p.numDnUdReq = 0 then [] else p.bucketIds none

theorem idsSince_freePlReq (p : PayloadReq) : p.idsSince p.freePlReq = p.freeIds := by
  rw [freePlReq, freeIds]
  split_ifs
  · exact p.idsSince_self
  · exact idsSince_of_append (cancelled_cancelBuckets none p).handed

theorem cancelled_submitDnUdReadReq (p : PayloadReq) (replicaIdx : Nat) :
    (p.submitDnUdReadReq replicaIdx).1.cancelled = p.cancelled := by
  unfold submitDnUdReadReq genSubmitDnReadReq
  dsimp only [allocBkDnUdReq]
  cases getNextDnIndex p.mdItem replicaIdx with
  | none => rfl
  | some i =>
    dsimp only
    split_ifs <;> rfl

structure Appended (p q : PayloadReq) (bk dnLocIdx : Nat) : Prop where
  arr : q.arrDnUdReq = Function.update p.arrDnUdReq bk (some p.nextDnReqID)
  dnReqs : q.dnReqs = p.dnReqs ++ [⟨p.nextDnReqID, bk, dnLocIdx⟩]
  nextID : q.nextDnReqID = p.nextDnReqID + 1

structure SameIds (p q : PayloadReq) : Prop where
  arr : q.arrDnUdReq = p.arrDnUdReq
  dnReqs : q.dnReqs = p.dnReqs
  nextID : q.nextDnReqID = p.nextDnReqID

theorem submitDnUdReadReq_ids (p : PayloadReq) (replicaIdx : Nat) :
    SameIds p (p.submitDnUdReadReq replicaIdx).1 ∨
      ∃ bk dnLocIdx, Appended p (p.submitDnUdReadReq replicaIdx).1 bk dnLocIdx := by
  unfold submitDnUdReadReq genSubmitDnReadReq
  dsimp only [allocBkDnUdReq]
  cases getNextDnIndex p.mdItem replicaIdx with
  | none => exact .inl ⟨rfl, rfl, rfl⟩
  | some i =>
    generalize (if p.numDnUdReq ≥ maxNumReplica then (-1 : Int) else p.numDnUdReq) = bk
    dsimp only
    split_ifs
    · exact .inl ⟨rfl, rfl, rfl⟩
    · exact .inl ⟨rfl, rfl, rfl⟩
    · exact .inr ⟨_, _, rfl, rfl, rfl⟩

section Own
variable {d : DnUdReq}

/-- IDs are handed out once, and an ID in a bucket is that of a request which was given the bucket. -/
structure Owned (p : PayloadReq) : Prop where
  bucket : ∀ i id, p.arrDnUdReq i = some id → id < p.nextDnReqID ∧ ∀ d ∈ p.dnReqs, d.id = id → d.bkIdx = i
  used : ∀ d ∈ p.dnReqs, d.id < p.nextDnReqID

namespace Owned

theorem initReq (opcode : IoDir) (md : MdItem) (trueMD : Bool) (numHbids : Nat) :
    Owned (PayloadReq.initReq opcode md trueMD numHbids) where
  bucket i id h := by cases h
  used d hd := absurd hd not_mem_nil

theorem own (h : Owned p) (hd : d ∈ p.dnReqs) (i : Nat) (hi : p.arrDnUdReq i = some d.id) : i = d.bkIdx :=
  ((h.bucket i d.id hi).2 d hd rfl).symm

def ownDnReq (h : Owned p) (hd : d ∈ p.dnReqs) : OwnDnReq p := ⟨d, h.own hd⟩

theorem sub (h : Owned p) (harr : ∀ i id, q.arrDnUdReq i = some id → p.arrDnUdReq i = some id)
    (hreqs : ∀ d ∈ q.dnReqs, d ∈ p.dnReqs) (hnext : q.nextDnReqID = p.nextDnReqID) : Owned q := by
  refine ⟨fun i id hi => ?_, fun d hd => ?_⟩
  · rw [hnext]
    obtain ⟨hlt, hown⟩ := h.bucket i id (harr i id hi)
    exact ⟨hlt, fun d hd => hown d (hreqs d hd)⟩
  · rw [hnext]
    exact h.used d (hreqs d hd)

theorem sameIds (h : Owned p) (hq : SameIds p q) : Owned q :=
  h.sub (fun i id hi => by rwa [hq.arr] at hi) (fun d hd => by rwa [hq.dnReqs] at hd) hq.nextID

theorem appended (h : Owned p) {bk dnLocIdx : Nat} (hq : Appended p q bk dnLocIdx) : Owned q := by
  refine ⟨fun i id hi => ?_, fun d hd => ?_⟩
  · rw [hq.arr, Function.update_apply] at hi
    rw [hq.nextID, hq.dnReqs]
    split_ifs at hi with hbk
    · cases hi
      refine ⟨Nat.lt_succ_self _, fun d hd heq => ?_⟩
      rcases mem_append.mp hd with hd | hd
      · exact absurd heq (Nat.ne_of_lt (h.used d hd))
      · rw [mem_singleton.mp hd, hbk]
    · obtain ⟨hlt, hown⟩ := h.bucket i id hi
      refine ⟨Nat.lt_succ_of_lt hlt, fun d hd heq => ?_⟩
      rcases mem_append.mp hd with hd | hd
      · exact hown d hd heq
      · rw [mem_singleton.mp hd] at heq
        exact absurd heq.symm (Nat.ne_of_lt hlt)
  · rw [hq.nextID]
    rw [hq.dnReqs] at hd
    rcases mem_append.mp hd with hd | hd
    · exact Nat.lt_succ_of_lt (h.used d hd)
    · rw [mem_singleton.mp hd]
      exact Nat.lt_succ_self _

theorem cancelBuckets (h : Owned p) (bkSkip : Option Nat) : Owned (p.cancelBuckets bkSkip) := by
  have hc := cancelled_cancelBuckets bkSkip p
  refine h.sub (fun i id hi => ?_) hc.dnReqs hc.nextID
  rw [hc.arr] at hi
  split_ifs at hi
  exact hi

theorem step (h : Owned p) (e : BucketEvent) : Owned (p.onBucketEvent e) := by
  cases e with
  | submitRead replicaIdx memOk =>
    have hsub : Owned (p.submitDnUdReadReq replicaIdx).1 :=
      (p.submitDnUdReadReq_ids replicaIdx).elim h.sameIds fun ⟨_, _, happ⟩ => h.appended happ
    rw [onBucketEvent, submitDnUdReadReqMem]
    dsimp only
    split_ifs
    · exact hsub
    · exact h.sameIds ⟨rfl, rfl, rfl⟩
  | submitWrite i memOk =>
    rw [onBucketEvent, genSubmitDnWriteReq]
    dsimp only
    split_ifs
    · exact h.sameIds ⟨rfl, rfl, rfl⟩
    · exact h.appended ⟨rfl, rfl, rfl⟩
    · exact h.sameIds ⟨rfl, rfl, rfl⟩
  | finalAck d result =>
    refine h.sub (fun i id hi => ?_) (fun c hc => mem_of_mem_erase hc) rfl
    change Function.update p.arrDnUdReq d.bkIdx none i = some id at hi
    rw [Function.update_apply] at hi
    split_ifs at hi
    exact hi
  | cancel bkSkip =>
    rw [onBucketEvent, cancelDnUdReq]
    split_ifs
    all_goals first | exact h | exact h.cancelBuckets _
  | free =>
    rw [onBucketEvent, freePlReq]
    split_ifs
    · exact h.sameIds ⟨rfl, rfl, rfl⟩
    · exact (h.cancelBuckets none).sameIds ⟨rfl, rfl, rfl⟩

end Owned

/-- In every run, every outstanding request is its own. -/
theorem owned_exec (opcode : IoDir) (md : MdItem) (trueMD : Bool) (numHbids : Nat) {es : List BucketEvent}
    (h : bucketMachine.Legal (initReq opcode md trueMD numHbids) es) :
    Owned (bucketMachine.exec (initReq opcode md trueMD numHbids) es) :=
  GuardedMachine.exec_invariant (I := Owned) (.initReq opcode md trueMD numHbids) (fun _ e hp _ => hp.step e) h

theorem owned_exec_mislaid :
    Owned (bucketMachine.exec (initReq .read (.init 3) true 8)
      [.submitRead 0 true, .submitRead 1 true, .finalAck ⟨1, 0, 0⟩ .diskFailure, .submitRead 1 true]) :=
  owned_exec .read (.init 3) true 8 (by decide)

end Own

end PayloadReq
end DiscoClient
