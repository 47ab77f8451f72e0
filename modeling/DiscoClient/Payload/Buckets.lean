import DiscoClient.Lib.GuardedMachine
import DiscoClient.Lib.SlotTable
import DiscoClient.Payload.ReadSubmit

/-! The buckets of a payload request, which hold the IDs of its data node requests. -/
namespace DiscoClient
open List

def UDataState.isFinalResult : UDataState → Bool
  | .readOk | .writeOk | .mdErr | .diskFailure => true
  | _ => false

namespace PayloadReq

/-- PLReq_init_Req; the request is then added to the request pool and to its caller. -/
def initReq (opcode : IoDir) (md : MdItem) (trueMD : Bool) (numHbids : Nat) : PayloadReq where
  opcode := opcode
  mdItem := md
  trueMD := trueMD
  numHbids := numHbids
  stat := (plReqUpdateState .init .initDone).1
  rToChkCnt := plReqReadToCnt
  tCiCaller := 0
  timerOn := true
  inReqPool := true
  inCallerPool := true
  numDnUdReq := 0
  arrDnUdReq := fun _ => none
  lastReadReplicaIdx := 0
  lastReadDnBkIdx := 0
  numReadFailDn := 0
  dnReqs := []
  nextDnReqID := 1
  tried := []
  calls := []
  cancelled := []
  freed := 0

/-- PLMgr_submit_DNUDReadReq, where DNUDReq_alloc_Req may have no memory. -/
def submitDnUdReadReqMem (p : PayloadReq) (replicaIdx : Nat) (memOk : Bool) : PayloadReq :=
  let q := p.submitDnUdReadReq replicaIdx
  if memOk || !q.2 then q.1
  else { p.allocBkDnUdReq.1 with
    lastReadReplicaIdx := q.1.lastReadReplicaIdx, lastReadDnBkIdx := q.1.lastReadDnBkIdx }

/-- submit_DNUData_Write_Request. Bucket -1 lies before the array, and the ID then goes where
no loop over the buckets finds it: to index MAX_NUM_REPLICA. -/
def submitDnUDataWriteRequest (p : PayloadReq) (dnLocIdx : Nat) (bkIdx : Int) : PayloadReq :=
  let bk := if bkIdx < 0 then maxNumReplica else bkIdx.toNat
  { p with
    arrDnUdReq := Function.update p.arrDnUdReq bk (some p.nextDnReqID)
    dnReqs := p.dnReqs ++ [⟨p.nextDnReqID, bk, dnLocIdx⟩]
    nextDnReqID := p.nextDnReqID + 1 }

/-- The body of the loop of _gen_submit_DNWriteReq, for location i. -/
def genSubmitDnWriteReq (p : PayloadReq) (i : Nat) (memOk : Bool) : PayloadReq :=
  let (p, bkIdx) := p.allocBkDnUdReq
  if bkIdx > i then p
  else
    let p := { p with lastReadReplicaIdx := i, lastReadDnBkIdx := bkIdx.toNat }
    if memOk then p.submitDnUDataWriteRequest i bkIdx else p

/-- The end functions on a final result: the status of the location, and PLReq_rm_DNUDReq. -/
def finalAck (p : PayloadReq) (d : DnUdReq) (result : UDataState) : PayloadReq :=
  ({ p with
    dnReqs := p.dnReqs.erase d
    mdItem := p.mdItem.updateDnUDataStat d.dnLocIdx result }).rmDnUdReq d.bkIdx

end PayloadReq

inductive BucketEvent where
  | submitRead (replicaIdx : Nat) (memOk : Bool)
  | submitWrite (i : Nat) (memOk : Bool)
  | finalAck (d : DnUdReq) (result : UDataState)
  | cancel (bkSkip : Option Nat)
  | free
  deriving DecidableEq, Repr

namespace PayloadReq

def onBucketEvent (p : PayloadReq) : BucketEvent → PayloadReq
  | .submitRead replicaIdx memOk => p.submitDnUdReadReqMem replicaIdx memOk
  | .submitWrite i memOk => p.genSubmitDnWriteReq i memOk
  | .finalAck d result => p.finalAck d result
  | .cancel bkSkip => p.cancelDnUdReq bkSkip
  | .free => p.freePlReq

def BucketEnabled (p : PayloadReq) : BucketEvent → Prop
  | .submitRead _ _ | .submitWrite _ _ => p.freed = 0 ∧ p.dnReqs.length < maxNumReplica
  | .finalAck d result => p.freed = 0 ∧ d ∈ p.dnReqs ∧ result.isFinalResult = true
  | .cancel _ | .free => p.freed = 0

instance (p : PayloadReq) : (e : BucketEvent) → Decidable (p.BucketEnabled e)
  | .submitRead _ _ | .submitWrite _ _ => inferInstanceAs (Decidable (_ ∧ _))
  | .finalAck _ _ => inferInstanceAs (Decidable (_ ∧ _ ∧ _))
  | .cancel _ | .free => inferInstanceAs (Decidable (_ = _))

/-- At most MAX_NUM_REPLICA requests are outstanding at once. -/
def bucketMachine : GuardedMachine PayloadReq BucketEvent where
  enabled := BucketEnabled
  step := onBucketEvent

instance (p : PayloadReq) (e : BucketEvent) : Decidable (bucketMachine.enabled p e) :=
  inferInstanceAs (Decidable (p.BucketEnabled e))

structure Booked (p : PayloadReq) : Prop where
  held : ∀ d ∈ p.dnReqs, ∃! i, i < maxNumReplica ∧ p.arrDnUdReq i = some d.id
  counted : p.numDnUdReq = SlotTable.occupied maxNumReplica p.arrDnUdReq

/-- The bucket handed out is empty, and a cancellation or a free reaches all requests but the one it skips.
-/
def KeepsBuckets (p : PayloadReq) (e : BucketEvent) : Prop :=
  Booked (p.onBucketEvent e) ∧
    match e with
    | .submitRead _ _ | .submitWrite _ _ => ∀ bk : Nat, p.allocBkDnUdReq.2 = bk → p.arrDnUdReq bk = none
    | .finalAck _ _ => True
    | .cancel bkSkip => ∀ d ∈ (p.onBucketEvent e).dnReqs, bkSkip = some d.bkIdx
    | .free => (p.onBucketEvent e).dnReqs = []

/-- The bucket numbered by how many requests are outstanding holds none of them. -/
def NextFree (p : PayloadReq) : Prop := ∀ d ∈ p.dnReqs, d.bkIdx ≠ p.dnReqs.length

instance (p : PayloadReq) : Decidable p.NextFree := inferInstanceAs (Decidable (∀ d ∈ p.dnReqs, _))

/-- A submission succeeds and finds its bucket free; a cancellation that skips a bucket meets no single
request elsewhere. -/
def BucketsInTurn (p : PayloadReq) : BucketEvent → Prop
  | .submitRead replicaIdx memOk => memOk = true ∧ (∃ i < p.mdItem.numDnLoc, getNextDnIndex p.mdItem replicaIdx = some i) ∧
      p.dnReqs.length < p.mdItem.numDnLoc ∧ p.NextFree
  | .submitWrite i memOk => memOk = true ∧ p.dnReqs.length ≤ i ∧ p.NextFree
  | .cancel (some bk) => p.dnReqs.length = 1 → ∀ d ∈ p.dnReqs, d.bkIdx = bk
  | .finalAck _ _ | .cancel none | .free => True

structure Tracked (p : PayloadReq) : Prop where
  fills : SlotTable.Fills maxNumReplica p.arrDnUdReq DnUdReq.bkIdx DnUdReq.id p.dnReqs
  counted : p.numDnUdReq = p.dnReqs.length
  used : ∀ d ∈ p.dnReqs, d.id < p.nextDnReqID

structure Stored (p q : PayloadReq) (dnLocIdx : Nat) : Prop where
  arr : q.arrDnUdReq = Function.update p.arrDnUdReq p.dnReqs.length (some p.nextDnReqID)
  dnReqs : q.dnReqs = p.dnReqs ++ [⟨p.nextDnReqID, p.dnReqs.length, dnLocIdx⟩]
  counted : q.numDnUdReq = p.numDnUdReq + 1
  nextID : q.nextDnReqID = p.nextDnReqID + 1

structure NotStored (p q : PayloadReq) : Prop where
  arr : q.arrDnUdReq = p.arrDnUdReq
  dnReqs : q.dnReqs = p.dnReqs
  counted : q.numDnUdReq = p.numDnUdReq + 1

namespace Tracked
variable {p q : PayloadReq} {d : DnUdReq}

theorem booked (h : Tracked p) : Booked p :=
  ⟨fun _ hd => h.fills.exists_unique hd, by rw [h.counted, h.fills.occupied_eq]⟩

theorem initReq (opcode : IoDir) (md : MdItem) (trueMD : Bool) (numHbids : Nat) :
    Tracked (initReq opcode md trueMD numHbids) :=
  ⟨.empty, rfl, fun _ hd => absurd hd not_mem_nil⟩

variable (h : Tracked p)
include h

theorem allocBk (hlt : p.dnReqs.length < maxNumReplica) :
    p.allocBkDnUdReq = ({ p with numDnUdReq := p.numDnUdReq + 1 }, (p.dnReqs.length : Int)) := by
  rw [allocBkDnUdReq, h.counted]
  simp only [if_neg (show ¬ ((p.dnReqs.length : Int) ≥ maxNumReplica) by omega)]

theorem stored (hlt : p.dnReqs.length < maxNumReplica) (hfree : p.NextFree) {dnLocIdx : Nat}
    (hs : Stored p q dnLocIdx) : Tracked q where
  fills := by
    rw [hs.arr, hs.dnReqs]
    obtain ⟨d, hd⟩ : ∃ d : DnUdReq, d = ⟨p.nextDnReqID, p.dnReqs.length, dnLocIdx⟩ := ⟨_, rfl⟩
    have hbk : d.bkIdx = p.dnReqs.length := congrArg DnUdReq.bkIdx hd
    have hnew : d.id = p.nextDnReqID := congrArg DnUdReq.id hd
    rw [← hd, ← hbk, ← hnew]
    refine h.fills.insert (by rwa [hbk]) (fun c hc => by rw [hbk]; exact hfree c hc) ?_
    rw [mem_map, hnew]
    rintro ⟨d, hd, heq⟩
    exact absurd (h.used d hd) (by rw [heq]; exact Nat.lt_irrefl _)
  counted := by
    rw [hs.counted, h.counted, hs.dnReqs, length_append, length_singleton]
    rfl
  used := by
    rw [hs.dnReqs, hs.nextID]
    intro d hd
    rcases mem_append.mp hd with hd | hd
    · exact Nat.lt_succ_of_lt (h.used d hd)
    · rw [mem_singleton.mp hd]
      exact Nat.lt_succ_self _

theorem not_booked (hf : NotStored p q) : ¬ Booked q := by
  intro hb
  have hcount := hb.counted
  rw [hf.counted, hf.arr, h.fills.occupied_eq, h.counted] at hcount
  omega

theorem release (hd : d ∈ p.dnReqs) (harr : q.arrDnUdReq = Function.update p.arrDnUdReq d.bkIdx none)
    (hreqs : q.dnReqs = p.dnReqs.filter fun c => decide (c.id ≠ d.id)) (hnum : q.numDnUdReq = p.numDnUdReq - 1)
    (hid : q.nextDnReqID = p.nextDnReqID) : Tracked q where
  fills := by
    rw [harr, hreqs]
    exact h.fills.remove hd
  counted := by
    have hlen := h.fills.length_remove hd
    rw [hnum, h.counted, hreqs]
    omega
  used := by
    rw [hreqs, hid]
    exact fun c hc => h.used c (mem_of_mem_filter hc)

theorem finalAck (hd : d ∈ p.dnReqs) (result : UDataState) : Tracked (p.finalAck d result) :=
  h.release hd rfl (h.fills.filter_eq_erase hd).symm rfl rfl

end Tracked

section Cancel
variable {p : PayloadReq} {bkSkip : Option Nat}

variable (h : Tracked p)
include h

theorem Tracked.cancelBucket (bkSkip : Option Nat) (i : Nat) :
    Tracked (PayloadReq.cancelBucket bkSkip p i) ∧
      ∀ d, d ∈ (PayloadReq.cancelBucket bkSkip p i).dnReqs ↔ d ∈ p.dnReqs ∧ (d.bkIdx = i → bkSkip = some i) := by
  rw [PayloadReq.cancelBucket]
  split_ifs with hskip
  · exact ⟨h, fun d => by simp [hskip]⟩
  cases hbk : p.arrDnUdReq i with
  | none =>
    refine ⟨h, fun d => ⟨fun hd => ⟨hd, fun hi => ?_⟩, And.left⟩⟩
    have hheld := (h.fills.held d hd).2
    rw [hi, hbk] at hheld
    cases hheld
  | some id =>
    obtain ⟨c, hc, rfl, rfl⟩ := h.fills.owned i id hbk
    refine ⟨h.release hc rfl rfl rfl rfl, fun d => ?_⟩
    rw [mem_filter, decide_eq_true_iff]
    refine and_congr_right fun hd => ⟨fun hne hi => ?_, fun hkeep heq => ?_⟩
    · exact absurd (congrArg DnUdReq.id (h.fills.slot_inj hd hc hi)) hne
    · exact hskip (hkeep (congrArg DnUdReq.bkIdx (h.fills.val_inj hd hc heq)))

theorem Tracked.foldl_cancelBucket (bkSkip : Option Nat) (is : List Nat) :
    Tracked (is.foldl (PayloadReq.cancelBucket bkSkip) p) ∧
      ∀ d, d ∈ (is.foldl (PayloadReq.cancelBucket bkSkip) p).dnReqs ↔
        d ∈ p.dnReqs ∧ (d.bkIdx ∈ is → bkSkip = some d.bkIdx) := by
  induction is generalizing p with
  | nil => exact ⟨h, fun d => by simp⟩
  | cons i is ih =>
    obtain ⟨hone, hmem⟩ := h.cancelBucket bkSkip i
    obtain ⟨hrest, hmem'⟩ := ih hone
    refine ⟨hrest, fun d => ?_⟩
    rw [foldl_cons, hmem', hmem, mem_cons, and_assoc]
    refine and_congr_right fun _ => ⟨fun hkeep hi => ?_, fun hkeep => ⟨fun hi => ?_, fun hi => hkeep (.inr hi)⟩⟩
    · rcases hi with rfl | hi
      · exact hkeep.1 rfl
      · exact hkeep.2 hi
    · rw [← hi]
      exact hkeep (.inl hi)

theorem Tracked.cancelBuckets (bkSkip : Option Nat) :
    Tracked (p.cancelBuckets bkSkip) ∧
      ∀ d, d ∈ (p.cancelBuckets bkSkip).dnReqs ↔ d ∈ p.dnReqs ∧ bkSkip = some d.bkIdx := by
  obtain ⟨hall, hmem⟩ := h.foldl_cancelBucket bkSkip (List.range maxNumReplica)
  rw [PayloadReq.cancelBuckets]
  refine ⟨hall, fun d => (hmem d).trans (and_congr_right fun hd => ⟨fun hkeep => ?_, fun hs _ => hs⟩)⟩
  exact hkeep (mem_range.mpr (h.fills.held d hd).1)

theorem Tracked.cancelDnUdReq (bkSkip : Option Nat) : Tracked (p.cancelDnUdReq bkSkip) := by
  rw [PayloadReq.cancelDnUdReq]
  split_ifs
  all_goals first | exact h | exact (h.cancelBuckets _).1

theorem Tracked.freePlReq : Tracked p.freePlReq ∧ p.freePlReq.dnReqs = [] := by
  rw [PayloadReq.freePlReq]
  split_ifs with hnum
  · rw [h.counted] at hnum
    exact ⟨⟨h.fills, h.counted, h.used⟩, eq_nil_of_length_eq_zero (Int.ofNat_eq_zero.mp hnum)⟩
  · obtain ⟨hall, hmem⟩ := h.cancelBuckets none
    refine ⟨⟨hall.fills, hall.counted, hall.used⟩, eq_nil_iff_forall_not_mem.mpr fun d hd => ?_⟩
    exact absurd ((hmem d).mp hd).2 (by simp)

theorem Tracked.cancel_reaches_iff (bk : Nat) :
    (∀ d ∈ (p.cancelDnUdReq (some bk)).dnReqs, some bk = some d.bkIdx) ↔
      (p.dnReqs.length = 1 → ∀ d ∈ p.dnReqs, d.bkIdx = bk) := by
  rw [PayloadReq.cancelDnUdReq, if_neg (Option.some_ne_none bk)]
  split_ifs with hnum
  · rw [h.counted] at hnum
    have hone : p.dnReqs.length = 1 := by omega
    exact ⟨fun hall _ d hd => (Option.some.inj (hall d hd)).symm, fun hall d hd => by rw [hall hone d hd]⟩
  · rw [h.counted] at hnum
    refine ⟨fun _ hone => absurd hone (by omega), fun _ d hd => ?_⟩
    exact (((h.cancelBuckets (some bk)).2 d).mp hd).2

end Cancel

end PayloadReq
end DiscoClient
