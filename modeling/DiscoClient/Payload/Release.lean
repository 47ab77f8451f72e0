import DiscoClient.Payload.Buckets
import DiscoClient.Payload.Timeout

namespace DiscoClient

def PlCall.isNotify : PlCall → Bool
  | .reportMDErr _ | .endReq _ _ _ => true
  | _ => false

namespace PayloadReq

def numNotified (p : PayloadReq) : Nat := p.calls.countP PlCall.isNotify

def endfnBody (minDiskAck : Nat) (now : UInt64) (p : PayloadReq) (result : UDataState) (bkIdx dnLocIdx : Nat) :
    PayloadReq × Bool :=
  match p.opcode with
  | .read => p.readDnBody result bkIdx dnLocIdx
  | .write => p.writeDnBody minDiskAck now result bkIdx dnLocIdx

end PayloadReq

/-- A payload request and the threads that are about to call PLMgr_free_PLReq for it. -/
structure PlRun where
  p : PayloadReq
  frees : Nat

/-- A data node ack or a lost connection, the timer, or a thread that frees the request. -/
inductive PlEvent where
  | ack (now : UInt64) (result : UDataState) (bkIdx dnLocIdx : Nat)
  | timeout (now : UInt64)
  | free

namespace PlRun

def step (cfg : ToConfig) (minDiskAck : Nat) (s : PlRun) : PlEvent → PlRun
  | .ack now result bkIdx dnLocIdx =>
    let (p, doFree) := s.p.endfnBody minDiskAck now result bkIdx dnLocIdx
    ⟨p, s.frees + doFree.toNat⟩
  | .timeout now => ⟨s.p.toHandlerGut cfg now, s.frees⟩
  | .free => ⟨s.p.freePlReq, s.frees - 1⟩

def Enabled (s : PlRun) : PlEvent → Prop
  | .ack _ _ _ _ | .timeout _ => s.p.freed = 0
  | .free => 0 < s.frees

instance (s : PlRun) : (e : PlEvent) → Decidable (s.Enabled e)
  | .ack _ _ _ _ | .timeout _ => inferInstanceAs (Decidable (_ = _))
  | .free => inferInstanceAs (Decidable (0 < _))

def machine (cfg : ToConfig) (minDiskAck : Nat) : GuardedMachine PlRun PlEvent where
  enabled := Enabled
  step := step cfg minDiskAck

instance (cfg : ToConfig) (minDiskAck : Nat) (s : PlRun) (e : PlEvent) : Decidable ((machine cfg minDiskAck).enabled s e) :=
  inferInstanceAs (Decidable (s.Enabled e))

/-- How often PLMgr_free_PLReq has been called, or is about to be. -/
def ended (s : PlRun) : Nat := s.p.freed + s.frees

def Released (s : PlRun) : Prop := 0 < s.ended → s.p.inReqPool = false ∧ s.p.inCallerPool = false

end PlRun

namespace PayloadReq

/-- What the life of a request is about, apart from its data node requests. -/
structure Visible where
  stat : PlReqState
  inReqPool : Bool
  inCallerPool : Bool
  numNotified : Nat
  freed : Nat
  timerOn : Bool
  rToChkCnt : Int

def visible (p : PayloadReq) : Visible :=
  ⟨p.stat, p.inReqPool, p.inCallerPool, p.numNotified, p.freed, p.timerOn, p.rToChkCnt⟩

variable {p q : PayloadReq}

def Waiting (p : PayloadReq) : Prop := p.stat = .waitIoDone ∨ p.stat = .toCheck

instance : Decidable p.Waiting := inferInstanceAs (Decidable (_ ∨ _))

theorem visible_cancelBuckets (p : PayloadReq) (bkSkip : Option Nat) : (p.cancelBuckets bkSkip).visible = p.visible := by
  have hone (q : PayloadReq) (i : Nat) : (cancelBucket bkSkip q i).visible = q.visible := by
    unfold cancelBucket
    split_ifs
    · rfl
    · cases q.arrDnUdReq i <;> rfl
  rw [cancelBuckets]
  induction List.range maxNumReplica generalizing p with
  | nil => rfl
  | cons i is ih => exact (ih _).trans (hone p i)

@[simp] theorem visible_cancelDnUdReq (p : PayloadReq) (bkSkip : Option Nat) :
    (p.cancelDnUdReq bkSkip).visible = p.visible := by
  rw [cancelDnUdReq]
  split_ifs
  all_goals first | rfl | exact visible_cancelBuckets p _

theorem visible_freePlReq (p : PayloadReq) :
    p.freePlReq.visible = { p.visible with freed := p.visible.freed + 1 } := by
  rw [freePlReq]
  split_ifs
  · rfl
  · change { (p.cancelBuckets none).visible with freed := (p.cancelBuckets none).visible.freed + 1 } = _
    rw [visible_cancelBuckets]

@[simp] theorem visible_submitDnUdReadReq (p : PayloadReq) (replicaIdx : Nat) :
    (p.submitDnUdReadReq replicaIdx).1.visible = p.visible := by
  unfold submitDnUdReadReq genSubmitDnReadReq
  dsimp only [allocBkDnUdReq]
  cases getNextDnIndex p.mdItem replicaIdx with
  | none => rfl
  | some i =>
    dsimp only
    split_ifs
    all_goals rfl

theorem visible_call (p : PayloadReq) (c : PlCall) :
    (p.call c).visible = { p.visible with numNotified := p.visible.numNotified + if c.isNotify then 1 else 0 } := by
  simp only [visible, numNotified, call, List.countP_append, List.countP_singleton]

theorem visible_ciUserCallerReq (p : PayloadReq) (now : UInt64) (r : Option Bool) :
    (p.ciUserCallerReq now r).visible = p.visible := by
  cases r with
  | none => rfl
  | some b => exact visible_call _ _

theorem visible_rmCallerReq (p : PayloadReq) : p.rmCallerReq.visible = { p.visible with inCallerPool := false } := rfl

theorem visible_withStat (p : PayloadReq) (stat : PlReqState) :
    ({ p with stat := stat } : PayloadReq).visible = { p.visible with stat := stat } := rfl

theorem visible_readCiCaller (p : PayloadReq) (ioResult : Bool) : (p.readCiCaller ioResult).visible =
    { p.visible with inReqPool := false, inCallerPool := false, numNotified := p.visible.numNotified + 1 } :=
  visible_call _ _

def GoesOn (p : PayloadReq) (r : PayloadReq × Bool) : Prop := r.2 = false ∧ r.1.visible = p.visible

def Ends (p : PayloadReq) (r : PayloadReq × Bool) (pool caller : Bool) : Prop :=
  p.Waiting ∧ r.2 = true ∧ r.1.visible = { p.visible with
    stat := .ciCaller, inReqPool := pool, inCallerPool := caller, numNotified := p.visible.numNotified + 1, timerOn := false }

theorem updateState_ciCaller (h : p.Waiting) : plReqUpdateState p.stat .ciCaller = (.ciCaller, .doCiCaller) := by
  rcases h with h | h <;> rw [h] <;> rfl

theorem updateState_ciCaller_not (h : ¬ p.Waiting) : plReqUpdateState p.stat .ciCaller = (p.stat, .noAction) := by
  cases hs : p.stat with
  | init => rfl
  | ciCaller => rfl
  | waitIoDone => exact absurd (.inl hs) h
  | toCheck => exact absurd (.inr hs) h

theorem waiting_congr (h : q.visible = p.visible) : q.Waiting ↔ p.Waiting := by
  rw [Waiting, Waiting, show q.stat = p.stat from congrArg Visible.stat h]

theorem readOk_cases (p : PayloadReq) (bkIdx : Nat) :
    Ends p (p.readOk bkIdx) false false ∨ GoesOn p (p.readOk bkIdx) := by
  rw [readOk]
  by_cases hw : p.Waiting
  · rw [show (p.rmDnUdReq bkIdx).stat = p.stat from rfl, updateState_ciCaller hw]
    refine .inl ⟨hw, rfl, ?_⟩
    dsimp only
    rw [if_pos rfl, visible_readCiCaller, visible_cancelDnUdReq, visible_call]
    rfl
  · refine .inr ?_
    rw [show (p.rmDnUdReq bkIdx).stat = p.stat from rfl, updateState_ciCaller_not hw]
    exact ⟨rfl, rfl⟩

theorem readNextDn_cases (p : PayloadReq) (bkIdx dnLocIdx : Nat) :
    Ends p (p.readNextDn bkIdx dnLocIdx) false false ∨ GoesOn p (p.readNextDn bkIdx dnLocIdx) := by
  obtain ⟨q, hq⟩ : ∃ q, q = p.submitDnUdReadReq dnLocIdx := ⟨_, rfl⟩
  have hvis : q.1.visible = p.visible := hq ▸ visible_submitDnUdReadReq p dnLocIdx
  rw [readNextDn, ← hq]
  dsimp only
  split_ifs with hsub hwait hact
  · exact .inr ⟨rfl, hvis⟩
  · exact .inr ⟨rfl, hvis⟩
  · have hw : q.1.Waiting := by
      by_contra hnot
      rw [updateState_ciCaller_not hnot] at hact
      cases hact
    refine .inl ⟨(waiting_congr hvis).mp hw, rfl, ?_⟩
    rw [visible_readCiCaller, visible_cancelDnUdReq, updateState_ciCaller hw, ← hvis]
    rfl
  · have hw : ¬ q.1.Waiting := fun hw => hact (by rw [updateState_ciCaller hw])
    rw [updateState_ciCaller_not hw]
    exact .inr ⟨rfl, hvis⟩

theorem firstHbidErr_cases (p : PayloadReq) (bkIdx : Nat) :
    if p.Waiting then Ends p (p.firstHbidErr bkIdx) p.inReqPool p.inCallerPool else GoesOn p (p.firstHbidErr bkIdx) := by
  rw [firstHbidErr]
  split_ifs with hw
  · rw [updateState_ciCaller hw]
    refine ⟨hw, rfl, ?_⟩
    dsimp only
    rw [if_pos rfl, visible_call, visible_cancelDnUdReq]
    rfl
  · rw [updateState_ciCaller_not hw]
    exact ⟨rfl, rfl⟩

end PayloadReq
end DiscoClient
