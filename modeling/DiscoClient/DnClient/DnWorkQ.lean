import DiscoClient.Common.SysDef
import DiscoClient.DnClient.DnUdReqFsm
import DiscoClient.Lib.PointUpdate

/-! The queue of the send worker, with a list of requests per bucket: discoC_DNC_worker.c. -/
namespace DiscoClient
open List

inductive PriorityType where
  | high
  | low
  deriving DecidableEq, Repr

/-- What the queue reads of dnReq_comm. -/
structure DnReqKey where
  reqID : UInt32
  reqPrior : PriorityType

def dncWorkqHashNum : Nat := 32

def dncWorkqModNum : Nat := dncWorkqHashNum - 1

def dncWorkqTotalNum : Nat := dncWorkqHashNum + 1

def dncWorkqHpBkIdx : Nat := dncWorkqHashNum

/-- The bucket whose lock _acquire_DNCWorkQ_lock takes. -/
def DnReqKey.workqIdx (key : DnReqKey) : Nat :=
  if key.reqPrior = .low then key.reqID.toNat &&& dncWorkqModNum else dncWorkqHpBkIdx

theorem and_dncWorkqModNum (n : Nat) : n &&& dncWorkqModNum = n % dncWorkqHashNum := Nat.and_two_pow_sub_one_eq_mod n 5

namespace DnReqKey
variable (key : DnReqKey)

theorem workqIdx_lt : key.workqIdx < dncWorkqTotalNum := by
  rw [workqIdx, and_dncWorkqModNum]
  split_ifs
  · exact Nat.lt_succ_of_lt (Nat.mod_lt _ (by decide))
  · exact Nat.lt_succ_self _

theorem workqIdx_eq_hp : key.workqIdx = dncWorkqHpBkIdx ↔ key.reqPrior = .high := by
  rw [workqIdx, and_dncWorkqModNum]
  cases key.reqPrior with
  | high => exact iff_of_true rfl rfl
  | low => exact iff_of_false (Nat.ne_of_lt (Nat.mod_lt _ (by decide))) (by simp)

end DnReqKey

/-- discoDNC_worker_t with, of each request, whether DNREQ_FEA_IN_WORKQ is set and its state. The lists are
those of the buckets below DNC_WORKQ_TOTAL_NUM; the counters count what is held in memory. -/
structure DncWorker (ρ : Type*) where
  wkerReqPool : Nat → List ρ
  deqBucketIdx : Nat
  wkerReqQSize : Int
  wkerHpReqQSize : Int
  feaInWorkQ : ρ → Bool
  dnReqStat : ρ → DnReqState

namespace DncWorker
variable {ρ : Type*}

/-- DNCWker_init_worker, before any request is submitted. -/
def init : DncWorker ρ where
  wkerReqPool _ := []
  deqBucketIdx := 0
  wkerReqQSize := 0
  wkerHpReqQSize := 0
  feaInWorkQ _ := false
  dnReqStat _ := .init

/-- _peekReq_DNCWorkQ_nolock. -/
def peekReqNolock (w : DncWorker ρ) (lockID : Nat) : Option ρ := (w.wkerReqPool lockID).head?

/-- The bucket whose lock _peekReq_acquire_DNCWorkQ_lock takes. -/
def peekIdx (w : DncWorker ρ) : Nat := if w.wkerHpReqQSize > 0 then dncWorkqHpBkIdx else w.deqBucketIdx

/-- _peekReq_acquire_DNCWorkQ_lock. -/
def peekAcquire (w : DncWorker ρ) : DncWorker ρ :=
  if w.wkerHpReqQSize > 0 then w else { w with deqBucketIdx := (w.deqBucketIdx + 1) &&& dncWorkqModNum }

def found (w : DncWorker ρ) : Option ρ := w.peekReqNolock w.peekIdx

/-- _addReq_DNCWorkQ_nolock. -/
def addReqNolock (w : DncWorker ρ) (lockID : Nat) (r : ρ) : DncWorker ρ :=
  { w with
    wkerReqPool := Function.update w.wkerReqPool lockID (w.wkerReqPool lockID ++ [r])
    wkerReqQSize := w.wkerReqQSize + 1
    deqBucketIdx := if w.wkerReqQSize + 1 = 1 then lockID else w.deqBucketIdx
    wkerHpReqQSize := if lockID = dncWorkqHpBkIdx then w.wkerHpReqQSize + 1 else w.wkerHpReqQSize }

theorem pool_addReqNolock (w : DncWorker ρ) (lockID : Nat) (r : ρ) :
    (w.addReqNolock lockID r).wkerReqPool = Function.update w.wkerReqPool lockID (w.wkerReqPool lockID ++ [r]) := rfl

def queueLen (w : DncWorker ρ) : Nat := ∑ b ∈ Finset.range dncWorkqTotalNum, (w.wkerReqPool b).length

/-- The counters are the lengths of the lists, and a request with the feature bit is in its bucket, once. -/
structure Kept (comm : ρ → DnReqKey) (w : DncWorker ρ) : Prop where
  idx : w.deqBucketIdx < dncWorkqTotalNum
  size : w.wkerReqQSize = w.queueLen
  hpSize : w.wkerHpReqQSize = (w.wkerReqPool dncWorkqHpBkIdx).length
  placed : ∀ b r, r ∈ w.wkerReqPool b ↔ w.feaInWorkQ r = true ∧ (comm r).workqIdx = b
  nodup : ∀ b, (w.wkerReqPool b).Nodup

theorem kept_init (comm : ρ → DnReqKey) : Kept comm (init : DncWorker ρ) where
  idx := Nat.succ_pos _
  size := by simp [init, queueLen]
  hpSize := rfl
  placed b r := by simp [init]
  nodup _ := nodup_nil

namespace Kept
variable {comm : ρ → DnReqKey} {w : DncWorker ρ} {r : ρ}

variable (h : Kept comm w)
include h

theorem mem_iff : r ∈ w.wkerReqPool (comm r).workqIdx ↔ w.feaInWorkQ r = true := by
  rw [h.placed, and_iff_left rfl]

theorem not_mem (hr : w.feaInWorkQ r = false) (b : Nat) : r ∉ w.wkerReqPool b := by
  rw [h.placed, hr]
  simp

theorem peekAcquire : Kept comm w.peekAcquire := by
  rw [DncWorker.peekAcquire]
  split_ifs
  · exact h
  · refine ⟨?_, h.size, h.hpSize, h.placed, h.nodup⟩
    rw [and_dncWorkqModNum]
    exact Nat.lt_succ_of_lt (Nat.mod_lt _ (by decide))

theorem hp_pos : w.wkerHpReqQSize > 0 ↔ w.wkerReqPool dncWorkqHpBkIdx ≠ [] := by
  rw [h.hpSize, ← length_pos_iff_ne_nil]
  exact Int.natCast_pos

theorem found_mem (hr : w.found = some r) :
    w.feaInWorkQ r = true ∧ (comm r).workqIdx = w.peekIdx :=
  (h.placed _ r).mp (mem_of_head? hr)

theorem found_low (hr : w.found = some r) (hlow : (comm r).reqPrior = .low) {q : ρ}
    (hq : w.feaInWorkQ q = true) : (comm q).reqPrior = .low := by
  by_contra hhigh
  have hqidx : (comm q).workqIdx = dncWorkqHpBkIdx := (comm q).workqIdx_eq_hp.mpr (by
    cases hprior : (comm q).reqPrior with
    | high => rfl
    | low => exact absurd hprior hhigh)
  have hmem : q ∈ w.wkerReqPool dncWorkqHpBkIdx := (h.placed _ q).mpr ⟨hq, hqidx⟩
  have hidx := (h.found_mem hr).2
  rw [peekIdx, if_pos (h.hp_pos.mpr (ne_nil_of_mem hmem)), DnReqKey.workqIdx_eq_hp, hlow] at hidx
  cases hidx

end Kept

variable [DecidableEq ρ]

/-- DNUDReq_update_state. -/
def updateState (w : DncWorker ρ) (r : ρ) (e : DnReqEvent) : DncWorker ρ :=
  { w with dnReqStat := Function.update w.dnReqStat r (dnReqUpdateState (w.dnReqStat r) e).1 }

/-- DNUDReq_test_set_fea and DNUDReq_test_clear_fea leave the bit so. -/
def setFea (w : DncWorker ρ) (r : ρ) (b : Bool) : DncWorker ρ :=
  { w with feaInWorkQ := Function.update w.feaInWorkQ r b }

/-- _rmReq_DNCWorkQ_nolock. The entry is unlinked from the list it is in. -/
def rmReqNolock (w : DncWorker ρ) (lockID : Nat) (r : ρ) : DncWorker ρ :=
  { w with
    wkerReqPool := fun b => (w.wkerReqPool b).erase r
    wkerReqQSize := w.wkerReqQSize - 1
    wkerHpReqQSize := if lockID = dncWorkqHpBkIdx then w.wkerHpReqQSize - 1 else w.wkerHpReqQSize }

/-- DNCWker_add_Req_workQ. -/
def addReqWorkQ (w : DncWorker ρ) (comm : ρ → DnReqKey) (r : ρ) : DncWorker ρ :=
  if w.feaInWorkQ r then w.setFea r true else (w.setFea r true).addReqNolock (comm r).workqIdx r

/-- DNUDReq_test_clear_fea and what follows if the bit was set. -/
def takeOut (w : DncWorker ρ) (lockID : Nat) (r : ρ) : DncWorker ρ :=
  if w.feaInWorkQ r then (w.setFea r false).rmReqNolock lockID r else w.setFea r false

/-- DNCWker_rm_Req_workQ. -/
def rmReqWorkQ (w : DncWorker ρ) (comm : ρ → DnReqKey) (r : ρ) : DncWorker ρ := w.takeOut (comm r).workqIdx r

/-- _DNCWker_peek_Req_workQ: a request that is not to be sent leaves the queue, too. -/
def peekReqWorkQ (w : DncWorker ρ) : DncWorker ρ × Option ρ :=
  match w.found with
  | none => (w.peekAcquire, none)
  | some r => ((w.peekAcquire.takeOut w.peekIdx r).updateState r .peekWorkQ,
      if (dnReqUpdateState (w.dnReqStat r) .peekWorkQ).2 = .doSend then some r else none)

theorem found_of_peek {w : DncWorker ρ} {r : ρ} (h : w.peekReqWorkQ.2 = some r) : w.found = some r := by
  rw [peekReqWorkQ] at h
  cases hf : w.found with
  | none =>
    rw [hf] at h
    cases h
  | some q =>
    rw [hf] at h
    dsimp only at h
    split_ifs at h
    exact h

theorem setFea_eq {w : DncWorker ρ} {r : ρ} {b : Bool} (hb : w.feaInWorkQ r = b) : w.setFea r b = w := by
  rw [setFea, ← hb, Function.update_eq_self]

namespace Kept
variable {comm : ρ → DnReqKey} {w : DncWorker ρ} {r : ρ}

theorem updateState (h : Kept comm w) (r : ρ) (e : DnReqEvent) : Kept comm (w.updateState r e) :=
  ⟨h.idx, h.size, h.hpSize, h.placed, h.nodup⟩

theorem addReqNolock (h : Kept comm w) (hr : w.feaInWorkQ r = false) :
    Kept comm ((w.setFea r true).addReqNolock (comm r).workqIdx r) where
  idx := by
    rw [DncWorker.addReqNolock]
    dsimp only
    split_ifs
    · exact (comm r).workqIdx_lt
    · exact h.idx
  size := by
    change w.wkerReqQSize + 1 = ((∑ b ∈ Finset.range dncWorkqTotalNum, _ : Nat) : Int)
    rw [sum_succ_at (f := fun b => (w.wkerReqPool b).length) (Finset.mem_range.mpr (comm r).workqIdx_lt), h.size]
    · exact (Nat.cast_succ _).symm
    · simp [pool_addReqNolock, DncWorker.setFea]
    · intro b hb
      simp [pool_addReqNolock, DncWorker.setFea, hb]
  hpSize := by
    change (if (comm r).workqIdx = dncWorkqHpBkIdx then w.wkerHpReqQSize + 1 else w.wkerHpReqQSize) =
      ((Function.update w.wkerReqPool (comm r).workqIdx _ dncWorkqHpBkIdx).length : Int)
    split_ifs with hb
    · rw [hb, Function.update_self, h.hpSize]
      simp [DncWorker.setFea]
    · rw [Function.update_of_ne (Ne.symm hb), h.hpSize]
  placed b q := by
    change q ∈ Function.update w.wkerReqPool (comm r).workqIdx (w.wkerReqPool (comm r).workqIdx ++ [r]) b ↔
      Function.update w.feaInWorkQ r true q = true ∧ _
    by_cases hq : q = r
    · by_cases hb : b = (comm r).workqIdx
      · simp [hb, hq]
      · simp [hb, hq, h.not_mem hr, Ne.symm hb]
    · by_cases hb : b = (comm r).workqIdx
      · simp [hb, hq, h.placed]
      · simp [hb, hq, h.placed]
  nodup b := by
    change (Function.update w.wkerReqPool (comm r).workqIdx (w.wkerReqPool (comm r).workqIdx ++ [r]) b).Nodup
    by_cases hb : b = (comm r).workqIdx
    · rw [hb, Function.update_self]
      rw [← concat_eq_append]
      exact (h.nodup _).concat (h.not_mem hr _)
    · rw [Function.update_of_ne hb]
      exact h.nodup b

theorem addReqWorkQ (h : Kept comm w) (r : ρ) : Kept comm (w.addReqWorkQ comm r) := by
  rw [DncWorker.addReqWorkQ]
  split_ifs with hr
  · rwa [setFea_eq hr]
  · exact h.addReqNolock (Bool.eq_false_iff.mpr hr)

theorem pool_addReqWorkQ (hr : w.feaInWorkQ r = false) (b : Nat) :
    (w.addReqWorkQ comm r).wkerReqPool b = w.wkerReqPool b ++ if b = (comm r).workqIdx then [r] else [] := by
  rw [DncWorker.addReqWorkQ, if_neg (Bool.eq_false_iff.mp hr), pool_addReqNolock]
  by_cases hb : b = (comm r).workqIdx
  · rw [if_pos hb, hb, Function.update_self]
    rfl
  · rw [if_neg hb, Function.update_of_ne hb, append_nil]
    rfl

variable (h : Kept comm w)
include h

theorem erase_of_ne {b : Nat} (hb : b ≠ (comm r).workqIdx) :
    (w.wkerReqPool b).erase r = w.wkerReqPool b :=
  erase_of_not_mem fun hr => hb ((h.placed b r).mp hr).2.symm

theorem queueLen_erase (hr : w.feaInWorkQ r = true) {w' : DncWorker ρ}
    (hw : ∀ b, w'.wkerReqPool b = (w.wkerReqPool b).erase r) : w.queueLen = w'.queueLen + 1 := by
  have hmem : r ∈ w.wkerReqPool (comm r).workqIdx := h.mem_iff.mpr hr
  have hpos := length_pos_of_mem hmem
  refine sum_succ_at (Finset.mem_range.mpr (comm r).workqIdx_lt) ?_ fun b hb => ?_
  · rw [hw, length_erase_of_mem hmem]
    omega
  · rw [hw, h.erase_of_ne hb]

theorem takeOut (hr : w.feaInWorkQ r = true) : Kept comm (w.takeOut (comm r).workqIdx r) := by
  have hmem : r ∈ w.wkerReqPool (comm r).workqIdx := h.mem_iff.mpr hr
  have hpos : 0 < (w.wkerReqPool (comm r).workqIdx).length := length_pos_of_mem hmem
  rw [DncWorker.takeOut, if_pos hr]
  refine ⟨h.idx, ?_, ?_, fun b q => ?_, fun b => (h.nodup b).erase r⟩
  · have hlen : w.queueLen = ((w.setFea r false).rmReqNolock (comm r).workqIdx r).queueLen + 1 :=
      h.queueLen_erase hr fun b => rfl
    change w.wkerReqQSize - 1 = _
    rw [h.size, hlen, Nat.cast_succ, add_sub_cancel_right]
  · change (if (comm r).workqIdx = dncWorkqHpBkIdx then w.wkerHpReqQSize - 1 else w.wkerHpReqQSize) =
      (((w.wkerReqPool dncWorkqHpBkIdx).erase r).length : Int)
    split_ifs with hb
    · rw [hb] at hmem hpos
      rw [length_erase_of_mem hmem, h.hpSize]
      omega
    · rw [h.erase_of_ne (Ne.symm hb), h.hpSize]
  · change q ∈ (w.wkerReqPool b).erase r ↔ Function.update w.feaInWorkQ r false q = true ∧ _
    rw [(h.nodup b).mem_erase_iff, h.placed]
    by_cases hq : q = r
    · simp [hq]
    · simp [hq]

/-- Whether the bit was set or not, the request is in no list then and the others are where they were. -/
theorem pool_takeOut (lockID : Nat) (r : ρ) (b : Nat) :
    (w.takeOut lockID r).wkerReqPool b = (w.wkerReqPool b).erase r := by
  rw [DncWorker.takeOut]
  split_ifs with hr
  · rfl
  · exact (erase_of_not_mem (h.not_mem (Bool.eq_false_iff.mpr hr) b)).symm

theorem rmReqWorkQ (r : ρ) : Kept comm (w.rmReqWorkQ comm r) := by
  rw [DncWorker.rmReqWorkQ]
  by_cases hr : w.feaInWorkQ r = true
  · exact h.takeOut hr
  · rw [DncWorker.takeOut, if_neg hr, setFea_eq (Bool.eq_false_iff.mpr hr)]
    exact h

theorem peekReqWorkQ : Kept comm w.peekReqWorkQ.1 := by
  rw [DncWorker.peekReqWorkQ]
  cases hf : w.found with
  | none => exact h.peekAcquire
  | some r =>
    obtain ⟨hfea, hidx⟩ := h.found_mem hf
    have hacq : w.peekAcquire.feaInWorkQ r = true := by
      rw [DncWorker.peekAcquire]
      split_ifs <;> exact hfea
    exact hidx ▸ (h.peekAcquire.takeOut hacq).updateState r .peekWorkQ

theorem pool_peekReqWorkQ (b : Nat) :
    w.peekReqWorkQ.1.wkerReqPool b = w.found.elim (w.wkerReqPool b) (w.wkerReqPool b).erase := by
  have hacq : w.peekAcquire.wkerReqPool = w.wkerReqPool := by
    rw [DncWorker.peekAcquire]
    split_ifs <;> rfl
  rw [DncWorker.peekReqWorkQ]
  cases w.found with
  | none => exact congrFun hacq b
  | some r => exact (h.peekAcquire.pool_takeOut _ r b).trans (by rw [hacq]; rfl)

end Kept
end DncWorker
end DiscoClient
