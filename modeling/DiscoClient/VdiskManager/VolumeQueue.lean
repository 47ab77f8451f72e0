import DiscoClient.IoManager.IoMerge

/-! The request list of a volume with its counters, and the state that says who works on it:
volume_manager.c. -/
namespace DiscoClient
open List

instance : Inhabited BlkRq :=
  ⟨⟨0, 1, .read, Nat.two_pow_pos 64, Nat.one_pos, Nat.le_of_ble_eq_true rfl⟩⟩

/-- vol_active_stat_t. -/
inductive VolActiveStat where
  | deactive
  | active
  | waiting
  deriving DecidableEq, Repr

/-- vol_active_op_t. -/
inductive VolActiveOp where
  | enqRqs
  | rqsDone
  | waitForMoreRqs
  | waitDone
  | noOp
  | doEnActiveQ
  | doWaiting
  deriving DecidableEq, Repr

/-- The fields of volume_device_t that the IO workers use. The counters are integers: pending requests
and their sectors are held in memory and never come near 2^31. -/
structure VolumeDevice where
  volRqsList : List BlkRq
  cntRqs : Int
  rqAggWaitCnt : Nat
  volActStat : VolActiveStat
  wSects : Int
  rSects : Int
  sectStart : Nat

namespace VolumeDevice

/-- init_volume_device. -/
def init : VolumeDevice where
  volRqsList := []
  cntRqs := 0
  rqAggWaitCnt := 0
  volActStat := .deactive
  wSects := 0
  rSects := 0
  sectStart := 0

def updateVolActiveStat (v : VolumeDevice) (op : VolActiveOp) : VolumeDevice × VolActiveOp :=
  match v.volActStat, op with
  | .deactive, .enqRqs => if v.cntRqs > 0 then ({ v with volActStat := .active }, .doEnActiveQ) else (v, .noOp)
  | .active, .rqsDone => if v.cntRqs = 0 then ({ v with volActStat := .deactive }, .noOp) else (v, .doEnActiveQ)
  | .active, .waitForMoreRqs => if v.cntRqs > 0 then ({ v with volActStat := .waiting }, .doWaiting) else (v, .noOp)
  | .waiting, .waitDone => if v.cntRqs > 0 then ({ v with volActStat := .active }, .doEnActiveQ) else (v, .noOp)
  | _, _ => (v, .noOp)

/-- What raising Vol_EnqRqs does: only a volume at rest that has requests is woken. -/
theorem updateVolActiveStat_enqRqs (v : VolumeDevice) :
    v.updateVolActiveStat .enqRqs = if v.volActStat = .deactive ∧ v.cntRqs > 0 then
      ({ v with volActStat := .active }, .doEnActiveQ) else (v, .noOp) := by
  cases hstat : v.volActStat <;> simp [updateVolActiveStat, hstat]

theorem updateVolActiveStat_rqsDone {v : VolumeDevice} (h : v.volActStat = .active) :
    v.updateVolActiveStat .rqsDone = if v.cntRqs = 0 then ({ v with volActStat := .deactive }, .noOp)
      else (v, .doEnActiveQ) := by
  simp [updateVolActiveStat, h]

theorem updateVolActiveStat_frame (v : VolumeDevice) (op : VolActiveOp) :
    ∃ stat, (v.updateVolActiveStat op).1 = { v with volActStat := stat } := by
  unfold updateVolActiveStat
  split <;> (try split_ifs) <;> exact ⟨_, rfl⟩

/-- Adding to r_sects or w_sects, by the direction of a request. -/
def addSects (v : VolumeDevice) (dir : IoDir) (n : Int) : VolumeDevice :=
  match dir with
  | .read => { v with rSects := v.rSects + n }
  | .write => { v with wSects := v.wSects + n }

section AddSects
variable (v : VolumeDevice) (dir : IoDir) (n : Int)

@[simp] theorem addSects_volRqsList : (v.addSects dir n).volRqsList = v.volRqsList := by cases dir <;> rfl

@[simp] theorem addSects_cntRqs : (v.addSects dir n).cntRqs = v.cntRqs := by cases dir <;> rfl

@[simp] theorem addSects_volActStat : (v.addSects dir n).volActStat = v.volActStat := by cases dir <;> rfl

@[simp] theorem addSects_sectStart : (v.addSects dir n).sectStart = v.sectStart := by cases dir <;> rfl

end AddSects

/-- enq_dmsrq_vol_list, under the lock of the request list. -/
def enqDmsRqVolList (v : VolumeDevice) (rq : BlkRq) : VolumeDevice :=
  let tmp := v.cntRqs + 1
  ({ v with
    volRqsList := v.volRqsList ++ [rq]
    cntRqs := tmp
    sectStart := if tmp = 1 then rq.pos else v.sectStart }).addSects rq.dir rq.sectors

/-- Loop of enq_dmsrq_vol_list_batch, from the last request to the first: all sectors are added in the
same direction. -/
def enqBatchLoop (dir : IoDir) (v : VolumeDevice) : List BlkRq → VolumeDevice
  | [] => v
  | rq :: rqs =>
    let v := enqBatchLoop dir v rqs
    ({ v with volRqsList := rq :: v.volRqsList, cntRqs := v.cntRqs + 1 }).addSects dir rq.sectors

def enqDmsRqVolListBatch (v : VolumeDevice) (dmsrqs : List BlkRq) (sectS : Nat) : VolumeDevice :=
  match dmsrqs.getLast?, dmsrqs.head? with
  | some last, some first =>
    let v := enqBatchLoop last.dir { v with sectStart := sectS } dmsrqs
    v.addSects last.dir (-(((sectS + (2^64 - first.pos)) % 2^64 % 2^32 : Nat)))
  | _, _ => v

def updateVolRqListStart (v : VolumeDevice) : VolumeDevice :=
  match v.volRqsList with
  | [] => v
  | cur :: _ => { v with sectStart := cur.pos }

/-- Loop of deq_dms_rq_list: left counts down from MAX_NUM_RQS_MERGE, cnt counts up. -/
def deqLoop (sectStart : Nat) : Nat → Nat → VolumeDevice → List BlkRq → VolumeDevice × List BlkRq
  | 0, _, v, arr => (v, arr)
  | left + 1, cnt, v, arr =>
    match v.volRqsList with
    | [] => (v, arr)
    | cur :: rest =>
      let skip := if cnt = 0 then (sectStart + (2^64 - cur.pos)) % 2^64 % 2^32 else 0
      let lenSects := (cur.sectors + (2^32 - skip)) % 2^32
      let v := ({ v with volRqsList := rest, cntRqs := v.cntRqs - 1 }).addSects cur.dir (-(lenSects : Int))
      deqLoop sectStart left (cnt + 1) v (arr ++ [cur])

/-- deq_dms_rq_list; the start sector it returns is the one of the volume. -/
def deqDmsRqList (v : VolumeDevice) : VolumeDevice × List BlkRq := deqLoop v.sectStart maxNumRqsMerge 0 v []

variable {v : VolumeDevice}

/-- cnt_rqs is the number of requests in the list. -/
def Counted (v : VolumeDevice) : Prop := v.cntRqs = v.volRqsList.length

theorem Counted.pos_iff (h : Counted v) : v.cntRqs > 0 ↔ v.volRqsList ≠ [] := by
  rw [h, gt_iff_lt, Int.natCast_pos, length_pos_iff]

theorem Counted.eq_zero_iff (h : Counted v) : v.cntRqs = 0 ↔ v.volRqsList = [] := by
  rw [h, Int.natCast_eq_zero, length_eq_zero_iff]

theorem Counted.enqDmsRqVolList (h : Counted v) (rq : BlkRq) : Counted (v.enqDmsRqVolList rq) := by
  rw [Counted] at h
  simp [Counted, VolumeDevice.enqDmsRqVolList, h]

theorem enqBatchLoop_eq (dir : IoDir) (v : VolumeDevice) (rqs : List BlkRq) :
    (enqBatchLoop dir v rqs).volRqsList = rqs ++ v.volRqsList ∧
      (enqBatchLoop dir v rqs).cntRqs = rqs.length + v.cntRqs ∧
      (enqBatchLoop dir v rqs).volActStat = v.volActStat ∧ (enqBatchLoop dir v rqs).sectStart = v.sectStart := by
  induction rqs with
  | nil => simp [enqBatchLoop]
  | cons rq rqs ih =>
    obtain ⟨hlist, hcnt, hstat, hstart⟩ := ih
    refine ⟨?_, ?_, ?_, ?_⟩
    · simp [enqBatchLoop, hlist]
    · simp only [enqBatchLoop, addSects_cntRqs, hcnt, length_cons, Nat.cast_add, Nat.cast_one]
      omega
    · simp [enqBatchLoop, hstat]
    · simp [enqBatchLoop, hstart]

theorem enqDmsRqVolListBatch_of_ne {rqs : List BlkRq} (h : rqs ≠ []) (sectS : Nat) :
    v.enqDmsRqVolListBatch rqs sectS = (enqBatchLoop (rqs.getLast h).dir { v with sectStart := sectS } rqs).addSects
      (rqs.getLast h).dir (-(((sectS + (2^64 - (rqs.head h).pos)) % 2^64 % 2^32 : Nat))) := by
  rw [enqDmsRqVolListBatch, List.getLast?_eq_some_getLast h, List.head?_eq_some_head h]

theorem volRqsList_enqBatch (v : VolumeDevice) (rqs : List BlkRq) (sectS : Nat) :
    (v.enqDmsRqVolListBatch rqs sectS).volRqsList = rqs ++ v.volRqsList := by
  by_cases h : rqs = []
  · rw [h]
    rfl
  · rw [enqDmsRqVolListBatch_of_ne h, addSects_volRqsList, (enqBatchLoop_eq _ _ _).1]

theorem volActStat_enqBatch (v : VolumeDevice) (rqs : List BlkRq) (sectS : Nat) :
    (v.enqDmsRqVolListBatch rqs sectS).volActStat = v.volActStat := by
  by_cases h : rqs = []
  · rw [h]
    rfl
  · rw [enqDmsRqVolListBatch_of_ne h, addSects_volActStat, (enqBatchLoop_eq _ _ _).2.2.1]

theorem Counted.enqBatch (h : Counted v) (rqs : List BlkRq) (sectS : Nat) :
    Counted (v.enqDmsRqVolListBatch rqs sectS) := by
  rw [Counted, volRqsList_enqBatch, length_append]
  by_cases hne : rqs = []
  · rw [hne, length_nil, Nat.zero_add]
    exact h
  · rw [enqDmsRqVolListBatch_of_ne hne, addSects_cntRqs, (enqBatchLoop_eq _ _ _).2.1, Nat.cast_add]
    exact congrArg _ h

theorem updateVolRqListStart_eq (v : VolumeDevice) :
    v.updateVolRqListStart.volRqsList = v.volRqsList ∧ v.updateVolRqListStart.cntRqs = v.cntRqs ∧
      v.updateVolRqListStart.volActStat = v.volActStat := by
  rw [updateVolRqListStart]
  split <;> exact ⟨rfl, rfl, rfl⟩

theorem deqLoop_eq (sectStart left cnt : Nat) (v : VolumeDevice) (arr : List BlkRq) :
    (deqLoop sectStart left cnt v arr).2 = arr ++ v.volRqsList.take left ∧
      (deqLoop sectStart left cnt v arr).1.volRqsList = v.volRqsList.drop left ∧
      (deqLoop sectStart left cnt v arr).1.cntRqs = v.cntRqs - (v.volRqsList.take left).length ∧
      (deqLoop sectStart left cnt v arr).1.volActStat = v.volActStat := by
  induction left generalizing cnt v arr with
  | zero => simp [deqLoop]
  | succ left ih =>
    rw [deqLoop]
    split
    · next hlist => simp [hlist]
    · next cur rest hlist =>
      obtain ⟨harr, hrest, hcnt, hstat⟩ := ih (cnt + 1)
        (({ v with volRqsList := rest, cntRqs := v.cntRqs - 1 }).addSects cur.dir _) (arr ++ [cur])
      refine ⟨?_, ?_, ?_, ?_⟩
      · rw [harr, hlist]
        simp
      · rw [hrest, hlist]
        simp
      · rw [hcnt, hlist]
        simp only [addSects_cntRqs, addSects_volRqsList, take_succ_cons, length_cons, Nat.cast_add,
          Nat.cast_one]
        omega
      · rw [hstat]
        simp

theorem Counted.deqDmsRqList (h : Counted v) : Counted v.deqDmsRqList.1 := by
  obtain ⟨-, hlist, hcnt, -⟩ := deqLoop_eq v.sectStart maxNumRqsMerge 0 v []
  rw [Counted, VolumeDevice.deqDmsRqList, hcnt, hlist, h, length_drop, length_take]
  omega

theorem deqDmsRqList_eq_nil : v.deqDmsRqList.2 = [] ↔ v.volRqsList = [] := by
  rw [deqDmsRqList, (deqLoop_eq _ _ _ _ _).1, nil_append, take_eq_nil_iff, or_iff_right]
  decide

theorem head?_deqDmsRqList (v : VolumeDevice) : v.deqDmsRqList.2.head? = v.volRqsList.head? := by
  rw [deqDmsRqList, (deqLoop_eq _ _ _ _ _).1, nil_append, List.head?_take, if_neg (by decide)]

end VolumeDevice
end DiscoClient
