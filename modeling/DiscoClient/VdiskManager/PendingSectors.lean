import DiscoClient.VdiskManager.VolumeQueue

namespace DiscoClient
open List

def pendingSects (dir : IoDir) : List BlkRq → Int
  | [] => 0
  | rq :: rqs => (if rq.dir = dir then (rq.sectors : Int) else 0) + pendingSects dir rqs

def pendingFrom (dir : IoDir) (off : Nat) : List BlkRq → Int
  | [] => 0
  | rq :: rqs => (if rq.dir = dir then (rq.sectors : Int) - off else 0) + pendingSects dir rqs

theorem pendingSects_append (dir : IoDir) (rqs more : List BlkRq) :
    pendingSects dir (rqs ++ more) = pendingSects dir rqs + pendingSects dir more := by
  induction rqs with
  | nil => simp [pendingSects]
  | cons rq rqs ih => rw [cons_append, pendingSects, pendingSects, ih, Int.add_assoc]

@[simp] theorem pendingFrom_zero (dir : IoDir) (rqs : List BlkRq) : pendingFrom dir 0 rqs = pendingSects dir rqs := by
  cases rqs <;> simp [pendingFrom, pendingSects]

theorem pendingFrom_cons (dir : IoDir) (off : Nat) (rq : BlkRq) (rqs : List BlkRq) :
    pendingFrom dir off (rq :: rqs) = pendingSects dir (rq :: rqs) - if rq.dir = dir then (off : Int) else 0 := by
  rw [pendingFrom, pendingSects]
  split_ifs <;> omega

theorem pendingFrom_append {rqs : List BlkRq} (h : rqs ≠ []) (dir : IoDir) (off : Nat) (more : List BlkRq) :
    pendingFrom dir off (rqs ++ more) = pendingFrom dir off rqs + pendingSects dir more := by
  cases rqs with
  | nil => exact absurd rfl h
  | cons rq rqs => rw [cons_append, pendingFrom, pendingFrom, pendingSects_append, Int.add_assoc]

theorem BlkRq.skip_eq (rq : BlkRq) {off sectS : Nat} (hoff : off < rq.sectors) (hs : sectS = (rq.pos + off) % 2^64) :
    (sectS + (2^64 - rq.pos)) % 2^64 % 2^32 = off := by
  have hpos := rq.pos_lt
  have hle : rq.sectors ≤ 256 := rq.sectors_le
  omega

theorem BlkRq.len_eq (rq : BlkRq) {off : Nat} (hoff : off ≤ rq.sectors) :
    (rq.sectors + (2^32 - off)) % 2^32 = rq.sectors - off := by
  have hle : rq.sectors ≤ 256 := rq.sectors_le
  omega

namespace VolumeDevice
variable {v : VolumeDevice} {off : Nat}

/-- r_sects and w_sects, by direction. -/
def sects (v : VolumeDevice) : IoDir → Int
  | .read => v.rSects
  | .write => v.wSects

theorem sects_addSects (v : VolumeDevice) (dir dir' : IoDir) (n : Int) :
    (v.addSects dir n).sects dir' = v.sects dir' + if dir = dir' then n else 0 := by
  cases dir <;> cases dir' <;> simp [addSects, sects]

def Pends (v : VolumeDevice) (off : Nat) : Prop := ∀ dir, v.sects dir = pendingFrom dir off v.volRqsList

/-- sect_start is inside of the first request. -/
def StartsAt (v : VolumeDevice) (off : Nat) : Prop :=
  ∀ rq ∈ v.volRqsList.head?, off < rq.sectors ∧ v.sectStart = (rq.pos + off) % 2^64

theorem startsAt_of_nil (h : v.volRqsList = []) (off : Nat) : v.StartsAt off := by
  intro rq hrq
  rw [h] at hrq
  cases hrq

theorem Pends.enqDmsRqVolList (h : v.Pends off) (hoff : v.volRqsList = [] → off = 0) (rq : BlkRq) :
    (v.enqDmsRqVolList rq).Pends off := by
  intro dir
  have hold := h dir
  rw [VolumeDevice.enqDmsRqVolList, sects_addSects, addSects_volRqsList]
  change v.sects dir + _ = pendingFrom dir off (v.volRqsList ++ [rq])
  have hone : pendingSects dir [rq] = if rq.dir = dir then (rq.sectors : Int) else 0 := Int.add_zero _
  by_cases hnil : v.volRqsList = []
  · rw [hnil] at hold ⊢
    rw [hold, hoff hnil, nil_append, pendingFrom_zero, pendingFrom_zero, hone]
    exact Int.zero_add _
  · rw [pendingFrom_append hnil, hold, hone]

/-- A request that comes to other ones does not move sect_start; the first one sets it. -/
theorem StartsAt.enqDmsRqVolList (h : v.StartsAt off) (hcnt : v.Counted) (hoff : v.volRqsList = [] → off = 0)
    (rq : BlkRq) : (v.enqDmsRqVolList rq).StartsAt off := by
  intro first hfirst
  rw [VolumeDevice.enqDmsRqVolList] at hfirst ⊢
  rw [addSects_volRqsList] at hfirst
  rw [addSects_sectStart]
  dsimp only at hfirst ⊢
  rw [Counted] at hcnt
  cases hlist : v.volRqsList with
  | nil =>
    rw [hlist] at hfirst hcnt
    cases hfirst
    rw [hoff hlist, hcnt, if_pos (by rfl), Nat.add_zero, Nat.mod_eq_of_lt rq.pos_lt]
    exact ⟨rq.sectors_pos, rfl⟩
  | cons cur rest =>
    rw [hlist] at hfirst hcnt
    rw [if_neg (by rw [hcnt, length_cons]; omega)]
    exact h first (by rw [hlist]; exact hfirst)

theorem sects_deqLoop (sectStart left cnt : Nat) (v : VolumeDevice) (arr : List BlkRq) (hcnt : cnt ≠ 0) (dir : IoDir) :
    (deqLoop sectStart left cnt v arr).1.sects dir = v.sects dir - pendingSects dir (v.volRqsList.take left) := by
  induction left generalizing cnt v arr with
  | zero => exact (Int.sub_zero _).symm
  | succ left ih =>
    rw [deqLoop]
    split
    · next hlist =>
      rw [hlist]
      exact (Int.sub_zero _).symm
    · next cur rest hlist =>
      dsimp only
      rw [if_neg hcnt, cur.len_eq (Nat.zero_le _), ih _ _ _ (Nat.succ_ne_zero cnt), addSects_volRqsList,
        sects_addSects, hlist, take_succ_cons, pendingSects]
      change v.sects dir + _ - pendingSects dir (rest.take left) = _
      split_ifs <;> omega

theorem Pends.deqDmsRqList (h : v.Pends off) (hstart : v.StartsAt off) : v.deqDmsRqList.1.Pends 0 := by
  intro dir
  obtain ⟨-, hlist, -, -⟩ := deqLoop_eq v.sectStart maxNumRqsMerge 0 v []
  rw [VolumeDevice.deqDmsRqList, hlist, pendingFrom_zero]
  obtain ⟨left, hleft⟩ : ∃ left, maxNumRqsMerge = left + 1 := ⟨255, rfl⟩
  have hold := h dir
  cases hv : v.volRqsList with
  | nil =>
    rw [hv] at hold
    rw [hleft, deqLoop, hv]
    exact hold
  | cons cur rest =>
    obtain ⟨hoff, hs⟩ := hstart cur (by rw [hv]; rfl)
    have hsum := congrArg (pendingSects dir) (take_append_drop left rest)
    rw [pendingSects_append] at hsum
    rw [hv, pendingFrom] at hold
    rw [hleft, deqLoop, hv]
    dsimp only
    rw [if_pos rfl, cur.skip_eq hoff hs, cur.len_eq hoff.le, sects_deqLoop _ _ _ _ _ (Nat.succ_ne_zero 0),
      addSects_volRqsList, sects_addSects, drop_succ_cons]
    change v.sects dir + _ - pendingSects dir (rest.take left) = _
    rw [hold]
    split_ifs <;> omega

theorem sects_enqBatchLoop {dir : IoDir} (v : VolumeDevice) {rqs : List BlkRq}
    (h : ∀ rq ∈ rqs, rq.dir = dir) (dir' : IoDir) :
    (enqBatchLoop dir v rqs).sects dir' = v.sects dir' + pendingSects dir' rqs := by
  induction rqs with
  | nil => exact (Int.add_zero _).symm
  | cons rq rqs ih =>
    have hdir : rq.dir = dir := h rq mem_cons_self
    have hrest := ih fun r hr => h r (mem_cons_of_mem _ hr)
    rw [enqBatchLoop, sects_addSects, pendingSects, hdir]
    change (enqBatchLoop dir v rqs).sects dir' + _ = _
    rw [hrest]
    omega

theorem Pends.enqBatch {dir : IoDir} {rq : BlkRq} {rqs : List BlkRq} {sectS : Nat} (h : v.Pends 0)
    (hdir : ∀ r ∈ rq :: rqs, r.dir = dir) (hoff : off < rq.sectors) (hs : sectS = (rq.pos + off) % 2^64) :
    (v.enqDmsRqVolListBatch (rq :: rqs) sectS).Pends off := by
  intro dir'
  have hne : rq :: rqs ≠ [] := cons_ne_nil rq rqs
  rw [volRqsList_enqBatch, enqDmsRqVolListBatch_of_ne hne, hdir _ (getLast_mem hne), head_cons,
    rq.skip_eq hoff hs, sects_addSects, sects_enqBatchLoop _ hdir, cons_append, pendingFrom_cons, ← cons_append,
    pendingSects_append, hdir rq mem_cons_self]
  change v.sects dir' + _ + _ = _
  rw [h dir', pendingFrom_zero]
  split_ifs <;> omega

theorem startsAt_enqBatch {rq : BlkRq} (v : VolumeDevice) (rqs : List BlkRq) {sectS : Nat} (hoff : off < rq.sectors)
    (hs : sectS = (rq.pos + off) % 2^64) : (v.enqDmsRqVolListBatch (rq :: rqs) sectS).StartsAt off := by
  intro first hfirst
  rw [volRqsList_enqBatch] at hfirst
  cases hfirst
  rw [enqDmsRqVolListBatch_of_ne (cons_ne_nil rq rqs), addSects_sectStart, (enqBatchLoop_eq _ _ _).2.2.2]
  exact ⟨hoff, hs⟩

theorem Pends.updateVolRqListStart (h : v.Pends off) : v.updateVolRqListStart.Pends off := by
  rw [VolumeDevice.updateVolRqListStart]
  split <;> exact h

theorem startsAt_updateVolRqListStart (v : VolumeDevice) : v.updateVolRqListStart.StartsAt 0 := by
  intro first hfirst
  rw [(updateVolRqListStart_eq v).1] at hfirst
  rw [updateVolRqListStart]
  split
  · next hlist =>
    rw [hlist] at hfirst
    cases hfirst
  · next cur rest hlist =>
    rw [hlist] at hfirst
    cases hfirst
    exact ⟨first.sectors_pos, (Nat.mod_eq_of_lt first.pos_lt).symm⟩

end VolumeDevice
end DiscoClient
