import DiscoClient.NnClient.NnMdReq

/-! The time a metadata request has left when the connection to the name node is back: NNMDReq_retry_Req. -/
namespace DiscoClient

/-- The timer in jiffies, for a rest of y - 999 ms: the seconds are a uint64_t. -/
def timerJiffies (hz : Nat) (y : Int) : UInt64 :=
  (if u64 (y.tdiv 1000) ≤ minNnMdReqSchedTime then 0 else u64 (y.tdiv 1000)) * .ofNat hz

section
variable {hz : Nat} {y : Int}

theorem toNat_u64 (k : Nat) (hk : k < 2 ^ 64) : (u64 k).toNat = k := by
  rw [u64, UInt64.toNat_ofNat']
  omega

theorem toNat_u64_neg (k : Nat) (hpos : 0 < k) (hk : k < 2 ^ 64) : (u64 (-k)).toNat = 2 ^ 64 - k := by
  rw [u64, UInt64.toNat_ofNat']
  omega

theorem toNat_timerJiffies (hhz : hz < 2 ^ 31) {secs : Nat} (hsecs : (u64 (y.tdiv 1000)).toNat = secs) :
    (timerJiffies hz y).toNat = if secs ≤ 5 then 0 else secs * hz % 2 ^ 64 := by
  have hmin : u64 (y.tdiv 1000) ≤ minNnMdReqSchedTime ↔ secs ≤ 5 := hsecs ▸ UInt64.le_iff_toNat_le
  rw [timerJiffies]
  by_cases hsmall : secs ≤ 5
  · rw [if_pos (hmin.mpr hsmall), if_pos hsmall, UInt64.zero_mul]
    rfl
  · rw [if_neg (mt hmin.mp hsmall), if_neg hsmall, UInt64.toNat_mul, hsecs, UInt64.toNat_ofNat_of_lt'
      (Nat.lt_trans hhz (by decide))]

theorem timerJiffies_nonneg (hy : 0 ≤ y) (hlt : y < 2 ^ 31) (hhz : hz < 2 ^ 31) :
    (timerJiffies hz y).toNat = if y < 6000 then 0 else y.toNat / 1000 * hz := by
  have hdiv : y.tdiv 1000 = (y.toNat / 1000 : Nat) := by
    rw [Int.tdiv_eq_ediv_of_nonneg hy]
    omega
  have hprod : y.toNat / 1000 * hz < 2 ^ 64 :=
    calc y.toNat / 1000 * hz ≤ 2 ^ 31 * 2 ^ 31 := Nat.mul_le_mul (by omega) (by omega)
      _ < 2 ^ 64 := by decide
  rw [toNat_timerJiffies hhz (hdiv ▸ toNat_u64 _ (by omega)), Nat.mod_eq_of_lt hprod]
  exact if_congr (by omega) rfl rfl

theorem tdiv_of_neg (hneg : y < 0) : y.tdiv 1000 = -(((-y).toNat / 1000 : Nat) : Int) := by
  rw [← Int.neg_neg y, Int.neg_tdiv, Int.tdiv_eq_ediv_of_nonneg (by omega)]
  omega

theorem timerJiffies_small (hy : -1000 < y) (hneg : y < 0) (hhz : hz < 2 ^ 31) : (timerJiffies hz y).toNat = 0 := by
  have hzero : (-y).toNat / 1000 = 0 := by omega
  have hsecs : (u64 (y.tdiv 1000)).toNat = 0 := by
    rw [tdiv_of_neg hneg, hzero]
    rfl
  rw [toNat_timerJiffies hhz hsecs]
  rfl

/-- More was used: the seconds, as a uint64_t, are more than any budget. -/
theorem lt_timerJiffies (hy : y ≤ -1000) (hge : -2 ^ 31 ≤ y) (hpos : 0 < hz) (hhz : hz < 2 ^ 31) {c : Nat} (hc : c < 2 ^ 31) :
    c * hz < (timerJiffies hz y).toNat := by
  obtain ⟨k, hk⟩ : ∃ k, k = (-y).toNat / 1000 := ⟨_, rfl⟩
  have hsecs : (u64 (y.tdiv 1000)).toNat = 2 ^ 64 - k := by
    rw [tdiv_of_neg (by omega), ← hk]
    exact toNat_u64_neg k (by omega) (by omega)
  have hkhz : k * hz ≤ 2 ^ 22 * 2 ^ 31 := Nat.mul_le_mul (by omega) (by omega)
  have hchz : c * hz ≤ 2 ^ 31 * 2 ^ 31 := Nat.mul_le_mul (by omega) (by omega)
  have hone : 1 * 1 ≤ k * hz := Nat.mul_le_mul (by omega) hpos
  -- (2^64 - k) * hz is 2^64 - k * hz modulo 2^64
  have hmod : (2 ^ 64 - k) * hz % 2 ^ 64 = 2 ^ 64 - k * hz := by
    have hsum : (2 ^ 64 - k) * hz = 2 ^ 64 - k * hz + 2 ^ 64 * (hz - 1) := by
      rw [Nat.sub_mul, Nat.mul_sub_one]
      have : 2 ^ 64 * 1 ≤ 2 ^ 64 * hz := Nat.mul_le_mul_left _ hpos
      omega
    rw [hsum, Nat.add_mul_mod_self_left, Nat.mod_eq_of_lt (by omega)]
  rw [toNat_timerJiffies hhz hsecs, if_neg (by omega), hmod]
  omega

end

/-- The timer of a retry is not longer than the time left, rounded up to a second, and without time left it
is refused. NNMDReq_sched_timer returns -ETIME for a timer of 0. -/
structure WithinBudget (hz : Nat) (left : Int) (tDur : UInt64) : Prop where
  bound : 0 < left → tDur.toNat ≤ ((left + 999) / 1000).toNat * hz
  refused : left ≤ 0 → tDur = 0

/-- The rest can be rounded up in an int32_t, or it was used up less than two seconds ago; it is kept in an
int32_t, so it is the same 2^32 ms later. -/
def BudgetTold (left : Int) : Prop := if 0 < left then left + 999 < 2 ^ 31 else (left + 1998) % 2 ^ 32 < 6999

theorem timerJiffies_within_iff {hz : Nat} (hpos : 0 < hz) (hhz : hz < 2 ^ 31) {left : Int} (hlt : left < 2 ^ 31) :
    WithinBudget hz left (timerJiffies hz (i32 (left + 999))) ↔ BudgetTold left := by
  obtain ⟨y, hy⟩ : ∃ y, y = i32 (left + 999) := ⟨_, rfl⟩
  have hrange : -2 ^ 31 ≤ y ∧ y < 2 ^ 31 := by
    rw [hy, i32]
    omega
  rw [← hy, BudgetTold]
  rw [i32] at hy
  have hzero : timerJiffies hz y = 0 ↔ (timerJiffies hz y).toNat = 0 := UInt64.toNat_inj.symm
  split_ifs with hleft
  · have hwithin : WithinBudget hz left (timerJiffies hz y) ↔
        (timerJiffies hz y).toNat ≤ ((left + 999) / 1000).toNat * hz :=
      ⟨fun h => h.bound hleft, fun h => ⟨fun _ => h, fun hle => absurd hleft (Int.not_lt.mpr hle)⟩⟩
    rw [hwithin]
    by_cases hround : left + 999 < 2 ^ 31
    · refine iff_of_true ?_ hround
      obtain rfl : y = left + 999 := by omega
      rw [timerJiffies_nonneg (by omega) hrange.2 hhz]
      split_ifs
      · exact Nat.zero_le _
      · exact Nat.mul_le_mul_right hz (by omega)
    · -- rounding up overflows
      refine iff_of_false (Nat.not_le.mpr ?_) hround
      exact lt_timerJiffies (by omega) hrange.1 hpos hhz (by omega)
  · have hwithin : WithinBudget hz left (timerJiffies hz y) ↔ (timerJiffies hz y).toNat = 0 :=
      ⟨fun h => hzero.mp (h.refused (Int.not_lt.mp hleft)), fun h => ⟨fun hgt => absurd hgt hleft, fun _ => hzero.mpr h⟩⟩
    rw [hwithin]
    rcases lt_or_ge y 0 with hneg | hnonneg
    · rcases lt_or_ge (-1000) y with hsmall | hbig
      · exact iff_of_true (timerJiffies_small hsmall hneg hhz) (by omega)
      · have hlong : 0 * hz < (timerJiffies hz y).toNat := lt_timerJiffies hbig hrange.1 hpos hhz (by decide)
        exact iff_of_false (by omega) (by omega)
    · rw [timerJiffies_nonneg hnonneg hrange.2 hhz]
      split_ifs with hsmall
      · exact iff_of_true rfl (by omega)
      · have hsix : 6 * 1 ≤ y.toNat / 1000 * hz := Nat.mul_le_mul (by omega) hpos
        exact iff_of_false (by omega) (by omega)

structure JiffyClock where
  hz : Nat
  ms : UInt64 → Nat
  pos : 0 < hz
  lt : hz < 2 ^ 31

/-- jiffies_to_msecs returns the milliseconds as an unsigned int. -/
def JiffyClock.config (clock : JiffyClock) : NnTimeConfig := ⟨clock.hz, fun j => .ofNat (clock.ms j)⟩

def JiffyClock.spent (clock : JiffyClock) (es : List Nat) : Nat := (es.map fun e => clock.ms (.ofNat e)).sum

theorem JiffyClock.spent_cons (clock : JiffyClock) (e : Nat) (es : List Nat) :
    clock.spent (e :: es) = clock.ms (.ofNat e) + clock.spent es := List.sum_cons

theorem JiffyClock.spent_concat (clock : JiffyClock) (es : List Nat) (e : Nat) :
    clock.spent (es ++ [e]) = clock.spent es + clock.ms (.ofNat e) := by
  rw [spent, List.map_append, List.sum_append]
  rfl

namespace NnReqRun

def afterRetries (cfg : NnTimeConfig) (s : NnReqRun) (t : Nat) : List Nat → NnReqRun
  | [] => s
  | e :: es => (s.chargeTime cfg (.ofNat (t + e))).afterRetries cfg (t + e) es

/-- A request that was submitted at time t and has left ms of its time, as an int32_t. -/
structure Submitted (t : Nat) (left : Int) (s : NnReqRun) : Prop where
  acquire : s.acquire = true
  time : s.lastSubmitT = .ofNat t
  rest : (s.rToMsec - left) % 2 ^ 32 = 0

variable (clock : JiffyClock) {s : NnReqRun} {t e : Nat} {left : Int}

theorem toNat_ofNat_small {n : Nat} (hn : n < 2 ^ 63) : (UInt64.ofNat n).toNat = n :=
  UInt64.toNat_ofNat_of_lt' (Nat.lt_trans hn (by decide))

theorem elapsed_eq (hlt : t + e < 2 ^ 63) :
    (if timeAfter64 (.ofNat (t + e)) (.ofNat t) then UInt64.ofNat (t + e) - .ofNat t else 0) = .ofNat e := by
  have hdiff : UInt64.ofNat (t + e) - .ofNat t = .ofNat e := by
    rw [Nat.add_comm, UInt64.ofNat_add, UInt64.add_sub_cancel]
  split_ifs with hafter
  · exact hdiff
  · obtain rfl : e = 0 := by
      rw [timeAfter64, decide_eq_true_iff, UInt64.toNat_sub, toNat_ofNat_small hlt, toNat_ofNat_small (by omega)] at hafter
      omega
    rfl

section

variable (h : Submitted t left s)
include h

theorem Submitted.remaining (ht : 0 < t) (hlt : t + e < 2 ^ 63) :
    s.remaining clock.config (.ofNat (t + e)) = i32 (left - clock.ms (.ofNat e)) := by
  have hrest := h.rest
  have hne : UInt64.ofNat t ≠ 0 := by
    intro hzero
    have hnat := congrArg UInt64.toNat hzero
    rw [toNat_ofNat_small (by omega)] at hnat
    exact absurd hnat (Nat.ne_of_gt ht)
  have hmsecs : (clock.config.jiffiesToMsecs (.ofNat e)).toNat = clock.ms (.ofNat e) % 2 ^ 32 := UInt32.toNat_ofNat'
  rw [NnReqRun.remaining, h.time, if_neg hne, elapsed_eq hlt]
  change i32 (s.rToMsec - (clock.config.jiffiesToMsecs (.ofNat e)).toNat) = _
  rw [hmsecs, i32, i32]
  omega

theorem Submitted.retry (ht : 0 < t) (hlt : t + e < 2 ^ 63) :
    Submitted (t + e) (left - clock.ms (.ofNat e)) (s.chargeTime clock.config (.ofNat (t + e))) := by
  rw [chargeTime, h.remaining clock ht hlt, h.acquire]
  refine ⟨rfl, rfl, ?_⟩
  change (i32 (left - clock.ms (.ofNat e)) - (left - clock.ms (.ofNat e))) % 2 ^ 32 = 0
  rw [i32]
  omega

theorem Submitted.afterRetries (ht : 0 < t) (es : List Nat) (hlt : t + es.sum < 2 ^ 63) :
    Submitted (t + es.sum) (left - clock.spent es) (s.afterRetries clock.config t es) := by
  induction es generalizing s t left with
  | nil =>
    rw [JiffyClock.spent, List.map_nil, List.sum_nil, Nat.add_zero, Int.natCast_zero, Int.sub_zero]
    exact h
  | cons e es ih =>
    rw [List.sum_cons] at hlt
    have hrest := ih (h.retry clock (e := e) ht (by omega)) (by omega) (by omega)
    have hleft : left - clock.spent (e :: es) = left - clock.ms (.ofNat e) - clock.spent es := by
      rw [clock.spent_cons]
      omega
    rw [List.sum_cons, ← Nat.add_assoc, hleft]
    exact hrest

theorem Submitted.scheduleTime (ht : 0 < t) (hlt : t + e < 2 ^ 63) :
    s.scheduleTime clock.config (.ofNat (t + e)) = timerJiffies clock.hz (i32 (left - clock.ms (.ofNat e) + 999)) := by
  have hround : i32 (i32 (left - clock.ms (.ofNat e)) + 999) = i32 (left - clock.ms (.ofNat e) + 999) := by
    simp only [i32]
    omega
  rw [NnReqRun.scheduleTime, if_pos h.acquire, mdReqScheduleTime, h.remaining clock ht hlt, hround]
  rfl

end

/-- A retry keeps to the budget just when what is left can be rounded up in an int32_t, or was used up less
than two seconds ago (or so a multiple of 2^32 ms before that). -/
theorem retry_within_budget_iff (clock : JiffyClock) (s : NnReqRun) (hacquire : s.acquire = true) (hfirst : s.lastSubmitT = 0)
    (hbudget : s.rToMsec < 2 ^ 31) (t : Nat) (ht : 0 < t) (es : List Nat) (e : Nat) (hlt : t + es.sum + e < 2 ^ 63) :
    WithinBudget clock.hz (s.rToMsec - clock.spent (es ++ [e]))
        (((s.chargeTime clock.config (.ofNat t)).afterRetries clock.config t es).scheduleTime clock.config
          (.ofNat (t + es.sum + e))) ↔
      BudgetTold (s.rToMsec - clock.spent (es ++ [e])) := by
  have hsubmitted : Submitted t s.rToMsec (s.chargeTime clock.config (.ofNat t)) := by
    rw [chargeTime, hacquire, NnReqRun.remaining, if_pos hfirst]
    refine ⟨rfl, rfl, ?_⟩
    change (s.rToMsec - s.rToMsec) % 2 ^ 32 = 0
    rw [Int.sub_self]
    rfl
  have hstate := hsubmitted.afterRetries clock ht es (by omega)
  have hleft : s.rToMsec - clock.spent (es ++ [e]) = s.rToMsec - clock.spent es - clock.ms (.ofNat e) := by
    rw [clock.spent_concat]
    omega
  rw [hstate.scheduleTime clock (by omega) hlt, hleft]
  exact timerJiffies_within_iff clock.pos clock.lt (by omega)

theorem centi_pos : 0 < 100 := Nat.succ_pos _

def centiClock : JiffyClock := ⟨100, fun j => j.toNat * 10, centi_pos, Nat.le_of_ble_eq_true rfl⟩

/-- A request with 30 s that is retried after 10 s gets a timer of 20 s at most. -/
theorem retry_within_budget_twenty : WithinBudget 100 20000
    (((init true false 1 30).chargeTime centiClock.config 100).scheduleTime centiClock.config 1100) :=
  (retry_within_budget_iff centiClock (init true false 1 30) rfl rfl (by decide) 100 (by decide) [] 1000 (by decide)).mpr
    ((if_pos (by decide)).mpr (by decide))

/-- A request with 30 s that is retried after 40 s is scheduled, with a timer of 2^64 - 900 jiffies. -/
theorem retry_after_budget_scheduled :
    ((init true false 1 30).chargeTime centiClock.config 100).scheduleTime centiClock.config 4100 = 18446744073709550716 ∧
    (((init true false 1 30).chargeTime centiClock.config 100).schedTimer centiClock.config 4100 .retry).timerQueued = true := by
  decide

end NnReqRun
end DiscoClient
