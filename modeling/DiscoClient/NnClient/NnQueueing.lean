import DiscoClient.NnClient.NnMdReq

namespace DiscoClient
open ThreadPool NnPoint

namespace NnPoint

def queues : NnPoint → Nat
  | .subInit | .subReady | .sched _ | .add _ | .rtCancel | .rtChk => 1
  | _ => 0

def allows : NnPoint → NnReqState → Bool
  | .subInit, st => st = .init
  | .subReady, st | .sched _, st => st = .waitSend
  | .add _, st => st = .waitSend || st = .timeoutFire
  | .rtCancel, st | .rtChk, st => st = .retryReq
  | _, _ => true

def unarmed : NnPoint → Bool
  | .subInit | .subReady | .sched _ | .rtChk => true
  | _ => false

theorem queues_of_unarmed {a : NnPoint} (h : a.unarmed = true) : a.queues = 1 := by
  cases a <;> first | rfl | cases h

theorem queues_le_one (a : NnPoint) : a.queues ≤ 1 := by
  cases a <;> first | exact Nat.le_refl 1 | exact Nat.zero_le 1

theorem allows_of_queues {a : NnPoint} (h : a.queues = 0) (st : NnReqState) : a.allows st = true := by
  cases a <;> first | rfl | cases h

end NnPoint

namespace NnReqRun
variable {s t : NnReqRun} {e : NnReqEvent}

theorem action_cases (s : NnReqRun) (e : NnReqEvent) : s.action e = e.grant ∨ s.action e = .noAction := by
  by_cases h : s.action e = .noAction
  · exact .inr h
  · have heq := NnReqFsm.update_of_granted h
    rw [nnMDgetReqUpdateState_eq] at heq
    split_ifs at heq
    · exact .inl (congrArg Prod.snd heq).symm
    · exact absurd (congrArg Prod.snd heq).symm h

theorem granted (h : s.action e = e.grant) : s.phase ∈ e.sources ∧ (s.updateState e).phase = e.target := by
  have hne : s.action e ≠ .noAction := h ▸ e.grant_ne
  have heq := NnReqFsm.update_of_granted hne
  rw [nnMDgetReqUpdateState_eq] at heq
  split_ifs at heq with hsrc
  · exact ⟨hsrc, (congrArg Prod.fst heq).symm⟩
  · exact absurd (congrArg Prod.snd heq).symm hne

theorem granted_of_source (h : s.phase ∈ e.sources) (he : e ≠ .timeoutFire) : s.action e = e.grant := by
  refine (NnReqFsm.update_action he).trans ?_
  rw [nnMDgetReqUpdateState_eq]
  exact congrArg Prod.snd (if_pos h)

theorem refused (h : s.action e ≠ e.grant) : s.updateState e = s := by
  have hno := (s.action_cases e).resolve_left h
  rw [updateState, NnReqFsm.update_of_refused hno]

structure Queueing (s : NnReqRun) : Prop where
  fea : s.inWorkQ = s.feaInWorkQ
  one : weight NnPoint.queues s.threads + s.inWorkQ.toNat ≤ 1
  placed : ∀ a, 0 < s.threads a → a.allows s.phase = true
  queued : s.inWorkQ = true → s.phase = .waitSend ∨ s.phase = .timeoutFire
  armed : s.timerQueued = true ∨ 0 < weight NnPoint.inTimer s.threads → s.feaSchedTimer = true
  unarmed : ∀ a, 0 < s.threads a → a.unarmed = true → s.timerQueued = false ∧ weight NnPoint.inTimer s.threads = 0

theorem queueing_none (hfea : t.inWorkQ = t.feaInWorkQ) (hone : weight NnPoint.queues t.threads = 0)
    (hqueued : t.inWorkQ = true → t.phase = .waitSend ∨ t.phase = .timeoutFire)
    (harmed : t.timerQueued = true ∨ 0 < weight NnPoint.inTimer t.threads → t.feaSchedTimer = true) : Queueing t := by
  have hzero := weight_eq_zero_iff.mp hone
  refine ⟨hfea, ?_, fun a ha => allows_of_queues (hzero a ha) _, hqueued, harmed, fun a ha hun => ?_⟩
  · rw [hone, Nat.zero_add]
    exact Bool.toNat_le _
  · exact absurd ((hzero a ha).symm.trans (queues_of_unarmed hun)) (by decide)

theorem queueing_single {b : NnPoint} (hin : t.inWorkQ = false) (hfea : t.feaInWorkQ = false)
    (hone : weight NnPoint.queues t.threads ≤ 1) (hb : 0 < t.threads b) (hq : b.queues = 1)
    (hplaced : b.allows t.phase = true)
    (harmed : t.timerQueued = true ∨ 0 < weight NnPoint.inTimer t.threads → t.feaSchedTimer = true)
    (hun : b.unarmed = true → t.timerQueued = false ∧ weight NnPoint.inTimer t.threads = 0) : Queueing t := by
  have halone {a : NnPoint} (ha : 0 < t.threads a) (hqa : a.queues = 1) : a = b := by
    by_contra hne
    exact Nat.ne_of_gt ha (eq_zero_of_weight_le_one hone hb hq hqa hne)
  refine ⟨hin.trans hfea.symm, ?_, fun a ha => ?_, fun h => ?_, harmed, fun a ha hua => ?_⟩
  · have hzero : t.inWorkQ.toNat = 0 := congrArg Bool.toNat hin
    omega
  · rcases Nat.lt_or_ge 0 a.queues with hqa | hqa
    · rw [halone ha (Nat.le_antisymm a.queues_le_one hqa)]
      exact hplaced
    · exact allows_of_queues (Nat.le_zero.mp hqa) _
  · rw [hin] at h
    cases h
  · rw [halone ha (queues_of_unarmed hua)] at hua
    exact hun hua

namespace Queueing

theorem not_queued (h : Queueing s) {a : NnPoint} (ha : 0 < s.threads a) (hq : a.queues = 1) :
    s.inWorkQ = false ∧ s.feaInWorkQ = false ∧ weight NnPoint.queues s.threads = 1 := by
  have hle := le_weight queues ha
  have hone := h.one
  have hin : s.inWorkQ = false := by
    cases hin : s.inWorkQ
    · rfl
    · rw [hin, Bool.toNat_true] at hone
      omega
  refine ⟨hin, h.fea ▸ hin, ?_⟩
  omega

theorem idle (h : Queueing s) (hp : s.phase = .sending ∨ s.phase = .waitResp ∨ s.phase = .processResp) :
    s.inWorkQ = false ∧ s.feaInWorkQ = false ∧ weight NnPoint.queues s.threads = 0 := by
  have hin : s.inWorkQ = false := Bool.eq_false_iff.mpr fun hin => by
    rcases h.queued hin with hq | hq <;> rcases hp with hp | hp | hp <;> rw [hq] at hp <;> cases hp
  refine ⟨hin, h.fea ▸ hin, weight_eq_zero_iff.mpr fun a ha => ?_⟩
  have hplaced := h.placed a ha
  cases a <;> first | rfl | (rcases hp with hp | hp | hp <;> rw [hp] at hplaced <;> cases hplaced)

end Queueing

section Frame
variable {a b : NnPoint}

structure NoQueue (s t : NnReqRun) : Prop where
  phase : t.phase = s.phase
  fea : t.inWorkQ = t.feaInWorkQ
  inWorkQ : t.inWorkQ = true → s.inWorkQ = true
  le : ∀ a : NnPoint, a.queues = 1 → t.threads a ≤ s.threads a
  queues : weight NnPoint.queues t.threads ≤ weight NnPoint.queues s.threads

theorem noQueue_enter (hphase : t.phase = s.phase) (hfea : t.inWorkQ = t.feaInWorkQ)
    (hin : t.inWorkQ = true → s.inWorkQ = true) (ht : t.threads = ThreadPool.enter s.threads b) (hb : b.queues = 0) :
    NoQueue s t := by
  refine ⟨hphase, hfea, hin, fun i hi => ?_, ?_⟩
  · rw [ht, enter_of_ne]
    intro heq
    rw [heq, hb] at hi
    cases hi
  · rw [ht, weight_enter, hb, Nat.add_zero]

theorem noQueue_move (hphase : t.phase = s.phase) (hfea : t.inWorkQ = t.feaInWorkQ)
    (hin : t.inWorkQ = true → s.inWorkQ = true) (ht : t.threads = ThreadPool.move s.threads a b) (ha : 0 < s.threads a)
    (hb : b.queues = 0) : NoQueue s t := by
  refine ⟨hphase, hfea, hin, fun i hi => ?_, ?_⟩
  · rw [ht]
    refine move_le _ _ fun heq => ?_
    rw [heq, hb] at hi
    cases hi
  · have hw := weight_move queues b ha
    rw [ht]
    omega

theorem noQueue_leave (hphase : t.phase = s.phase) (hfea : t.inWorkQ = t.feaInWorkQ)
    (hin : t.inWorkQ = true → s.inWorkQ = true) (ht : t.threads = ThreadPool.leave s.threads a) (ha : 0 < s.threads a) :
    NoQueue s t := by
  refine ⟨hphase, hfea, hin, fun i _ => ?_, ?_⟩
  · rw [ht]
    exact leave_le _ _ _
  · have hw := weight_leave queues ha
    rw [ht]
    omega

theorem Queueing.of_noQueue (h : Queueing s) (hq : NoQueue s t)
    (harmed : t.timerQueued = true ∨ 0 < weight NnPoint.inTimer t.threads → t.feaSchedTimer = true)
    (hun : ∀ a, 0 < s.threads a → a.unarmed = true → t.timerQueued = false ∧ weight NnPoint.inTimer t.threads = 0) :
    Queueing t := by
  obtain ⟨hphase, hfea, hin, hle, hone⟩ := hq
  refine ⟨hfea, ?_, fun a ha => ?_, fun hin' => ?_, harmed, fun a ha hua => ?_⟩
  · have hs := h.one
    have := Bool.toNat_le_toNat hin
    omega
  · rw [hphase]
    rcases Nat.lt_or_ge 0 a.queues with hqa | hqa
    · exact h.placed a (ha.trans_le (hle a (Nat.le_antisymm a.queues_le_one hqa)))
    · exact allows_of_queues (Nat.le_zero.mp hqa) _
  · rw [hphase]
    exact h.queued (hin hin')
  · exact hun a (ha.trans_le (hle a (queues_of_unarmed hua))) hua

structure NoTimer (s t : NnReqRun) : Prop where
  timerQueued : t.timerQueued = s.timerQueued
  feaSchedTimer : t.feaSchedTimer = s.feaSchedTimer
  inTimer : weight NnPoint.inTimer t.threads ≤ weight NnPoint.inTimer s.threads

theorem NoTimer.armed (hq : NoTimer s t) (h : Queueing s) :
    t.timerQueued = true ∨ 0 < weight NnPoint.inTimer t.threads → t.feaSchedTimer = true := by
  rw [hq.timerQueued, hq.feaSchedTimer]
  exact fun harm => h.armed (harm.imp_right fun hpos => hpos.trans_le hq.inTimer)

theorem NoTimer.unarmed (hq : NoTimer s t) (h : Queueing s) (ha : 0 < s.threads a) (hua : a.unarmed = true) :
    t.timerQueued = false ∧ weight NnPoint.inTimer t.threads = 0 := by
  obtain ⟨htq, hw⟩ := h.unarmed a ha hua
  exact ⟨hq.timerQueued.trans htq, Nat.le_zero.mp (hw ▸ hq.inTimer)⟩

theorem noTimer_move (htq : t.timerQueued = s.timerQueued) (hfea : t.feaSchedTimer = s.feaSchedTimer)
    (ht : t.threads = ThreadPool.move s.threads a b) (ha : 0 < s.threads a) (hw : b.inTimer ≤ a.inTimer) : NoTimer s t := by
  have hmove := weight_move inTimer b ha
  refine ⟨htq, hfea, ?_⟩
  rw [ht]
  omega

theorem noTimer_leave (htq : t.timerQueued = s.timerQueued) (hfea : t.feaSchedTimer = s.feaSchedTimer)
    (ht : t.threads = ThreadPool.leave s.threads a) (ha : 0 < s.threads a) : NoTimer s t := by
  have hleave := weight_leave inTimer ha
  refine ⟨htq, hfea, ?_⟩
  rw [ht]
  omega

theorem noTimer_enter (htq : t.timerQueued = s.timerQueued) (hfea : t.feaSchedTimer = s.feaSchedTimer)
    (ht : t.threads = ThreadPool.enter s.threads b) (hb : b.inTimer = 0) : NoTimer s t := by
  refine ⟨htq, hfea, ?_⟩
  rw [ht, weight_enter, hb, Nat.add_zero]

end Frame

theorem queueing_init (acquire cacheHit : Bool) (reqID : UInt32) (tDur : Int) :
    Queueing (init acquire cacheHit reqID tDur) := by
  obtain ⟨t, ht⟩ : ∃ t, t = init acquire cacheHit reqID tDur := ⟨_, rfl⟩
  have hthreads : t.threads = ThreadPool.enter (fun _ => 0) .subInit := by rw [ht]; rfl
  have htq : t.timerQueued = false := by rw [ht]; rfl
  have hw : weight queues t.threads = 1 := by rw [hthreads, weight_enter, weight_zero]; rfl
  have htimer : weight inTimer t.threads = 0 := by rw [hthreads, weight_enter, weight_zero]; rfl
  rw [← ht]
  refine queueing_single (b := .subInit) (by rw [ht]; rfl) (by rw [ht]; rfl) (Nat.le_of_eq hw) ?_ rfl ?_ ?_ ?_
  · rw [hthreads]
    exact enter_pos _ _
  · rw [ht]
    cases acquire <;> rfl
  · rw [htimer, htq]
    rintro (h | h) <;> cases h
  · exact fun _ => ⟨htq, htimer⟩

namespace Queueing
variable {a b : NnPoint}

variable (h : Queueing s)
include h

theorem advance (ha : 0 < s.threads a) (hqa : a.queues = 1) (hqb : b.queues = 1)
    (ht : t.threads = ThreadPool.move s.threads a b) (hin : t.inWorkQ = s.inWorkQ) (hfea : t.feaInWorkQ = s.feaInWorkQ)
    (hplaced : b.allows t.phase = true)
    (harmed : t.timerQueued = true ∨ 0 < weight NnPoint.inTimer s.threads → t.feaSchedTimer = true)
    (hun : b.unarmed = true → t.timerQueued = false ∧ weight NnPoint.inTimer s.threads = 0) : Queueing t := by
  obtain ⟨hin', hfea', hone⟩ := h.not_queued ha hqa
  have hw := weight_move queues b ha
  have hwt := weight_move inTimer b ha
  have htimer : weight inTimer t.threads = weight inTimer s.threads := by
    have hout {i : NnPoint} (hi : i.queues = 1) : i.inTimer = 0 := by
      cases i <;> first | rfl | cases hi
    rw [hout hqa, hout hqb] at hwt
    rw [ht]
    exact hwt
  refine queueing_single (b := b) (hin.trans hin') (hfea.trans hfea') ?_ ?_ hqb hplaced ?_ ?_
  · rw [ht]
    omega
  · rw [ht]
    exact enter_pos _ _
  · rw [htimer]
    exact harmed
  · rw [htimer]
    exact hun

theorem settle (hone : weight NnPoint.queues t.threads = 0) (hin : t.inWorkQ = false)
    (hfea : t.feaInWorkQ = false) (htimer : NoTimer s t) : Queueing t :=
  queueing_none (hin.trans hfea.symm) hone (fun h' => absurd (hin.symm.trans h') Bool.false_ne_true) (htimer.armed h)

theorem quiet (hq : NoQueue s t) (htimer : NoTimer s t) : Queueing t :=
  h.of_noQueue hq (htimer.armed h) fun _ => htimer.unarmed h

theorem quiet_move (ha : 0 < s.threads a) (hb : b.queues = 0) (hw : b.inTimer ≤ a.inTimer) :
    Queueing (s.move a b) :=
  h.quiet (noQueue_move rfl h.fea id rfl ha hb) (noTimer_move rfl rfl rfl ha hw)

theorem quiet_leave (ha : 0 < s.threads a) : Queueing (s.leave a) :=
  h.quiet (noQueue_leave rfl h.fea id rfl ha) (noTimer_leave rfl rfl rfl ha)

end Queueing
end NnReqRun
end DiscoClient
