import DiscoClient.NnClient.NnFlowCounted
import DiscoClient.Lib.Countdown

namespace DiscoClient
open List

namespace NnFlow
variable {s : NnFlow} {cfg : NnTimeConfig} {r r' : FcReq} {res : FcRes} {i : Nat}

structure Inv (s : NnFlow) : Prop where
  count : s.res.allocOutResMax = s.reqs.countP (·.isOpen)
  reqs : ∀ r ∈ s.reqs, r.Counted

theorem Inv.set (h : Inv s) (hi : s.reqs[i]? = some r) (hr : r'.Counted)
    (hcount : res.allocOutResMax + (if r.isOpen then 1 else 0) = s.res.allocOutResMax + (if r'.isOpen then 1 else 0)) :
    Inv ⟨res, s.reqs.set i r'⟩ := by
  refine ⟨?_, fun q hq => ?_⟩
  · have hset := Countdown.countP_set_add hi r' (·.isOpen)
    have := h.count
    dsimp only
    split_ifs at hcount hset <;> omega
  · rcases mem_or_eq_of_mem_set hq with hq | rfl
    · exact h.reqs q hq
    · exact hr

theorem Inv.grant (h : Inv s) (hi : s.reqs[i]? = some r) (hpos : 0 < r.run.threads .peeked) (hnew : Ungranted r)
    (hres : res.allocOutResMax = s.res.allocOutResMax + 1) : Inv ⟨res, s.stepReq cfg i .fcPass⟩ := by
  rw [stepReq, hi]
  refine h.set hi ((h.reqs r (mem_of_getElem? hi)).pass hpos hnew) ?_
  have hclosed : r.isOpen = false := by simp [FcReq.isOpen, hnew.1]
  have hopen : (r.step cfg .fcPass).isOpen = true := by
    simp [FcReq.isOpen, FcReq.step, hnew.2.1, hnew.2.2.1, hnew.2.2.2]
  simp [hclosed, hopen, hres]

theorem Inv.step (h : Inv s) {e : NnFlowEvent} (he : s.enabled cfg e) (ho : s.Orderly cfg e) : Inv (s.step cfg e) := by
  cases e with
  | make acquire cacheHit reqID tDur =>
    refine ⟨?_, fun q hq => ?_⟩
    · have hclosed : (FcReq.init acquire cacheHit reqID tDur).isOpen = false := rfl
      simpa [NnFlow.step, countP_append, hclosed] using h.count
    · rcases mem_append.mp hq with hq | hq
      · exact h.reqs q hq
      · rw [mem_singleton.mp hq]
        exact FcReq.counted_init acquire cacheHit reqID tDur
  | bypass i =>
    obtain ⟨r, hi, hpos⟩ := he
    exact h.grant hi hpos (ho r hi) rfl
  | turn i currTime ioStartTime enableFc =>
    obtain ⟨r, hi, hpos⟩ := he
    have ho := ho r hi
    have hmax := s.res.shouldTriggerFc_max cfg.jiffiesToMsecs currTime ioStartTime
    change (s.turn cfg currTime ioStartTime).1.allocOutResMax = _ + if (s.turn cfg currTime ioStartTime).2 = _ then _ else _
      at hmax
    change Inv ⟨(s.turn cfg currTime ioStartTime).1,
      s.stepReq cfg i (if (s.turn cfg currTime ioStartTime).2 = fcNoBlock then .fcPass else .fcWait enableFc)⟩
    split_ifs at ho hmax ⊢ with hpass
    · exact h.grant hi hpos ho hmax
    · have henabled : (NnReqRun.machine cfg).enabled r.run (.fcWait enableFc) := by
        refine ⟨fun a ha => ?_, trivial⟩
        obtain rfl : NnPoint.peeked = a := by simpa [NnEvent.point] using ha
        exact hpos
      rw [stepReq, hi]
      refine h.set hi ((h.reqs r (mem_of_getElem? hi)).next henabled (by simp) ?_ (by simp) (by simp)) ?_
      · rintro b hb
        obtain rfl : enableFc = b := by simpa using hb
        exact ho
      · have hsame : (r.step cfg (.fcWait enableFc)).isOpen = r.isOpen := by simp [FcReq.isOpen, FcReq.step]
        rw [hsame, hmax, add_zero]
  | act i e =>
    obtain ⟨r, hi, henabled, hacts⟩ := he
    have hcounted := h.reqs r (mem_of_getElem? hi)
    have hpass : e ≠ .fcPass := by
      rintro rfl
      cases hacts
    have hretry : e = .endfn .retry → r.granted = false := by
      rintro rfl
      simpa [endsOrderly] using ho r hi
    rw [NnFlow.step, hi]
    refine h.set hi (hcounted.next henabled hpass ?_ ?_ hretry) (hcounted.count_after henabled hpass ?_ hretry)
    · rintro b rfl
      cases hacts
    · rintro rfl
      simpa [acts] using hacts
    · rintro rfl
      exact ho r hi
  | limits isAvailable fcCurrRate fcCurrMaxReqs allocOutResRate => exact ⟨h.count, h.reqs⟩

/-- In every run in which requests are granted a resource once and before they end, flow control stays on
while one waits for that, timers end only requests that were granted one and late retries only others, the
count is that of the requests which hold a resource. -/
theorem flow_control_balanced (cfg : NnTimeConfig) (res : FcRes) (es : List NnFlowEvent)
    (h : ((machine cfg).restrict (Orderly cfg)).Legal (init res) es) : Balanced ((machine cfg).exec (init res) es) := by
  have hinv : Inv ((machine cfg).exec (init res) es) :=
    GuardedMachine.exec_invariant (m := (machine cfg).restrict (Orderly cfg)) (I := Inv)
      ⟨rfl, fun r hr => absurd hr not_mem_nil⟩ (fun _ _ ht he => ht.step he.1 he.2) h
  exact ⟨hinv.count, hinv.count ▸ Int.natCast_nonneg _⟩

section Decidable
variable (cfg : NnTimeConfig) (s : NnFlow)

instance (r : FcReq) : Decidable (Ungranted r) := inferInstanceAs (Decidable (_ ∧ _ ∧ _ ∧ _))

instance : (e : NnFlowEvent) → Decidable ((machine cfg).enabled s e)
  | .make _ _ _ _ => isTrue trivial
  | .bypass i => inferInstanceAs (Decidable (∃ r ∈ s.reqs[i]?, 0 < r.run.threads .peeked))
  | .turn i _ _ _ => inferInstanceAs (Decidable (∃ r ∈ s.reqs[i]?, 0 < r.run.threads .peeked))
  | .act i e => inferInstanceAs (Decidable (∃ r ∈ s.reqs[i]?, (NnReqRun.machine cfg).enabled r.run e ∧ acts r e = true))
  | .limits _ _ _ _ => isTrue trivial

instance : (e : NnFlowEvent) → Decidable (s.Orderly cfg e)
  | .make _ _ _ _ => isTrue trivial
  | .bypass i => inferInstanceAs (Decidable (∀ r ∈ s.reqs[i]?, Ungranted r))
  | .turn i currTime ioStartTime enableFc => inferInstanceAs (Decidable (∀ r ∈ s.reqs[i]?,
      if (s.turn cfg currTime ioStartTime).2 = fcNoBlock then Ungranted r
      else enableFc = true ∨ r.run.fsm.stNnReq ≠ .sending ∨ r.granted = true))
  | .act i e => inferInstanceAs (Decidable (∀ r ∈ s.reqs[i]?, endsOrderly r e = true))
  | .limits _ _ _ _ => isTrue trivial

end Decidable

def oneAtATime : FcRes := ⟨true, nnRateNoLimit, 1, 0, 0⟩

def queueReq (i : Nat) : List NnFlowEvent :=
  [.make true false 7 10, .act i .initDone, .act i .subRefReq, .act i (.schedTimer .submit 1), .act i (.addWorkQ .submit),
    .act i (.giveUp (.done .submit))]

def sendReq (i : Nat) : List NnFlowEvent :=
  [.act i .peekMDReq, .turn i 0 0 true, .act i .sendMDReq, .act i (.giveUp .sent)]

def blockedRun : List NnFlowEvent :=
  queueReq 0 ++ sendReq 0 ++ queueReq 1 ++ [.act 1 .peekMDReq, .turn 1 0 0 true, .act 0 .findReqPool, .act 0 .cancelTimer,
    .turn 1 0 0 true, .act 1 .sendMDReq]

theorem flow_control_balanced_blocked :
    Balanced ((machine centiseconds).exec (init oneAtATime) blockedRun) :=
  flow_control_balanced centiseconds oneAtATime blockedRun (by decide +kernel)

def sentTwice : List NnFlowEvent :=
  [.limits true nnRateNoLimit 10 0] ++ queueReq 0 ++ sendReq 0 ++
    [.act 0 .connBack, .act 0 .rtCancelTimer, .act 0 .retryChkDone, .act 0 (.schedTimer .retry 2),
      .act 0 (.addWorkQ .retry), .act 0 (.giveUp (.done .retry))] ++ sendReq 0

def neverSent : List NnFlowEvent :=
  queueReq 0 ++ [.act 0 .timerFire, .act 0 .toChkState, .act 0 .toRmWorkQ, .act 0 (.endfn .timer)]

/-- The first run counts 2 for one request, the second counts -1. -/
theorem flow_control_unbalanced :
    ((machine centiseconds).Legal (init oneAtATime) sentTwice ∧
      ¬Balanced ((machine centiseconds).exec (init oneAtATime) sentTwice)) ∧
    ((machine centiseconds).Legal (init oneAtATime) neverSent ∧
      ¬Balanced ((machine centiseconds).exec (init oneAtATime) neverSent)) := by
  refine ⟨⟨by decide +kernel, fun h => ?_⟩, ⟨by decide +kernel, fun h => ?_⟩⟩
  · exact absurd h.count (by decide +kernel)
  · exact absurd h.nonneg (by decide +kernel)

end NnFlow
end DiscoClient
