import DiscoClient.NnClient.NnFlow
import DiscoClient.NnClient.NnFlowThreads

namespace DiscoClient
open ThreadPool

namespace FcReq
variable {r : FcReq} {e : NnEvent} {cfg : NnTimeConfig} {res : FcRes}

structure Counted (r : FcReq) : Prop where
  once : weight NnPoint.releases r.run.threads + (r.answered.toNat + r.timedOut.toNat) ≤ r.run.phase.isFinal.toNat
  unsent : r.granted = false → r.run.Unsent
  cached : r.cached = true → r.run.threads .peeked = 0 ∧ r.granted = false
  ranOut : r.ranOut = true → r.granted = false

theorem Counted.releasing (h : Counted r) {a : NnPoint} (ha : 0 < r.run.threads a) (hw : a.releases = 1) :
    r.answered = false ∧ r.timedOut = false ∧ r.run.phase.isFinal = true ∧
      weight NnPoint.releases r.run.threads = 1 := by
  have hone := le_weight NnPoint.releases ha
  have hle := Bool.toNat_le r.run.phase.isFinal
  have := h.once
  refine ⟨?_, ?_, ?_, by omega⟩
  · exact Bool.toNat_eq_zero.mp (by omega)
  · exact Bool.toNat_eq_zero.mp (by omega)
  · exact Bool.toNat_eq_one.mp (by omega)

theorem step_cached (cfg : NnTimeConfig) (r : FcReq) (e : NnEvent) : (r.step cfg e).cached = r.cached := by
  change ((r.run.step cfg e).acquire && (r.run.step cfg e).cacheHit) = _
  rw [(NnReqRun.effect_step r.run e).acquire, (NnReqRun.step_kept cfg r.run e).1]
  rfl

section

variable (h : Counted r)
include h

theorem Counted.once_step (he : (NnReqRun.machine cfg).enabled r.run e) :
    weight NnPoint.releases (r.step cfg e).run.threads +
        ((r.step cfg e).answered.toNat + (r.step cfg e).timedOut.toNat) ≤
      (r.step cfg e).run.phase.isFinal.toNat := by
  by_cases hcancel : e = .cancelTimer
  · -- the response is processed
    subst hcancel
    have hpos := he.1 .cancelling rfl
    obtain ⟨-, htimed, hfinal, hone⟩ := h.releasing hpos rfl
    have hmove : weight NnPoint.releases (r.step cfg .cancelTimer).run.threads + 1 =
        weight NnPoint.releases r.run.threads + 0 := weight_move NnPoint.releases (.calling .ack) hpos
    have hphase : (r.step cfg .cancelTimer).run.phase.isFinal = true := hfinal
    rw [hphase]
    simp only [FcReq.step, htimed, decide_true, Bool.or_true, Bool.toNat_true, reduceCtorEq, decide_false, Bool.or_false,
      Bool.toNat_false] at hmove ⊢
    omega
  · by_cases htimer : e = .endfn .timer
    · subst htimer
      have hpos := he.1 (.calling .timer) rfl
      obtain ⟨hanswered, -, hfinal, hone⟩ := h.releasing hpos rfl
      have hmove : weight NnPoint.releases (r.step cfg (.endfn .timer)).run.threads + 1 =
          weight NnPoint.releases r.run.threads + 0 := weight_move NnPoint.releases (.ended .timer) hpos
      have hphase : (r.step cfg (.endfn .timer)).run.phase.isFinal = true := hfinal
      rw [hphase]
      simp only [FcReq.step, hanswered, decide_true, Bool.or_true, Bool.toNat_true, reduceCtorEq, decide_false,
        Bool.or_false, Bool.toNat_false] at hmove ⊢
      omega
    · have hanswered : (r.step cfg e).answered = r.answered := by simp [FcReq.step, hcancel]
      have htimed : (r.step cfg e).timedOut = r.timedOut := by simp [FcReq.step, htimer]
      rw [hanswered, htimed]
      exact NnReqRun.releases_step he h.once

theorem Counted.next (he : (NnReqRun.machine cfg).enabled r.run e) (hpass : e ≠ .fcPass)
    (hwait : ∀ b, e = .fcWait b → b = true ∨ r.run.fsm.stNnReq ≠ .sending ∨ r.granted = true)
    (hfind : e = .findReqPool → r.cached = false) (hretry : e = .endfn .retry → r.granted = false) :
    Counted (r.step cfg e) := by
  have hgranted : (r.step cfg e).granted = r.granted := by simp [FcReq.step, hpass]
  refine ⟨h.once_step he, ?_, ?_, ?_⟩
  · rw [hgranted]
    intro hno
    refine (h.unsent hno).step he hpass (fun b hb => ?_) hfind
    exact (hwait b hb).imp_right fun hor => hor.resolve_right (by rw [hno]; decide)
  · rw [step_cached, hgranted]
    exact fun hc => ⟨NnReqRun.peeked_step hc (h.cached hc).1, (h.cached hc).2⟩
  · rw [hgranted]
    intro hran
    rcases Bool.or_eq_true_iff.mp hran with hran | hran
    · exact h.ranOut hran
    · exact hretry (of_decide_eq_true hran)

theorem Counted.pass (hpos : 0 < r.run.threads .peeked) (hnew : NnFlow.Ungranted r) :
    Counted (r.step cfg .fcPass) := by
  have he : (NnReqRun.machine cfg).enabled r.run .fcPass := by
    refine ⟨fun a ha => ?_, trivial⟩
    obtain rfl : NnPoint.peeked = a := by simpa [NnEvent.point] using ha
    exact hpos
  have hgranted : (r.step cfg .fcPass).granted = true := Bool.or_true _
  refine ⟨h.once_step he, ?_, ?_, ?_⟩
  · rw [hgranted]
    exact fun hno => absurd hno (by decide)
  · rw [step_cached]
    exact fun hc => absurd (h.cached hc).1 (Nat.ne_of_gt hpos)
  · have hran : (r.step cfg .fcPass).ranOut = r.ranOut := Bool.or_false _
    rw [hran, hnew.2.2.2]
    exact fun hno => absurd hno (by decide)

theorem Counted.isOpen_of_releasing {a : NnPoint} (ha : 0 < r.run.threads a) (hw : a.releases = 1)
    (hgranted : r.granted = true) : r.isOpen = true := by
  obtain ⟨hanswered, htimed, -, -⟩ := h.releasing ha hw
  have hran : r.ranOut = false := Bool.eq_false_iff.mpr fun hran => by
    rw [h.ranOut hran] at hgranted
    cases hgranted
  rw [isOpen, hgranted, hanswered, htimed, hran]
  rfl

theorem Counted.granted_of_cancelling (ha : 0 < r.run.threads .cancelling) (hc : r.cached = false) :
    r.granted = true := by
  by_contra hno
  have hzero := weight_eq_zero_iff.mp (h.unsent (Bool.eq_false_iff.mpr hno)).1 .cancelling ha
  rw [show (r.run.acquire && r.run.cacheHit) = false from hc] at hzero
  exact absurd hzero (by decide)

theorem Counted.count_after (he : (NnReqRun.machine cfg).enabled r.run e) (hpass : e ≠ .fcPass)
    (htimer : e = .endfn .timer → r.granted = true) (hretry : e = .endfn .retry → r.granted = false) :
    (res.after r e).allocOutResMax + (if r.isOpen then 1 else 0) =
      res.allocOutResMax + (if (r.step cfg e).isOpen then 1 else 0) := by
  by_cases hcancel : e = .cancelTimer
  · subst hcancel
    have hpos := he.1 .cancelling rfl
    have hclosed : (r.step cfg .cancelTimer).isOpen = false := by simp [isOpen, FcReq.step]
    cases hc : r.cached with
    | true =>
      have hshut : r.isOpen = false := by simp [isOpen, (h.cached hc).2]
      simp [FcRes.after, hc, hclosed, hshut]
    | false =>
      have hopen := h.isOpen_of_releasing hpos rfl (h.granted_of_cancelling hpos hc)
      simp [FcRes.after, hc, hclosed, hopen, FcRes.decResRateMaxReqs]
  · by_cases htimeout : e = .endfn .timer
    · subst htimeout
      have hclosed : (r.step cfg (.endfn .timer)).isOpen = false := by simp [isOpen, FcReq.step]
      have hopen := h.isOpen_of_releasing (he.1 (.calling .timer) rfl) rfl (htimer rfl)
      simp [FcRes.after, hclosed, hopen, FcRes.decResRateMaxReqs]
    · have hres : res.after r e = res := by
        cases e with
        | cancelTimer => exact absurd rfl hcancel
        | endfn w =>
          cases w with
          | timer => exact absurd rfl htimeout
          | _ => rfl
        | _ => rfl
      have hsame : (r.step cfg e).isOpen = r.isOpen := by
        by_cases hran : e = .endfn .retry
        · simp [isOpen, FcReq.step, hpass, hretry hran]
        · simp [isOpen, FcReq.step, hpass, hcancel, htimeout, hran]
      rw [hres, hsame]

end

theorem counted_init (acquire cacheHit : Bool) (reqID : UInt32) (tDur : Int) :
    Counted (init acquire cacheHit reqID tDur) := by
  have hweight {w : NnPoint → Nat} (hw : w .subInit = 0) :
      weight w (init acquire cacheHit reqID tDur).run.threads = 0 := by
    change weight w (ThreadPool.enter (fun _ => 0) .subInit) = 0
    rw [weight_enter, weight_zero, hw]
  have hphase : (init acquire cacheHit reqID tDur).run.phase = .init := by cases acquire <;> rfl
  refine ⟨?_, fun _ => ⟨hweight rfl, fun _ => ?_⟩, fun _ => ⟨rfl, rfl⟩, fun _ => rfl⟩
  · rw [hweight rfl]
    exact Nat.zero_le _
  · rw [hphase]
    decide

end FcReq

end DiscoClient
