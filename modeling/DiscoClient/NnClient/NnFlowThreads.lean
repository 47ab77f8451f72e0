import DiscoClient.NnClient.NnArrivals

namespace DiscoClient
open ThreadPool NnPoint

namespace NnPoint

def releases : NnPoint → Nat
  | .cancelling | .toRm | .calling .timer => 1
  | _ => 0

/-- The points of a thread that sends the request or processes its response. -/
def sends (cached : Bool) : NnPoint → Nat
  | .fcDone => 1
  | .chPeeked | .chSent | .cancelling => if cached then 0 else 1
  | _ => 0

end NnPoint

def NnEvent.fsmEvent : NnEvent → Option NnReqEvent
  | .initDone => some .initDone
  | .peekMDReq => some .peekWorkQ
  | .sendMDReq | .chSendDone => some .sendDone
  | .chRmReqPool | .findReqPool => some .findReqOk
  | .toChkState => some .timeoutFire
  | .connBack => some .connBack
  | .retryChkDone => some .retryChkDone
  | _ => none

namespace NnReqRun
variable {s : NnReqRun} {e : NnEvent} {cfg : NnTimeConfig} {n : Nat}

theorem step_kept (cfg : NnTimeConfig) (s : NnReqRun) (e : NnEvent) :
    (s.step cfg e).cacheHit = s.cacheHit ∧
      (s.step cfg e).phase = (e.fsmEvent.map fun ev => (s.updateState ev).phase).getD s.phase := by
  cases e with
  | initDone =>
    rw [step]
    split_ifs <;> exact ⟨rfl, rfl⟩
  | schedTimer c now =>
    rw [step, NnReqRun.schedTimer]
    split_ifs <;> exact ⟨rfl, rfl⟩
  | addWorkQ c =>
    rw [step, NnReqRun.addWorkQ]
    split_ifs <;> exact ⟨rfl, rfl⟩
  | peekMDReq =>
    rw [step, NnReqRun.peekMDReq]
    split_ifs <;> exact ⟨rfl, rfl⟩
  | fcWait enableFc =>
    rw [step, NnReqRun.fcWait]
    split_ifs <;> exact ⟨rfl, rfl⟩
  | chSendDone =>
    rw [step, NnReqRun.chSendDone]
    split_ifs <;> exact ⟨rfl, rfl⟩
  | chRmReqPool =>
    rw [step, NnReqRun.chRmReqPool]
    split_ifs <;> exact ⟨rfl, rfl⟩
  | findReqPool =>
    rw [step, NnReqRun.findReqPool]
    split_ifs <;> exact ⟨rfl, rfl⟩
  | toChkState =>
    rw [step, NnReqRun.toChkState, NnReqRun.relPlock]
    split_ifs <;> exact ⟨rfl, rfl⟩
  | connBack =>
    rw [step, NnReqRun.connBack]
    split_ifs <;> exact ⟨rfl, rfl⟩
  | retryChkDone =>
    rw [step, NnReqRun.retryChkDone]
    split_ifs <;> exact ⟨rfl, rfl⟩
  | _ => exact ⟨rfl, rfl⟩

theorem waitResp_of_step (h : (s.step cfg e).phase = .waitResp) :
    s.phase = .waitResp ∨ e = .sendMDReq ∨ e = .chSendDone := by
  rw [(step_kept cfg s e).2] at h
  cases hev : e.fsmEvent with
  | none =>
    rw [hev] at h
    exact Or.inl h
  | some ev =>
    rw [hev] at h
    change (s.updateState ev).phase = .waitResp at h
    by_cases hact : s.action ev = ev.grant
    · rw [(granted hact).2] at h
      right
      cases e <;> cases hev <;> first | exact Or.inl rfl | exact Or.inr rfl | cases h
    · rw [refused hact] at h
      exact Or.inl h

theorem isFinal_step_le (cfg : NnTimeConfig) (s : NnReqRun) (e : NnEvent) :
    s.phase.isFinal.toNat ≤ (s.step cfg e).phase.isFinal.toNat := by
  cases hf : s.phase.isFinal with
  | false => exact Nat.zero_le _
  | true => rw [phase_step_of_final hf, hf]

theorem weight_step_le (cfg : NnTimeConfig) (s : NnReqRun) {w : NnPoint → Nat} (h : ∀ b ∈ e.arrives, w b = 0) :
    weight w (s.step cfg e).threads ≤ weight w s.threads :=
  weight_mono fun i hi => threads_step_le fun hmem => hi (h i hmem)

section Threads

theorem chRmReqPool_threads (s : NnReqRun) :
    s.chRmReqPool.threads = ThreadPool.move s.threads .chSent .chFail ∨
      s.action .findReqOk = .doProcessResp ∧ s.chRmReqPool.threads = ThreadPool.move s.threads .chSent .cancelling := by
  rw [NnReqRun.chRmReqPool]
  split_ifs with hact
  · exact Or.inl rfl
  · exact Or.inl rfl
  · exact Or.inr ⟨not_not.mp hact, rfl⟩

theorem findReqPool_threads (s : NnReqRun) :
    s.findReqPool.threads = s.threads ∨
      s.action .findReqOk = .doProcessResp ∧ s.findReqPool.threads = ThreadPool.enter s.threads .cancelling := by
  rw [NnReqRun.findReqPool]
  split_ifs with hact
  · exact Or.inl rfl
  · exact Or.inl rfl
  · exact Or.inr ⟨not_not.mp hact, rfl⟩

theorem toChkState_threads (s : NnReqRun) :
    s.toChkState.threads = ThreadPool.move s.threads .toRef .toFail ∨
      s.action .timeoutFire = .doToProcess ∧ s.toChkState.threads = ThreadPool.move s.threads .toRef .toRm := by
  have hkeep (t : NnReqRun) (lockID : Int) : (t.relPlock lockID).threads = t.threads := by
    rw [NnReqRun.relPlock]
    split_ifs <;> rfl
  rw [NnReqRun.toChkState, hkeep]
  split_ifs with hact
  · exact Or.inl rfl
  · exact Or.inl rfl
  · exact Or.inr ⟨not_not.mp hact, rfl⟩

theorem peekMDReq_threads (s : NnReqRun) :
    ∃ b, s.peekMDReq.threads = ThreadPool.enter s.threads b ∧
      (b = .peekFail ∨ b = if s.acquire && s.cacheHit then .chPeeked else .peeked) := by
  rw [NnReqRun.peekMDReq]
  by_cases hact : s.action .peekWorkQ ≠ .doSend
  · rw [if_pos hact]
    exact ⟨_, rfl, Or.inl rfl⟩
  · rw [if_neg hact]
    by_cases hfea : s.feaInWorkQ = false
    · rw [if_pos hfea]
      exact ⟨_, rfl, Or.inl rfl⟩
    · rw [if_neg hfea]
      exact ⟨_, rfl, Or.inr rfl⟩

theorem fcWait_threads {enableFc : Bool} (h : enableFc = true ∨ s.fsm.stNnReq ≠ .sending) (i : NnPoint) :
    (s.fcWait enableFc).threads i ≤ s.threads i := by
  rw [NnReqRun.fcWait]
  split_ifs with hstat henable
  · exact leave_le _ _ _
  · exact Nat.le_refl _
  · exact absurd (h.resolve_right hstat) henable

end Threads

theorem releases_of_end {ev : NnReqEvent} (hev : e.fsmEvent = some ev) (hend : ev.target.isFinal = true)
    (hw : weight NnPoint.releases (s.step cfg e).threads ≤ weight NnPoint.releases s.threads ∨
      s.action ev = ev.grant ∧ weight NnPoint.releases (s.step cfg e).threads ≤ weight NnPoint.releases s.threads + 1)
    (h : weight NnPoint.releases s.threads + n ≤ s.phase.isFinal.toNat) :
    weight NnPoint.releases (s.step cfg e).threads + n ≤ (s.step cfg e).phase.isFinal.toNat := by
  rcases hw with hw | ⟨hact, hw⟩
  · have := isFinal_step_le cfg s e
    omega
  · obtain ⟨hsrc, htarget⟩ := granted hact
    have hphase : (s.step cfg e).phase = ev.target := by
      rw [(step_kept cfg s e).2, hev]
      exact htarget
    rw [NnReqEvent.sources_not_final hsrc, Bool.toNat_false] at h
    rw [hphase, hend, Bool.toNat_true]
    omega

theorem releases_step (he : (machine cfg).enabled s e)
    (h : weight NnPoint.releases s.threads + n ≤ s.phase.isFinal.toNat) :
    weight NnPoint.releases (s.step cfg e).threads + n ≤ (s.step cfg e).phase.isFinal.toNat := by
  have hcalm (harr : ∀ b ∈ e.arrives, b.releases = 0) :
      weight releases (s.step cfg e).threads + n ≤ (s.step cfg e).phase.isFinal.toNat := by
    have := weight_step_le cfg s harr
    have := isFinal_step_le cfg s e
    omega
  cases e with
  | chRmReqPool =>
    refine releases_of_end rfl rfl ?_ h
    change weight releases s.chRmReqPool.threads ≤ _ ∨ _ ∧ weight releases s.chRmReqPool.threads ≤ _
    rcases s.chRmReqPool_threads with hthreads | ⟨hact, hthreads⟩
    · rw [hthreads]
      exact Or.inl (weight_move_le _ _ _ _)
    · rw [hthreads]
      exact Or.inr ⟨hact, weight_move_le _ _ _ _⟩
  | findReqPool =>
    refine releases_of_end rfl rfl ?_ h
    change weight releases s.findReqPool.threads ≤ _ ∨ _ ∧ weight releases s.findReqPool.threads ≤ _
    rcases s.findReqPool_threads with hthreads | ⟨hact, hthreads⟩
    · rw [hthreads]
      exact Or.inl (Nat.le_refl _)
    · rw [hthreads]
      exact Or.inr ⟨hact, Nat.le_of_eq (weight_enter _ _ _)⟩
  | toChkState =>
    refine releases_of_end rfl rfl ?_ h
    change weight releases s.toChkState.threads ≤ _ ∨ _ ∧ weight releases s.toChkState.threads ≤ _
    rcases s.toChkState_threads with hthreads | ⟨hact, hthreads⟩
    · rw [hthreads]
      exact Or.inl (weight_move_le _ _ _ _)
    · rw [hthreads]
      exact Or.inr ⟨hact, weight_move_le _ _ _ _⟩
  | toRmWorkQ =>
    have hw := weight_move releases (.calling .timer) (he.1 .toRm rfl)
    have hw : weight releases (s.step cfg .toRmWorkQ).threads = weight releases s.threads :=
      Nat.add_right_cancel hw
    rw [hw]
    exact h
  | _ => exact hcalm (by simp [NnEvent.arrives, releases])

def Unsent (s : NnReqRun) : Prop :=
  weight (NnPoint.sends (s.acquire && s.cacheHit)) s.threads = 0 ∧
    ((s.acquire && s.cacheHit) = false → s.phase ≠ .waitResp)

theorem Unsent.phase_step (h : Unsent s) (he : (machine cfg).enabled s e)
    (hcached : (s.acquire && s.cacheHit) = false) : (s.step cfg e).phase ≠ .waitResp := by
  have hzero := weight_eq_zero_iff.mp h.1
  intro hphase
  rcases waitResp_of_step hphase with hphase | rfl | rfl
  · exact h.2 hcached hphase
  · exact absurd (hzero .fcDone (he.1 .fcDone rfl)) Nat.one_ne_zero
  · have := hzero .chPeeked (he.1 .chPeeked rfl)
    rw [hcached] at this
    exact absurd this (by decide)

theorem Unsent.step (h : Unsent s) (he : (machine cfg).enabled s e) (hpass : e ≠ .fcPass)
    (hwait : ∀ b, e = .fcWait b → b = true ∨ s.fsm.stNnReq ≠ .sending)
    (hfind : e = .findReqPool → (s.acquire && s.cacheHit) = false) : Unsent (s.step cfg e) := by
  have hkept : ((s.step cfg e).acquire && (s.step cfg e).cacheHit) = (s.acquire && s.cacheHit) := by
    rw [(effect_step s e).acquire, (step_kept cfg s e).1]
  rw [Unsent, hkept]
  refine ⟨?_, h.phase_step he⟩
  obtain ⟨hweight, hphase⟩ := h
  have hzero := weight_eq_zero_iff.mp hweight
  generalize hcached : (s.acquire && s.cacheHit) = cached at *
  have hcalm (harr : ∀ b ∈ e.arrives, b.sends cached = 0) : weight (sends cached) (s.step cfg e).threads = 0 :=
    Nat.eq_zero_of_le_zero ((weight_step_le cfg s harr).trans_eq hweight)
  cases e with
  | fcPass => exact absurd rfl hpass
  | fcWait b =>
    exact Nat.eq_zero_of_le_zero ((weight_mono fun i _ => fcWait_threads (hwait b rfl) i).trans_eq hweight)
  | peekMDReq =>
    obtain ⟨b, hthreads, hb⟩ := s.peekMDReq_threads
    change weight _ s.peekMDReq.threads = 0
    rw [hthreads, weight_enter, hweight]
    rw [hcached] at hb
    rcases hb with rfl | rfl
    · rfl
    · cases cached <;> rfl
  | chSendDone =>
    have hc := hzero .chPeeked (he.1 .chPeeked rfl)
    cases cached with
    | false => exact absurd hc (by decide)
    | true => exact hcalm (by simp [NnEvent.arrives, sends])
  | chRmReqPool =>
    have hc := hzero .chSent (he.1 .chSent rfl)
    cases cached with
    | false => exact absurd hc (by decide)
    | true => exact hcalm (by simp [NnEvent.arrives, sends])
  | findReqPool =>
    change weight _ s.findReqPool.threads = 0
    rcases s.findReqPool_threads with hthreads | ⟨hact, -⟩
    · rw [hthreads]
      exact hweight
    · have hsrc := (granted (e := .findReqOk) hact).1
      exact absurd (List.mem_singleton.mp hsrc) (hphase (hfind rfl))
  | _ => exact hcalm (by simp [NnEvent.arrives, sends])

theorem peeked_step (hcached : (s.acquire && s.cacheHit) = true) (h : s.threads .peeked = 0) :
    (s.step cfg e).threads .peeked = 0 := by
  by_cases harr : peeked ∈ e.arrives
  · cases e with
    | peekMDReq =>
      obtain ⟨b, hthreads, hb⟩ := s.peekMDReq_threads
      change s.peekMDReq.threads .peeked = 0
      rw [hcached] at hb
      rw [hthreads, enter_of_ne, h]
      rcases hb with rfl | rfl <;> decide
    | _ => simp [NnEvent.arrives] at harr
  · exact Nat.eq_zero_of_le_zero ((threads_step_le harr).trans_eq h)

end NnReqRun

end DiscoClient
