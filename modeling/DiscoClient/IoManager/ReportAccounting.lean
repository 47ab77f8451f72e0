import DiscoClient.IoManager.ReportMetadata

namespace DiscoClient
open List

namespace ReportSeg

/-- Counted but not submitted: every location is written, and some item has fewer disk acks than replicas.
-/
def overCounted (seg : ReportSeg) (replica : Nat) : Bool :=
  decide (seg.ciMdsStatus = .reportSuccess) && seg.isWrite && !seg.chkMDataDoReport &&
    seg.metaData.any fun it => decide (toU32 it.md.diskack < replica)

/-- Submitted but not counted: something to report, with no report status, or with valid items and their
disk acks. -/
def underCounted (seg : ReportSeg) (replica : Nat) : Bool :=
  seg.isWrite && seg.chkMDataDoReport &&
    (decide (seg.ciMdsStatus = .reportNone) ||
      (decide (seg.ciMdsStatus = .reportSuccess) &&
        seg.metaData.all fun it => decide (it.stat = .valid) && decide (replica ≤ toU32 it.md.diskack)))

theorem chkWriteDnFail_of_written {seg : ReportSeg} (replica : Nat) (h : seg.chkMDataDoReport = false) :
    seg.chkWriteDnFail replica = seg.metaData.any fun it => decide (toU32 it.md.diskack < replica) := by
  rw [chkMDataDoReport, any_eq_false] at h
  rw [chkWriteDnFail, Bool.eq_iff_iff, any_eq_true, any_eq_true]
  refine exists_congr fun it => and_congr_right fun hit => ?_
  have hvalid := h it hit
  simp only [Bool.or_eq_true, not_or, decide_eq_true_eq, not_not] at hvalid
  simp [hvalid.1]

theorem all_not_fail (seg : ReportSeg) (replica : Nat) :
    (seg.metaData.all fun it => decide (it.stat = .valid) && decide (replica ≤ toU32 it.md.diskack)) =
      !seg.chkWriteDnFail replica := by
  rw [chkWriteDnFail, not_any_eq_all_not]
  refine congrArg seg.metaData.all (funext fun it => ?_)
  simp only [Bool.not_or, ← decide_not, not_not, Nat.not_lt]

theorem counts_balance (replica : Nat) (seg : ReportSeg) :
    (if seg.counts replica then 1 else 0) + (if seg.underCounted replica then 1 else 0) =
      (if !seg.chkNoReport then 1 else 0) + (if seg.overCounted replica then 1 else 0) := by
  rw [underCounted, all_not_fail, overCounted, counts, chkNoReport]
  cases hdo : seg.chkMDataDoReport with
  | false =>
    rw [chkWriteDnFail_of_written replica hdo]
    cases seg.ciMdsStatus <;> cases seg.isWrite <;> simp
  | true =>
    cases seg.ciMdsStatus <;> cases seg.isWrite <;> cases seg.chkWriteDnFail replica <;> simp

theorem countP_balance (replica : Nat) (segs : List ReportSeg) :
    segs.countP (·.counts replica) + segs.countP (·.underCounted replica) =
      segs.countP (!·.chkNoReport) + segs.countP (·.overCounted replica) := by
  induction segs with
  | nil => rfl
  | cons seg segs ih =>
    have hseg := counts_balance replica seg
    simp only [countP_cons]
    omega

end ReportSeg

namespace IoReport
variable {replica : Nat} {segs : List ReportSeg} {s : IoReport}

def submits (segs : List ReportSeg) (i : Nat) : Bool := (segs[i]?).any (!·.chkNoReport)

theorem countP_range_submits (segs : List ReportSeg) :
    (List.range segs.length).countP (submits segs) = segs.countP (!·.chkNoReport) := by
  induction segs with
  | nil => rfl
  | cons seg segs ih =>
    rw [length_cons, range_succ_eq_map, countP_cons, countP_map, countP_cons, ← ih]
    rfl

theorem chkDnerrCommitNn_eq (h : s.stat = .reportMD) :
    s.chkDnerrCommitNn =
      ({ s with
          numOfCi2nn := s.numOfCi2nn + s.segs.countP (·.counts s.replica)
          counted := s.counted + s.segs.countP (·.counts s.replica) },
        s.segs.any (·.counts s.replica)) := by
  have hloop (rep : Nat) (l : List ReportSeg) (t : IoReport) (b : Bool) :
      l.foldl (fun acc seg =>
        if seg.counts rep then
          ({ acc.1 with numOfCi2nn := acc.1.numOfCi2nn + 1, counted := acc.1.counted + 1 }, true)
        else acc) (t, b) =
      ({ t with
          numOfCi2nn := t.numOfCi2nn + l.countP (·.counts rep)
          counted := t.counted + l.countP (·.counts rep) }, b || l.any (·.counts rep)) := by
    induction l generalizing t b with
    | nil => simp
    | cons seg l ih =>
      rw [foldl_cons]
      cases hc : seg.counts rep with
      | false => simp [ih, hc]
      | true =>
        simp only [if_true, ih, countP_cons, hc, any_cons, Bool.true_or, Bool.or_true]
        congr 2 <;> omega
  rw [chkDnerrCommitNn, if_neg (by simp [h]), hloop]
  simp

structure Reporting (segs : List ReportSeg) (s : IoReport) : Prop where
  stat : s.stat = .reportMD
  pool : s.inIoDonePool = false
  freed : s.freed = 0
  unvisited : ∀ i ∈ s.toSubmit, s.segs[i]? = segs[i]?
  apart : ∀ i ∈ s.toSubmit, i ∉ s.outstanding
  nodup : s.toSubmit.Nodup
  count : s.numOfCi2nn = s.outstanding.length + s.toSubmit.countP (submits segs)
  pos : s.numOfCi2nn ≠ 0
  history : s.submitted + s.toSubmit.countP (submits segs) = s.counted

structure Answered (segs : List ReportSeg) (s : IoReport) : Prop where
  unvisited : ∀ i ∈ s.toSubmit, s.segs[i]? = segs[i]?
  silent : s.toSubmit.countP (submits segs) = 0
  outstanding : s.outstanding = []
  count : s.numOfCi2nn = 0
  history : s.submitted = s.counted
  free : s.stat = .selfHealing ∧ s.inIoDonePool = true ∧ s.freed = 0 ∨
    s.stat = .reqDone ∧ s.inIoDonePool = false ∧ s.freed = 1

theorem submitNext_eq {i : Nat} {rest : List Nat} (h : s.toSubmit = i :: rest) :
    s.submitNext =
      if submits s.segs i then
        { s with
          toSubmit := rest
          fault := s.fault || decide (s.freed ≠ 0)
          outstanding := s.outstanding ++ [i]
          submitted := s.submitted + 1 }
      else { s with toSubmit := rest, fault := s.fault || decide (s.freed ≠ 0) } := by
  simp only [submitNext, h, submits]
  rfl

theorem Reporting.submitNext (h : s.Reporting segs) (hne : s.toSubmit ≠ []) : s.submitNext.Reporting segs := by
  obtain ⟨i, rest, hi⟩ := exists_cons_of_ne_nil hne
  obtain ⟨hstat, hpool, hfreed, hunv, hapart, hnodup, hcount, hpos, hhist⟩ := h
  rw [hi] at hunv hapart hnodup hcount hhist
  have hsub : submits s.segs i = submits segs i := congrArg (Option.any _) (hunv i mem_cons_self)
  rw [countP_cons] at hcount hhist
  rw [submitNext_eq hi, hsub]
  cases hs : submits segs i with
  | false =>
    rw [hs] at hcount hhist
    refine ⟨hstat, hpool, hfreed, fun j hj => hunv j (mem_cons_of_mem _ hj),
      fun j hj => hapart j (mem_cons_of_mem _ hj), (nodup_cons.mp hnodup).2, hcount, hpos, hhist⟩
  | true =>
    rw [hs] at hcount hhist
    simp only [if_true] at hcount hhist ⊢
    refine ⟨hstat, hpool, hfreed, fun j hj => hunv j (mem_cons_of_mem _ hj), ?_, (nodup_cons.mp hnodup).2,
      ?_, hpos, ?_⟩
    · intro j hj hout
      rcases mem_append.mp hout with hout | hout
      · exact hapart j (mem_cons_of_mem _ hj) hout
      · obtain rfl := mem_singleton.mp hout
        exact (nodup_cons.mp hnodup).1 hj
    · simp only [length_append, length_singleton]
      omega
    · dsimp only
      omega

theorem Answered.submitNext (h : s.Answered segs) (hne : s.toSubmit ≠ []) : s.submitNext.Answered segs := by
  obtain ⟨i, rest, hi⟩ := exists_cons_of_ne_nil hne
  obtain ⟨hunv, hsilent, hout, hcount, hhist, hfree⟩ := h
  rw [hi] at hunv hsilent
  have hnone : submits segs i = false := by
    simpa using countP_eq_zero.mp hsilent i mem_cons_self
  have hsub : submits s.segs i = false :=
    (congrArg (Option.any _) (hunv i mem_cons_self)).trans hnone
  rw [countP_cons, hnone] at hsilent
  rw [submitNext_eq hi, hsub]
  exact ⟨fun j hj => hunv j (mem_cons_of_mem _ hj), hsilent, hout, hcount, hhist, hfree⟩

theorem Reporting.answer (h : s.Reporting segs) {k : Nat} (hk : k ∈ s.outstanding) :
    (s.reportMDEndfn k).Reporting segs ∨ (s.reportMDEndfn k).Answered segs := by
  obtain ⟨hstat, hpool, hfreed, hunv, hapart, hnodup, hcount, hpos, hhist⟩ := h
  have hlen := length_erase_of_mem hk
  have hlen' := length_pos_of_mem hk
  have hunv' : ∀ i ∈ s.toSubmit,
      (s.segs.modify k fun seg => { seg with ciMdsStatus := .reportNone })[i]? = segs[i]? := by
    intro i hi
    have hne : k ≠ i := fun he => hapart i hi (he ▸ hk)
    simp [hne, hunv i hi]
  simp only [reportMDEndfn, mdReportEndfn, hstat, ioReqUpdateState, ne_eq, not_true_eq_false, if_false, submitRequest]
  by_cases h0 : s.numOfCi2nn - 1 = 0
  · rw [if_neg (not_not.mpr h0)]
    right
    refine ⟨hunv', ?_, ?_, h0, ?_, .inl ⟨rfl, rfl, hfreed⟩⟩
    · dsimp only
      omega
    · change s.outstanding.erase k = []
      exact eq_nil_of_length_eq_zero (by omega)
    · dsimp only
      omega
  · rw [if_pos h0]
    left
    refine ⟨rfl, hpool, hfreed, hunv', fun i hi hin => hapart i hi (mem_of_mem_erase hin), hnodup, ?_, h0,
      hhist⟩
    dsimp only
    omega

theorem Answered.worker (h : s.Answered segs) (hp : s.inIoDonePool = true) : s.fWkerFn.Answered segs := by
  obtain ⟨hunv, hsilent, hout, hcount, hhist, ⟨hstat, -, hfreed⟩ | ⟨-, hpool, -⟩⟩ := h
  · simp only [fWkerFn, chkDnerrCommitNn, hstat, ne_eq, reduceCtorEq, not_false_eq_true, if_true, Bool.false_eq_true,
      if_false, ioReqUpdateState, not_true_eq_false]
    exact ⟨hunv, hsilent, hout, hcount, hhist, .inr ⟨rfl, rfl, by rw [hfreed]⟩⟩
  · rw [hp] at hpool
    cases hpool

theorem worker_some (hc : segs.any (·.counts replica) = true) :
    (init replica segs).fWkerFn = { init replica segs with
      inIoDonePool := false
      numOfCi2nn := segs.countP (·.counts replica)
      counted := segs.countP (·.counts replica)
      toSubmit := List.range segs.length } := by
  simp only [fWkerFn, init, chkDnerrCommitNn_eq, hc, submitReportMDReq, ne_eq, not_true_eq_false, if_true, if_false,
    Int.zero_add, Nat.zero_add]

theorem worker_none (hc : segs.any (·.counts replica) = false) :
    (init replica segs).fWkerFn.Answered segs := by
  have hzero : segs.countP (·.counts replica) = 0 := by
    rw [countP_eq_zero]
    simpa using hc
  simp only [fWkerFn, init, chkDnerrCommitNn_eq, hc, hzero, Bool.false_eq_true, if_false, ioReqUpdateState, ne_eq,
    not_true_eq_false]
  exact ⟨fun i hi => absurd hi not_mem_nil, rfl, rfl, rfl, rfl, .inr ⟨rfl, rfl, rfl⟩⟩

def Quiet (s : IoReport) : Prop := s.inIoDonePool = false ∧ s.toSubmit = [] ∧ s.outstanding = []

/-- Once the loop has finished as many reports have been submitted as were counted; when all are answered
the counter is zero; at the end the request has been freed, and never twice. -/
structure Accounted (s : IoReport) : Prop where
  submitted : s.toSubmit = [] → s.submitted = s.counted
  answered : s.toSubmit = [] → s.outstanding = [] → s.numOfCi2nn = 0
  freed : s.Quiet → s.freed = 1
  freed_once : s.freed ≤ 1

theorem Reporting.accounted (h : s.Reporting segs) : s.Accounted := by
  have hzero (ht : s.toSubmit = []) (ho : s.outstanding = []) : s.numOfCi2nn = 0 := by
    rw [h.count, ht, ho]
    rfl
  refine ⟨?_, hzero, fun hq => absurd (hzero hq.2.1 hq.2.2) h.pos, h.freed ▸ Nat.zero_le 1⟩
  intro ht
  have hhist := h.history
  rwa [ht] at hhist

theorem Answered.accounted (h : s.Answered segs) : s.Accounted := by
  refine ⟨fun _ => h.history, fun _ _ => h.count, ?_, ?_⟩
  · intro hq
    rcases h.free with ⟨-, hpool, -⟩ | ⟨-, -, hfreed⟩
    · rw [hq.1] at hpool
      cases hpool
    · exact hfreed
  · rcases h.free with ⟨-, -, hfreed⟩ | ⟨-, -, hfreed⟩
    · exact hfreed ▸ Nat.zero_le 1
    · exact Nat.le_of_eq hfreed

theorem init_accounted : (init replica segs).Accounted :=
  ⟨fun _ => rfl, fun _ _ => rfl, (fun hq => nomatch hq.1), Nat.zero_le 1⟩

inductive Phase (replica : Nat) (segs : List ReportSeg) (s : IoReport) : Prop where
  | finished (h : s = init replica segs)
  | reporting (h : s.Reporting segs)
  | answered (h : s.Answered segs)

theorem init_worker (h : segs.any (·.counts replica) = true →
      segs.countP (·.counts replica) = segs.countP (!·.chkNoReport)) :
    (init replica segs).fWkerFn.Phase replica segs := by
  cases hany : segs.any (·.counts replica) with
  | false => exact .answered (worker_none hany)
  | true =>
    have hpos : segs.countP (·.counts replica) ≠ 0 := by
      rw [ne_eq, countP_eq_zero]
      simpa using hany
    have hsub := countP_range_submits segs
    have heq := h hany
    rw [worker_some hany]
    refine .reporting ⟨rfl, rfl, rfl, fun _ _ => rfl, fun _ _ => not_mem_nil, nodup_range, ?_, ?_, ?_⟩
    · simp only [init, length_nil]
      omega
    · dsimp only
      omega
    · simp only [init]
      omega

theorem Phase.step (hp : s.Phase replica segs) (h : segs.any (·.counts replica) = true →
      segs.countP (·.counts replica) = segs.countP (!·.chkNoReport)) {e : ReportEvent}
    (he : reportMachine.enabled s e) : (reportMachine.step s e).Phase replica segs := by
  cases hp with
  | finished hs =>
    subst hs
    cases e with
    | worker => exact init_worker h
    | submitNext => exact absurd rfl he
    | answer k => exact absurd he not_mem_nil
  | reporting hr =>
    cases e with
    | worker =>
      have hpool : s.inIoDonePool = true := he
      rw [hr.pool] at hpool
      cases hpool
    | submitNext => exact .reporting (hr.submitNext he)
    | answer k => exact (hr.answer he).elim .reporting .answered
  | answered ha =>
    cases e with
    | worker => exact .answered (ha.worker he)
    | submitNext => exact .answered (ha.submitNext he)
    | answer k =>
      have hk : k ∈ s.outstanding := he
      rw [ha.outstanding] at hk
      exact absurd hk not_mem_nil

theorem Phase.accounted (hp : s.Phase replica segs) : s.Accounted := by
  cases hp with
  | finished hs => exact hs ▸ init_accounted
  | reporting hr => exact hr.accounted
  | answered ha => exact ha.accounted

theorem submit_all {l : List Nat} (hl : s.toSubmit = l) :
    let es := List.replicate l.length ReportEvent.submitNext
    let t := reportMachine.exec s es
    reportMachine.Legal s es ∧ t.toSubmit = [] ∧ t.submitted = s.submitted + l.countP (submits s.segs) ∧
      t.counted = s.counted := by
  induction l generalizing s with
  | nil => exact ⟨trivial, hl, rfl, rfl⟩
  | cons i rest ih =>
    have hstep : reportMachine.step s .submitNext = s.submitNext := rfl
    obtain ⟨hsegs, hrest, hsub, hcnt⟩ : s.submitNext.segs = s.segs ∧ s.submitNext.toSubmit = rest ∧
        s.submitNext.submitted = s.submitted + (if submits s.segs i then 1 else 0) ∧
        s.submitNext.counted = s.counted := by
      rw [submitNext_eq hl]
      split_ifs <;> exact ⟨rfl, rfl, rfl, rfl⟩
    obtain ⟨hlegal, hnil, hsum, hcounted⟩ := ih hrest
    simp only [length_cons, replicate_succ, GuardedMachine.legal_cons, GuardedMachine.exec_cons, hstep]
    refine ⟨⟨?_, hlegal⟩, hnil, ?_, hcounted.trans hcnt⟩
    · change s.toSubmit ≠ []
      simp [hl]
    · rw [hsum, hsegs, hsub, countP_cons]
      omega

/-- The accounting of reports is right in every run exactly when no segment is counted or
as many are over-counted as under-counted. -/
theorem report_accounting_iff (replica : Nat) (segs : List ReportSeg) :
    (∀ es, reportMachine.Legal (init replica segs) es →
      (reportMachine.exec (init replica segs) es).Accounted) ↔
    (∀ seg ∈ segs, seg.counts replica = false) ∨
      segs.countP (·.overCounted replica) = segs.countP (·.underCounted replica) := by
  have hbalance := ReportSeg.countP_balance replica segs
  constructor
  · intro hall
    cases hany : segs.any (·.counts replica) with
    | false => exact .inl (by simpa using hany)
    | true =>
      right
      have hw := worker_some hany
      obtain ⟨hlegal, hnil, hsub, hcnt⟩ := submit_all (s := (init replica segs).fWkerFn)
        (l := List.range segs.length) (by rw [hw])
      have heq := (hall (.worker :: List.replicate _ .submitNext) ⟨rfl, hlegal⟩).submitted hnil
      have hrange := countP_range_submits segs
      have hdone := (hsub.symm.trans heq).trans hcnt
      rw [hw] at hdone
      simp only [init] at hdone
      omega
  · intro hcond es hlegal
    refine (GuardedMachine.exec_invariant (I := Phase replica segs) (.finished rfl) ?_ hlegal).accounted
    intro t e ht he
    refine ht.step (fun hany => ?_) he
    rcases hcond with hnone | heq
    · rw [any_eq_true] at hany
      obtain ⟨seg, hseg, hc⟩ := hany
      rw [hnone seg hseg] at hc
      cases hc
    · omega

/-- Two locations, both written, on a volume of three replicas: the segment is counted, no report is
submitted and the request is never freed. An overwrite whose metadata is invalid, which clears its status, next to
one whose location failed: one is counted, two are submitted, and the second answer finds the request freed. -/
theorem reports_not_accounted :
    (let seg : ReportSeg := ⟨.allocMDataNoOld, .reportSuccess,
       [⟨.valid, { MdItem.init 2 with udataStatus := fun _ => .writeOk, diskack := 2 }⟩]⟩
     let es := [.worker, .submitNext]
     let s := reportMachine.exec (init 3 [seg]) es
     reportMachine.Legal (init 3 [seg]) es ∧ s.Quiet ∧ s.counted = 1 ∧ s.submitted = 0 ∧ s.numOfCi2nn = 1 ∧
       s.freed = 0) ∧
    (let unmapped : ReportSeg := ⟨.queryMDataWriteIo, .reportNone, [⟨.invalid, MdItem.init 0⟩]⟩
     let failed : ReportSeg := ⟨.queryMDataWriteIo, .reportSuccess,
       [⟨.valid, { MdItem.init 1 with udataStatus := fun _ => .writeFail }⟩]⟩
     let es := [.worker, .submitNext, .submitNext, .answer 0, .worker, .answer 1]
     let s := reportMachine.exec (init 1 [unmapped, failed]) es
     reportMachine.Legal (init 1 [unmapped, failed]) es ∧ s.counted = 1 ∧ s.submitted = 2 ∧ s.fault = true) := by
  unfold Quiet
  decide

end IoReport
end DiscoClient
