import DiscoClient.Payload.ReleaseAck

namespace DiscoClient.PlRun
open PayloadReq
variable {cfg : ToConfig} {minDiskAck : Nat} {s : PlRun} {e : PlEvent}

/-- After the event a request that is to be freed has left its pools, and the caller has been told of one that
was claimed. -/
def Releases (cfg : ToConfig) (minDiskAck : Nat) (s : PlRun) (e : PlEvent) : Prop :=
  let t := s.step cfg minDiskAck e
  t.Released ∧ (t.p.stat = .ciCaller → 0 < t.p.numNotified)

def NoMdErr (s : PlRun) : PlEvent → Prop
  | .ack _ result _ _ => ¬ s.p.ReportsMdErr result
  | .timeout _ => ¬ s.p.TimesOutAlone
  | .free => True

instance (s : PlRun) : (e : PlEvent) → Decidable (s.NoMdErr e)
  | .ack _ _ _ _ | .timeout _ => inferInstanceAs (Decidable (¬ _))
  | .free => inferInstanceAs (Decidable True)

structure Once (s : PlRun) : Prop where
  notified : s.p.numNotified = s.ended
  fresh : s.p.Waiting → s.ended = 0
  once : s.ended ≤ 1
  armed : s.p.Waiting → s.p.timerOn = true

structure InPools (s : PlRun) : Prop where
  held : s.ended = 0 → s.p.inReqPool = true ∧ s.p.inCallerPool = true
  released : s.Released
  claimed : s.p.stat = .ciCaller → 0 < s.ended

theorem Once.init (opcode : IoDir) (md : MdItem) (trueMD : Bool) (numHbids : Nat) :
    Once ⟨initReq opcode md trueMD numHbids, 0⟩ := ⟨rfl, fun _ => rfl, Nat.zero_le _, fun _ => rfl⟩

theorem InPools.init (opcode : IoDir) (md : MdItem) (trueMD : Bool) (numHbids : Nat) :
    InPools ⟨initReq opcode md trueMD numHbids, 0⟩ :=
  ⟨fun _ => ⟨rfl, rfl⟩, fun h => absurd h (Nat.lt_irrefl 0), fun h => by cases h⟩

structure Quiet (s t : PlRun) : Prop where
  stat : t.p.stat = s.p.stat
  notified : t.p.numNotified = s.p.numNotified
  ended : t.ended = s.ended
  pool : t.p.inReqPool = s.p.inReqPool
  caller : t.p.inCallerPool = s.p.inCallerPool
  timerOn : t.p.timerOn = s.p.timerOn

/-- The request is claimed, and told of and ended n times more. -/
structure Claimed (s t : PlRun) (n : Nat) : Prop where
  waiting : s.p.Waiting
  stat : t.p.stat = .ciCaller
  notified : t.p.numNotified = s.p.numNotified + n
  ended : t.ended = s.ended + n

structure Over (s t : PlRun) (pool caller : Bool) : Prop extends Claimed s t 1 where
  pool : t.p.inReqPool = pool
  caller : t.p.inCallerPool = caller

theorem Quiet.of_visible {s t : PlRun} {freed : Nat} {cnt : Int}
    (hvis : t.p.visible = { s.p.visible with freed := freed, rToChkCnt := cnt }) (hended : t.ended = s.ended) : Quiet s t :=
  ⟨congrArg Visible.stat hvis, congrArg Visible.numNotified hvis, hended, congrArg Visible.inReqPool hvis,
    congrArg Visible.inCallerPool hvis, congrArg Visible.timerOn hvis⟩

theorem Quiet.of_goesOn {p : PayloadReq} {r : PayloadReq × Bool} (h : GoesOn p r) (frees : Nat) :
    Quiet ⟨p, frees⟩ ⟨r.1, frees + r.2.toNat⟩ := by
  refine .of_visible h.2 ?_
  change r.1.freed + (frees + r.2.toNat) = p.freed + frees
  rw [h.1, show r.1.freed = p.freed from congrArg Visible.freed h.2]
  rfl

theorem Over.of_ends {p : PayloadReq} {r : PayloadReq × Bool} {pool caller : Bool} (h : Ends p r pool caller)
    (frees : Nat) : Over ⟨p, frees⟩ ⟨r.1, frees + r.2.toNat⟩ pool caller := by
  obtain ⟨hw, hfree, hvis⟩ := h
  refine ⟨⟨hw, congrArg Visible.stat hvis, congrArg Visible.numNotified hvis, ?_⟩, congrArg Visible.inReqPool hvis,
    congrArg Visible.inCallerPool hvis⟩
  change r.1.freed + (frees + r.2.toNat) = p.freed + frees + 1
  rw [hfree, show r.1.freed = p.freed from congrArg Visible.freed hvis]
  rfl

/-- A timeout of a read without another replica claims the request and hangs; without a timer it would end it
inside its pools. -/
theorem timeout_alone (cfg : ToConfig) (minDiskAck : Nat) (now : UInt64) (h : s.p.TimesOutAlone) :
    Claimed s (s.step cfg minDiskAck (.timeout now)) 0 ∨
      Over s (s.step cfg minDiskAck (.timeout now)) s.p.inReqPool s.p.inCallerPool := by
  obtain ⟨t, ht⟩ : ∃ t, t = s.step cfg minDiskAck (.timeout now) := ⟨_, rfl⟩
  have hvis : t.p.visible = aloneVisible { s.p.visible with rToChkCnt := s.p.rToChkCnt - 1 } := by
    rw [ht]
    change (s.p.toHandlerGut cfg now).visible = _
    rw [toHandlerGut_eq, (toHandlerBody_visible cfg now s.p).2]
    exact if_pos h
  have hfrees : t.frees = s.frees := by rw [ht]; rfl
  rw [← ht]
  rw [aloneVisible] at hvis
  split_ifs at hvis
  · refine .inl ⟨.inl h.2.2.1, congrArg Visible.stat hvis, congrArg Visible.numNotified hvis, ?_⟩
    rw [ended, hfrees, show t.p.freed = s.p.freed from congrArg Visible.freed hvis]
    rfl
  · refine .inr ⟨⟨.inl h.2.2.1, congrArg Visible.stat hvis, congrArg Visible.numNotified hvis, ?_⟩,
      congrArg Visible.inReqPool hvis, congrArg Visible.inCallerPool hvis⟩
    rw [ended, hfrees, show t.p.freed = s.p.freed + 1 from congrArg Visible.freed hvis]
    exact Nat.add_right_comm _ _ _

theorem step_cases (cfg : ToConfig) (minDiskAck : Nat) (he : (machine cfg minDiskAck).enabled s e) :
    (¬ s.NoMdErr e ∧ (Claimed s (s.step cfg minDiskAck e) 0 ∨
        Over s (s.step cfg minDiskAck e) s.p.inReqPool s.p.inCallerPool)) ∨
      (s.NoMdErr e ∧ (Over s (s.step cfg minDiskAck e) false false ∨ Quiet s (s.step cfg minDiskAck e))) := by
  cases e with
  | ack now result bkIdx dnLocIdx =>
    rcases endfnBody_cases minDiskAck now s.p result bkIdx dnLocIdx with ⟨hr, hend⟩ | ⟨hr, hend | hgoes⟩
    · exact .inl ⟨fun hnot => hnot hr, .inr (.of_ends hend s.frees)⟩
    · exact .inr ⟨hr, .inl (.of_ends hend s.frees)⟩
    · exact .inr ⟨hr, .inr (.of_goesOn hgoes s.frees)⟩
  | timeout now =>
    by_cases halone : s.p.TimesOutAlone
    · exact .inl ⟨fun hnot => hnot halone, timeout_alone cfg minDiskAck now halone⟩
    · have hvis : (s.p.toHandlerGut cfg now).visible = { s.p.visible with rToChkCnt := s.p.rToChkCnt - 1 } := by
        rw [toHandlerGut_eq, (toHandlerBody_visible cfg now s.p).2]
        exact if_neg halone
      exact .inr ⟨halone, .inr (.of_visible hvis (congrArg (Visible.freed · + s.frees) hvis))⟩
  | free =>
    have hvis := visible_freePlReq s.p
    have hfreed : s.p.freePlReq.freed = s.p.freed + 1 := congrArg Visible.freed hvis
    have hpos : 0 < s.frees := he
    refine .inr ⟨trivial, .inr (.of_visible hvis ?_)⟩
    change s.p.freePlReq.freed + (s.frees - 1) = s.p.freed + s.frees
    omega

theorem Once.claimed {t : PlRun} {n : Nat} (h : Once s) (hc : Claimed s t n) (hn : n ≤ 1) : Once t := by
  have hnot : ¬ t.p.Waiting := by rw [Waiting, hc.stat]; decide
  refine ⟨?_, fun hw => absurd hw hnot, ?_, fun hw => absurd hw hnot⟩
  · rw [hc.notified, hc.ended, h.notified]
  · rw [hc.ended, h.fresh hc.waiting, Nat.zero_add]
    exact hn

theorem Once.step (h : Once s) (he : (machine cfg minDiskAck).enabled s e) : Once (s.step cfg minDiskAck e) := by
  rcases step_cases cfg minDiskAck he with ⟨-, hc | ho⟩ | ⟨-, ho | hq⟩
  · exact h.claimed hc (Nat.zero_le _)
  · exact h.claimed ho.toClaimed (Nat.le_refl _)
  · exact h.claimed ho.toClaimed (Nat.le_refl _)
  · have hw : (s.step cfg minDiskAck e).p.Waiting ↔ s.p.Waiting := by rw [Waiting, Waiting, hq.stat]
    refine ⟨by rw [hq.notified, hq.ended, h.notified], fun hwait => ?_, by rw [hq.ended]; exact h.once, fun hwait => ?_⟩
    · rw [hq.ended]
      exact h.fresh (hw.mp hwait)
    · rw [hq.timerOn]
      exact h.armed (hw.mp hwait)

theorem once_exec (cfg : ToConfig) (minDiskAck : Nat) (opcode : IoDir) (md : MdItem) (trueMD : Bool) (numHbids : Nat)
    {es : List PlEvent} (h : (machine cfg minDiskAck).Legal ⟨initReq opcode md trueMD numHbids, 0⟩ es) :
    Once ((machine cfg minDiskAck).exec ⟨initReq opcode md trueMD numHbids, 0⟩ es) :=
  GuardedMachine.exec_invariant (m := machine cfg minDiskAck) (I := Once) (.init opcode md trueMD numHbids)
    (fun _ _ ht he => ht.step he) h

theorem InPools.step (h : InPools s) (hn : s.NoMdErr e) (he : (machine cfg minDiskAck).enabled s e) :
    InPools (s.step cfg minDiskAck e) := by
  rcases step_cases cfg minDiskAck he with ⟨hnot, -⟩ | ⟨-, ho | hq⟩
  · exact absurd hn hnot
  · have hpos : 0 < (s.step cfg minDiskAck e).ended := by rw [ho.ended]; exact Nat.succ_pos _
    exact ⟨fun hend => absurd hend (Nat.ne_of_gt hpos), fun _ => ⟨ho.pool, ho.caller⟩, fun _ => hpos⟩
  · refine ⟨fun hend => ?_, fun hend => ?_, fun hstat => ?_⟩
    · rw [hq.pool, hq.caller]
      exact h.held (hq.ended ▸ hend)
    · rw [hq.pool, hq.caller]
      exact h.released (hq.ended ▸ hend)
    · rw [hq.ended]
      exact h.claimed (hq.stat ▸ hstat)

theorem releases_iff (ho : Once s) (h : InPools s) (he : (machine cfg minDiskAck).enabled s e) :
    Releases cfg minDiskAck s e ↔ s.NoMdErr e := by
  constructor
  · rintro ⟨hrel, htold⟩
    rcases step_cases cfg minDiskAck he with ⟨-, hc | hover⟩ | ⟨hn, -⟩
    · have hpos := htold hc.stat
      rw [hc.notified, ho.notified, ho.fresh hc.waiting] at hpos
      exact absurd hpos (Nat.lt_irrefl 0)
    · have hpool := (hrel (by rw [hover.ended]; exact Nat.succ_pos _)).1
      rw [hover.pool, (h.held (ho.fresh hover.waiting)).1] at hpool
      cases hpool
    · exact hn
  · intro hn
    have hnext := h.step hn he
    refine ⟨hnext.released, fun hstat => ?_⟩
    rw [(ho.step he).notified]
    exact hnext.claimed hstat

/-- In every run the caller is told that the request is over as often as it is freed, at most once. At every
event a claimed request is told of and a freed one has left its pools exactly when no event reports a mismatch.
-/
theorem released_before_free_iff (cfg : ToConfig) (minDiskAck : Nat) (opcode : IoDir) (md : MdItem) (trueMD : Bool)
    (numHbids : Nat) {es : List PlEvent}
    (h : (machine cfg minDiskAck).Legal ⟨initReq opcode md trueMD numHbids, 0⟩ es) :
    (let s := (machine cfg minDiskAck).exec ⟨initReq opcode md trueMD numHbids, 0⟩ es
     s.p.numNotified = s.ended ∧ s.ended ≤ 1) ∧
      (((machine cfg minDiskAck).restrict (Releases cfg minDiskAck)).Legal ⟨initReq opcode md trueMD numHbids, 0⟩ es ↔
        ((machine cfg minDiskAck).restrict NoMdErr).Legal ⟨initReq opcode md trueMD numHbids, 0⟩ es) := by
  constructor
  · have honce := once_exec cfg minDiskAck opcode md trueMD numHbids h
    exact ⟨honce.notified, honce.once⟩
  · exact GuardedMachine.restrict_legal_congr (I := fun s => Once s ∧ InPools s)
      ⟨.init opcode md trueMD numHbids, .init opcode md trueMD numHbids⟩
      (fun _ _ ht he => releases_iff ht.1 ht.2 he) fun _ _ ht he hn => ⟨ht.1.step he, ht.2.step hn he⟩

/-- A write to one replica ends with its disk ack, and a second ack comes before the free. -/
theorem released_before_free_write :
    let cfg : ToConfig := ⟨false, 0, fun _ => 0⟩
    let es : List PlEvent := [.ack 5 .writeOk 0 0, .ack 6 .writeOk 0 0, .free]
    ((machine cfg 1).exec ⟨initReq .write (.init 1) false 8, 0⟩ es).p.numNotified = 1 ∧
      ((machine cfg 1).restrict (Releases cfg 1)).Legal ⟨initReq .write (.init 1) false 8, 0⟩ es := by
  have hlegal : (machine ⟨false, 0, fun _ => 0⟩ 1).Legal ⟨initReq .write (.init 1) false 8, 0⟩
      [.ack 5 .writeOk 0 0, .ack 6 .writeOk 0 0, .free] := ⟨rfl, rfl, by decide, trivial⟩
  refine ⟨?_, ?_⟩
  · exact (released_before_free_iff ⟨false, 0, fun _ => 0⟩ 1 .write (.init 1) false 8 hlegal).1.1
  · exact (released_before_free_iff ⟨false, 0, fun _ => 0⟩ 1 .write (.init 1) false 8 hlegal).2.mpr
      ⟨⟨rfl, by decide⟩, ⟨rfl, by decide⟩, ⟨by decide, trivial⟩, trivial⟩

/-- A read without true metadata whose data node reports a mismatch is freed from inside both
of its pools; when the timer of a read with one replica fires, its caller is not told at all. -/
theorem freed_inside_pools :
    let cfg : ToConfig := ⟨false, 0, fun _ => 0⟩
    let es : List PlEvent := [.ack 5 .mdErr 0 0, .free]
    let s := (machine cfg 1).exec ⟨initReq .read (.init 3) false 8, 0⟩ es
    (machine cfg 1).Legal ⟨initReq .read (.init 3) false 8, 0⟩ es ∧
      (s.p.freed = 1 ∧ s.p.calls = [.reportMDErr 8] ∧ s.p.inReqPool = true ∧ s.p.inCallerPool = true) ∧
      (let t := (machine cfg 1).exec ⟨initReq .read (.init 1) false 8, 0⟩ [.timeout 5]
       t.p.stat = .ciCaller ∧ t.p.calls = [] ∧ t.ended = 0) := by
  exact ⟨⟨rfl, by decide, trivial⟩, by decide, by decide⟩

end DiscoClient.PlRun
