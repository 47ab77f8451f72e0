import DiscoClient.IoManager.OverlapSerialisation
import Mathlib.Data.List.Sort

/-! The IO requests of a volume act on its LBs in the order of their submission, in whatever order they complete. -/
namespace DiscoClient.VolIoReqPool
open List
variable {s : VolIoReqPool}

def completions : List PoolEvent → List Nat
  | [] => []
  | .complete r :: es => r :: completions es
  | _ :: es => completions es

theorem completions_append (es fs : List PoolEvent) : completions (es ++ fs) = completions es ++ completions fs := by
  induction es with
  | nil => rfl
  | cons e es ih => cases e <;> simp [completions, ih]

instance (a : UserIoAddr) (lb : Nat) : Decidable (a.Covers lb) := inferInstanceAs (Decidable (_ ∧ _))

/-- The requests of a list that write an LB. -/
def writersOf (s : VolIoReqPool) (lb : Nat) (rs : List Nat) : List Nat :=
  rs.filter fun r => (s.req r).iodir = .write ∧ (s.req r).usrIoAddr.Covers lb

theorem mem_writersOf {lb r : Nat} {rs : List Nat} :
    r ∈ s.writersOf lb rs ↔ r ∈ rs ∧ (s.req r).iodir = .write ∧ (s.req r).usrIoAddr.Covers lb := by
  rw [writersOf, mem_filter, decide_eq_true_eq]

/-- Requests that conflict complete in the order of their submission, and none before an older one. -/
structure InOrder (past : List PoolEvent) (s : VolIoReqPool) : Prop where
  inv : PoolInv s
  done : ∀ r, r ∈ completions past ↔ r < s.numSubmitted ∧ ¬s.Unfinished r
  ordered : (completions past).Pairwise fun q r => Conflict (s.req q) (s.req r) → q < r
  older : ∀ r ∈ completions past, ∀ q < r, Conflict (s.req q) (s.req r) → q ∈ completions past

theorem conflict_symm {p q : IoRequest} (h : Conflict p q) : Conflict q p := by
  obtain ⟨hw, lb, hp, hq⟩ := h
  exact ⟨hw.symm, lb, hq, hp⟩

/-- A step that completes nothing, and after which the older requests conflict as before. -/
theorem InOrder.kept {past : List PoolEvent} {e : PoolEvent} {t : VolIoReqPool} (h : InOrder past s) (hinv : PoolInv t)
    (he : completions [e] = []) (hsame : ∀ r < s.numSubmitted, SameIo (t.req r) (s.req r))
    (hdone : ∀ r, (r < t.numSubmitted ∧ ¬t.Unfinished r) ↔ r < s.numSubmitted ∧ ¬s.Unfinished r) :
    InOrder (past ++ [e]) t := by
  have hold {r : Nat} (hr : r ∈ completions past) : r < s.numSubmitted := ((h.done r).mp hr).1
  have hpast : completions (past ++ [e]) = completions past := by rw [completions_append, he, append_nil]
  refine ⟨hinv, fun r => ?_, ?_, ?_⟩
  · rw [hpast, hdone, h.done]
  · rw [hpast]
    refine h.ordered.imp_of_mem fun hq hr hlt hc => hlt ?_
    exact (conflict_congr (hsame _ (hold hq)) (hsame _ (hold hr))).mp hc
  · rw [hpast]
    intro r hr q hlt hc
    exact h.older r hr q hlt ((conflict_congr (hsame q (hlt.trans (hold hr))) (hsame r (hold hr))).mp hc)

theorem InOrder.step {past : List PoolEvent} {e : PoolEvent} (h : InOrder past s) (he : poolMachine.enabled s e) :
    InOrder (past ++ [e]) (poolMachine.step s e) := by
  cases e with
  | submit a wf dir =>
    obtain ⟨hnum, hsame, -⟩ := h.inv.submit_sameIo a wf dir
    refine h.kept (h.inv.step he) rfl (fun r hr => hsame r hr.ne) fun r => ?_
    change (r < (s.submit a wf dir).numSubmitted ∧ ¬(s.submit a wf dir).Unfinished r) ↔ _
    rw [hnum, h.inv.submit_unfinished]
    constructor
    · rintro ⟨hlt, hun⟩
      have hne : r ≠ s.numSubmitted := fun heq => hun (.inr heq)
      exact ⟨by omega, fun hu => hun (.inl hu)⟩
    · rintro ⟨hlt, hun⟩
      exact ⟨by omega, fun hu => hu.elim hun fun heq => hlt.ne heq⟩
  | progress r e =>
    refine h.kept (h.inv.step he) rfl (fun x _ => ?_) fun x => Iff.rfl
    by_cases hx : x = r
    · subst hx
      simp [poolMachine, modifyReq, SameIo]
    · simp [poolMachine, modifyReq, hx, SameIo]
  | complete r =>
    have hr : r ∈ s.ioReqPool := he
    have hpast : completions (past ++ [.complete r]) = completions past ++ [r] := completions_append _ _
    have hnum := (h.inv.complete_length hr).2
    have hcongr (q x : Nat) : Conflict ((s.ioReqRmIoReqQueue r).req q) ((s.ioReqRmIoReqQueue r).req x) ↔
        Conflict (s.req q) (s.req x) :=
      conflict_congr (h.inv.complete_sameIo hr q) (h.inv.complete_sameIo hr x)
    have hnew : r ∉ completions past := fun hm => ((h.done r).mp hm).2 (.inl hr)
    -- r runs, so what it conflicts with and is older has completed
    have hbefore {q : Nat} (hlt : q < r) (hc : Conflict (s.req q) (s.req r)) : q ∈ completions past := by
      refine (h.done q).mpr ⟨hlt.trans (h.inv.submitted r (.inl hr)), fun hq => ?_⟩
      exact h.inv.not_blocked hr q ⟨hlt, hq, .inl hr, hc⟩
    refine ⟨h.inv.step he, fun x => ?_, ?_, ?_⟩
    · change _ ↔ x < (s.ioReqRmIoReqQueue r).numSubmitted ∧ ¬(s.ioReqRmIoReqQueue r).Unfinished x
      rw [hpast, mem_append, mem_singleton, h.done, hnum, h.inv.complete_unfinished hr]
      by_cases hx : x = r
      · simp [hx, h.inv.submitted r (.inl hr)]
      · simp [hx]
    · rw [hpast, pairwise_append]
      refine ⟨h.ordered.imp fun hlt hc => hlt ((hcongr _ _).mp hc), pairwise_singleton _ _, ?_⟩
      intro q hq x hx hc
      obtain rfl := mem_singleton.mp hx
      by_contra hge
      have hne : q ≠ x := fun heq => hnew (heq ▸ hq)
      exact hnew (h.older q hq x (by omega) (conflict_symm ((hcongr _ _).mp hc)))
    · rw [hpast]
      intro x hx q hlt hc
      rcases mem_append.mp hx with hx | hx
      · exact mem_append_left _ (h.older x hx q hlt ((hcongr _ _).mp hc))
      · obtain rfl := mem_singleton.mp hx
        exact mem_append_left _ (hbefore hlt ((hcongr _ _).mp hc))

theorem inOrder_exec {es : List PoolEvent} (hl : poolMachine.Legal initVolIoQ es) :
    InOrder es (poolMachine.exec initVolIoQ es) := by
  refine GuardedMachine.exec_history ⟨PoolInv.init, fun r => ?_, List.Pairwise.nil, ?_⟩ (fun _ _ _ h he => h.step he) hl
  · simp [completions, initVolIoQ]
  · exact fun r hr => absurd hr not_mem_nil

/-- The completed writers of an LB are those before n, if these are the ones that have completed. -/
theorem InOrder.writersOf_eq {past : List PoolEvent} (h : InOrder past s) {lb n : Nat}
    (hmem : ∀ w, (s.req w).iodir = .write → (s.req w).usrIoAddr.Covers lb → (w ∈ completions past ↔ w < n)) :
    s.writersOf lb (completions past) = s.writersOf lb (List.range n) := by
  refine List.Pairwise.eq_of_mem_iff (r := (· < ·)) ?_ (pairwise_lt_range.filter _) fun w => ?_
  · refine (h.ordered.filter _).imp_of_mem fun hq hr hlt => hlt ?_
    obtain ⟨-, hw, hq⟩ := mem_writersOf.mp hq
    obtain ⟨-, -, hr⟩ := mem_writersOf.mp hr
    exact ⟨.inl hw, lb, hq, hr⟩
  · rw [mem_writersOf, mem_writersOf, mem_range]
    exact ⟨fun ⟨hw, hd, hc⟩ => ⟨(hmem w hd hc).mp hw, hd, hc⟩, fun ⟨hw, hd, hc⟩ => ⟨(hmem w hd hc).mpr hw, hd, hc⟩⟩

/-- However the requests of a volume complete, a running one finds each of its LBs as the writes that were
submitted before it have left it, one after the other; and so does whoever looks when none is left. -/
theorem writes_in_submission_order (es : List PoolEvent) (hl : poolMachine.Legal initVolIoQ es) (lb : Nat) :
    let s := poolMachine.exec initVolIoQ es
    (∀ r ∈ s.ioReqPool, (s.req r).usrIoAddr.Covers lb →
      s.writersOf lb (completions es) = s.writersOf lb (List.range r)) ∧
    (s.ioReqPool = [] → s.ioReqOvlpPool = [] →
      s.writersOf lb (completions es) = s.writersOf lb (List.range s.numSubmitted)) := by
  intro s
  have h : InOrder es s := inOrder_exec hl
  constructor
  · intro r hr hcover
    refine h.writersOf_eq fun w hwrite hw => ?_
    have hconflict : Conflict (s.req w) (s.req r) := ⟨.inl hwrite, lb, hw, hcover⟩
    constructor
    · intro hdone
      by_contra hge
      have hun := ((h.done w).mp hdone).2
      have hne : w ≠ r := fun heq => hun (heq ▸ .inl hr)
      exact ((h.done r).mp (h.older w hdone r (by omega) (conflict_symm hconflict))).2 (.inl hr)
    · intro hlt
      refine (h.done w).mpr ⟨hlt.trans (h.inv.submitted r (.inl hr)), fun hun => ?_⟩
      exact h.inv.not_blocked hr w ⟨hlt, hun, .inl hr, hconflict⟩
  · intro hrun hwait
    refine h.writersOf_eq fun w _ _ => ?_
    rw [h.done, and_iff_left]
    simp [Unfinished, hrun, hwait]

private def readBehindWrite : List PoolEvent :=
  [.submit ⟨0, 0, 0, 5, 1⟩ ⟨by decide, by decide⟩ .write,
    .submit ⟨0, 0, 0, 6, 3⟩ ⟨by decide, by decide⟩ .read, .complete 0]

theorem writes_in_submission_order_read :
    (poolMachine.exec initVolIoQ readBehindWrite).writersOf 3 (completions readBehindWrite) =
      (poolMachine.exec initVolIoQ readBehindWrite).writersOf 3 (List.range 1) := by
  have hl : poolMachine.Legal initVolIoQ readBehindWrite :=
    ⟨trivial, trivial, (by decide : 0 ∈ (poolMachine.exec initVolIoQ (readBehindWrite.take 2)).ioReqPool), trivial⟩
  exact (writes_in_submission_order readBehindWrite hl 3).1 1 (by decide) (by decide)

end DiscoClient.VolIoReqPool
