import DiscoClient.IoManager.OverlapComplete

namespace DiscoClient.VolIoReqPool
open List
variable {s : VolIoReqPool}

def submissions : List PoolEvent → List (UserIoAddr × IoDir)
  | [] => []
  | .submit a _ dir :: es => (a, dir) :: submissions es
  | _ :: es => submissions es

theorem PoolInv.exec {es : List PoolEvent} (h : PoolInv s) (hl : poolMachine.Legal s es) :
    PoolInv (poolMachine.exec s es) :=
  GuardedMachine.exec_invariant h (fun _ _ ht he => ht.step he) hl

/-- Some unfinished request is running, none of them being younger than a given one. -/
theorem PoolInv.exists_running (h : PoolInv s) {r : Nat} (hr : s.Unfinished r) :
    ∃ q ∈ s.ioReqPool, q ≤ r := by
  induction r using Nat.strong_induction_on with
  | _ r ih =>
    rcases hr with hr | hr
    · exact ⟨r, hr, le_refl r⟩
    · have hw := h.waiting_linked r hr
      rw [Ne, h.waitList_eq_nil_iff] at hw
      push Not at hw
      obtain ⟨q, hb⟩ := hw
      obtain ⟨x, hx, hle⟩ := ih q hb.1 hb.2.1
      exact ⟨x, hx, by have := hb.1; omega⟩

theorem PoolInv.cntOvlpWait_eq (h : PoolInv s) (r : Nat) :
    (s.req r).cntOvlpWait = Set.ncard {q | s.Blocks q r} := by
  have hset : {q | s.Blocks q r} = ((s.req r).waitList.map OvlpItem.processIor).toFinset := by
    ext q
    simp only [Set.mem_ofPred_eq, coe_toFinset, mem_map, h.mem_wait]
    constructor
    · intro hb
      exact ⟨s.link q r, ⟨q, hb, rfl⟩, rfl⟩
    · rintro ⟨it, ⟨x, hb, rfl⟩, rfl⟩
      exact hb
  have hnd : ((s.req r).waitList.map OvlpItem.processIor).Nodup := by
    refine (h.wait_nodup r).map_on fun x hx y hy hxy => ?_
    obtain ⟨q, -, rfl⟩ := (h.mem_wait r x).mp hx
    obtain ⟨q', -, rfl⟩ := (h.mem_wait r y).mp hy
    rw [show q = q' from hxy]
  rw [hset, Set.ncard_coe_finset, toFinset_card_of_nodup hnd, length_map, h.cnt_wait]

theorem PoolInv.drain (h : PoolInv s) :
    ∃ fs : List Nat, poolMachine.Legal s (fs.map .complete) ∧
      (poolMachine.exec s (fs.map .complete)).ioReqPool = [] ∧
      (poolMachine.exec s (fs.map .complete)).ioReqOvlpPool = [] ∧
      (poolMachine.exec s (fs.map .complete)).numSubmitted = s.numSubmitted := by
  induction hn : s.ioReqPool.length + s.ioReqOvlpPool.length using Nat.strong_induction_on
    generalizing s with
  | _ n ih =>
    by_cases hp : s.ioReqPool = []
    · refine ⟨[], trivial, hp, ?_, rfl⟩
      rw [eq_nil_iff_forall_not_mem]
      intro r hr
      obtain ⟨q, hq, -⟩ := h.exists_running (Or.inr hr)
      rw [hp] at hq
      exact absurd hq not_mem_nil
    · obtain ⟨r, hr⟩ := exists_mem_of_ne_nil _ hp
      obtain ⟨hlen, hnum⟩ := h.complete_length hr
      obtain ⟨fs, hl, h1, h2, h3⟩ := ih _ (by omega) (h.complete hr) rfl
      exact ⟨r :: fs, ⟨hr, hl⟩, h1, h2, h3.trans hnum⟩

theorem submissions_append (es fs : List PoolEvent) :
    submissions (es ++ fs) = submissions es ++ submissions fs := by
  induction es with
  | nil => rfl
  | cons e es ih => cases e <;> simp [submissions, ih]

def Faithful (es : List PoolEvent) (s : VolIoReqPool) : Prop :=
  s.numSubmitted = (submissions es).length ∧
    ∀ r a dir, (submissions es)[r]? = some (a, dir) → (s.req r).usrIoAddr = a ∧ (s.req r).iodir = dir

private theorem Faithful.step {past : List PoolEvent} {e : PoolEvent} (hf : Faithful past s)
    (h : PoolInv s) (he : poolMachine.enabled s e) :
    Faithful (past ++ [e]) (poolMachine.step s e) := by
  obtain ⟨hnum, hreq⟩ := hf
  cases e with
  | submit a wf dir =>
    obtain ⟨hn, hold, hnew⟩ := h.submit_sameIo a wf dir
    refine ⟨?_, fun r a' dir' hr => ?_⟩
    · rw [submissions_append, length_append, ← hnum]
      exact hn
    · rw [submissions_append] at hr
      by_cases hlt : r < s.numSubmitted
      · rw [List.getElem?_append_left (hnum ▸ hlt)] at hr
        have hs := hold r (by omega)
        obtain ⟨h1, h2⟩ := hreq r a' dir' hr
        exact ⟨hs.1.trans h1, hs.2.trans h2⟩
      · rw [List.getElem?_append_right (by omega)] at hr
        have hz : r - (submissions past).length = 0 := by
          by_contra hz
          simp [submissions, hz] at hr
        have hrn : r = s.numSubmitted := by omega
        simp only [hz, submissions, List.getElem?_cons_zero, Option.some.injEq, Prod.mk.injEq] at hr
        rw [hrn, ← hr.1, ← hr.2]
        exact hnew
  | progress r e =>
    rw [Faithful, submissions_append]
    simp only [submissions, append_nil]
    refine ⟨hnum, fun x a dir hx => ?_⟩
    obtain ⟨h1, h2⟩ := hreq x a dir hx
    by_cases hxr : x = r
    · subst hxr
      simp [poolMachine, modifyReq, h1, h2]
    · simp [poolMachine, modifyReq, hxr, h1, h2]
  | complete r =>
    rw [Faithful, submissions_append]
    simp only [submissions, append_nil]
    refine ⟨(h.complete_length he).2.trans hnum, fun x a dir hx => ?_⟩
    obtain ⟨h1, h2⟩ := hreq x a dir hx
    have hs := h.complete_sameIo he x
    exact ⟨hs.1.trans h1, hs.2.trans h2⟩

theorem faithful_exec {es : List PoolEvent} (hl : poolMachine.Legal initVolIoQ es) :
    Faithful es (poolMachine.exec initVolIoQ es) := by
  refine (GuardedMachine.exec_history (R := fun past t => Faithful past t ∧ PoolInv t)
    ⟨⟨rfl, fun r a dir h => by simp [submissions] at h⟩, PoolInv.init⟩ ?_ hl).1
  rintro past t e ⟨hf, hi⟩ he
  exact ⟨hf.step hi he, hi.step he⟩

theorem PoolInv.running_disjoint (h : PoolInv s) {q r : Nat} (hq : q ∈ s.ioReqPool)
    (hr : r ∈ s.ioReqPool) (hne : q ≠ r) : ¬ Conflict (s.req q) (s.req r) := by
  intro hc
  rcases Nat.lt_or_gt_of_ne hne with hlt | hlt
  · exact h.not_blocked hr q ⟨hlt, Or.inl hq, Or.inl hr, hc⟩
  · obtain ⟨hw, lb, h1, h2⟩ := hc
    exact h.not_blocked hq r ⟨hlt, Or.inl hr, Or.inl hq, hw.symm, lb, h2, h1⟩

/-- In every state of a volume's request pool, running requests do not conflict; a running request has
outlived every earlier one it conflicts with; a request has entered the running queue once, or waits and has
not; its counter is the number of requests it waits for; and the pool can always be run empty. -/
theorem overlap_serialisation (es : List PoolEvent) (hl : poolMachine.Legal initVolIoQ es) :
    let s := poolMachine.exec initVolIoQ es
    Faithful es s ∧
    (∀ q ∈ s.ioReqPool, ∀ r ∈ s.ioReqPool, q ≠ r → ¬ Conflict (s.req q) (s.req r)) ∧
    (∀ r ∈ s.ioReqPool, ∀ q, q < r → Conflict (s.req q) (s.req r) → ¬ s.Unfinished q) ∧
    (∀ r, r < s.numSubmitted → s.enterLog.count r = if r ∈ s.ioReqOvlpPool then 0 else 1) ∧
    (∀ r, (s.req r).cntOvlpWait = Set.ncard {q | s.Blocks q r}) ∧
    (s.ioReqOvlpPool ≠ [] → s.ioReqPool ≠ []) ∧
    ∃ fs : List Nat, poolMachine.Legal s (fs.map .complete) ∧
      ∀ r, r < s.numSubmitted → (poolMachine.exec s (fs.map .complete)).enterLog.count r = 1 := by
  intro s
  have h : PoolInv s := PoolInv.init.exec hl
  refine ⟨faithful_exec hl, fun q hq r hr hne => h.running_disjoint hq hr hne, ?_, ?_,
    h.cntOvlpWait_eq, ?_, ?_⟩
  · intro r hr q hlt hc hq
    exact h.not_blocked hr q ⟨hlt, hq, Or.inl hr, hc⟩
  · intro r hr
    rw [h.entered]
    by_cases hw : r ∈ s.ioReqOvlpPool <;> simp [hr, hw]
  · intro hw hp
    obtain ⟨r, hr⟩ := exists_mem_of_ne_nil _ hw
    obtain ⟨q, hq, -⟩ := h.exists_running (Or.inr hr)
    rw [hp] at hq
    exact not_mem_nil hq
  · obtain ⟨fs, hfs, -, hovlp, hnum⟩ := h.drain
    refine ⟨fs, hfs, fun r hr => ?_⟩
    rw [(h.exec hfs).entered, hovlp, hnum]
    simp [hr]

private def twoWriters : List PoolEvent :=
  [.submit ⟨0, 0, 0, 4, 0⟩ ⟨by decide, by decide⟩ .write,
    .submit ⟨0, 0, 0, 4, 2⟩ ⟨by decide, by decide⟩ .write, .complete 0]

theorem overlap_serialisation_two_writers :
    poolMachine.Legal initVolIoQ twoWriters ∧
      (poolMachine.exec initVolIoQ twoWriters).enterLog.count 1 = 1 := by
  have hl : poolMachine.Legal initVolIoQ twoWriters :=
    ⟨trivial, trivial, (by decide : 0 ∈ (poolMachine.exec initVolIoQ (twoWriters.take 2)).ioReqPool), trivial⟩
  exact ⟨hl, (overlap_serialisation twoWriters hl).2.2.2.1 1 (by decide)⟩

end DiscoClient.VolIoReqPool
