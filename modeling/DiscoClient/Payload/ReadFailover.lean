import DiscoClient.Payload.ReadSubmit
import Mathlib.Data.List.Perm.Subperm

namespace DiscoClient
open List

/-- Every replica has answered with a disk failure or an HBID error. -/
def MdItem.Exhausted (md : MdItem) : Prop :=
  ∀ r < md.numDnLoc, md.udataStatus r = .diskFailure ∨ md.udataStatus r = .mdErr

instance (md : MdItem) : Decidable md.Exhausted :=
  inferInstanceAs (Decidable (∀ r < md.numDnLoc, _ ∨ _))

namespace PayloadReq
variable {p t : PayloadReq} {e : ReadResult} {n first : Nat}

def Untried (p : PayloadReq) : Prop := ∃ r < p.mdItem.numDnLoc, r ∉ p.tried

instance (p : PayloadReq) : Decidable p.Untried :=
  decidable_of_iff ((List.range p.mdItem.numDnLoc).any (· ∉ p.tried) = true) (by simp [Untried])

/-- Submit one read, to a replica that was never tried and has no read outstanding, as long as there is one;
and commit once every replica has answered. -/
structure FailsOver (p : PayloadReq) (e : ReadResult) : Prop where
  next : p.Untried → ∃ r < p.mdItem.numDnLoc, r ∉ p.tried ∧ (∀ d ∈ p.dnReqs, d.dnLocIdx ≠ r) ∧
    (readFailMachine.step p e).tried = p.tried ++ [r]
  commit : (readFailMachine.step p e).mdItem.Exhausted → (readFailMachine.step p e).stat = .ciCaller ∧
    (readFailMachine.step p e).calls = p.calls ++ [.endReq p.numHbids
      (readFailMachine.step p e).mdItem.checkCiUserStatus.2 (readFailMachine.step p e).numReadFailDn]

/-- As long as a replica is untried the result comes from the replica read last, and some
replica has not answered with a disk failure or an HBID error. -/
structure LastAnswers (p : PayloadReq) (e : ReadResult) : Prop where
  last : p.Untried → p.tried.getLast? = some e.req.dnLocIdx
  left : ¬ (p.mdItem.updateDnUDataStat e.req.dnLocIdx e.result).Exhausted

structure Reading (n : Nat) (p : PayloadReq) : Prop where
  trueMD : p.trueMD = true
  numDnLoc : p.mdItem.numDnLoc = n
  noData : ∀ r, p.mdItem.udataStatus r ≠ .readOk

/-- The replicas tried, in the order of the scan: those before the last have answered, the others have not.
-/
structure Scanned (n first : Nat) (done : List Nat) (last : Nat) (rest : List Nat) (p : PayloadReq) : Prop where
  order : cyclicFrom n first = done ++ last :: rest
  tried : p.tried = done ++ [last]
  answered : ∀ r ∈ done, p.mdItem.udataStatus r ≠ .init
  waiting : ∀ r ∈ last :: rest, p.mdItem.udataStatus r = .init
  buckets : p.numDnUdReq = p.dnReqs.length
  locs : (p.dnReqs.map DnUdReq.dnLocIdx).Nodup
  read : ∀ d ∈ p.dnReqs, d.dnLocIdx ∈ p.tried

theorem step_same (h : Reading n p) (he : readFailMachine.enabled p e) :
    SameReq (p.noted e) (readFailMachine.step p e) ∧
      ((readFailMachine.step p e).tried = p.tried ∨
        ∃ i, getNextDnIndex (p.noted e).mdItem e.req.dnLocIdx = some i ∧
          (readFailMachine.step p e).tried = p.tried ++ [i]) := by
  have hstep : readFailMachine.step p e = ((p.noted e).submitDnUdReadReq e.req.dnLocIdx).1 :=
    handleDnAckRead_eq h.trueMD he.2.1 h.noData
  rw [hstep]
  rcases submitDnUdReadReq_cases (p.noted e) e.req.dnLocIdx with hfail | ⟨i, hi, -, hsame, htr⟩
  · rw [hfail]
    exact ⟨⟨rfl, rfl, rfl, rfl, rfl⟩, .inl rfl⟩
  · exact ⟨hsame, .inr ⟨i, hi, htr⟩⟩

theorem Reading.step (h : Reading n p) (he : readFailMachine.enabled p e) :
    Reading n (readFailMachine.step p e) := by
  obtain ⟨hsame, -⟩ := step_same h he
  refine ⟨hsame.trueMD.trans h.trueMD, ?_, ?_⟩
  · rw [hsame.mdItem]
    exact h.numDnLoc
  · rw [hsame.mdItem]
    exact updateDnUDataStat_noData he.2.1 h.noData

/-- No result commits: the all-answered part of the property holds when there is nothing to commit. -/
theorem failsOver_iff (h : Reading n p) (he : readFailMachine.enabled p e) :
    FailsOver p e ↔
      (p.Untried → ∃ r < p.mdItem.numDnLoc, r ∉ p.tried ∧ (∀ d ∈ p.dnReqs, d.dnLocIdx ≠ r) ∧
        (readFailMachine.step p e).tried = p.tried ++ [r]) ∧
      ¬ (p.mdItem.updateDnUDataStat e.req.dnLocIdx e.result).Exhausted := by
  obtain ⟨hsame, -⟩ := step_same h he
  have hcalls : (readFailMachine.step p e).calls = p.calls := hsame.calls
  have hmd : (readFailMachine.step p e).mdItem = p.mdItem.updateDnUDataStat e.req.dnLocIdx e.result := hsame.mdItem
  rw [← hmd]
  constructor
  · intro hf
    refine ⟨hf.next, fun hex => ?_⟩
    have hc := (hf.commit hex).2
    rw [hcalls] at hc
    exact absurd (congrArg List.length hc) (by simp)
  · rintro ⟨hnext, hleft⟩
    exact ⟨hnext, fun hex => absurd hex hleft⟩

section Scan
variable {done rest : List Nat} {last : Nat}

theorem updateDnUDataStat_status (md : MdItem) (loc : Nat) (st : UDataState) (r : Nat) :
    (md.updateDnUDataStat loc st).udataStatus r = if r = loc then st else md.udataStatus r := by
  change Function.update md.udataStatus loc st r = _
  rw [Function.update_apply]

theorem failure_ne_init {st : UDataState} (h : st.isReadFailure = true) : st ≠ .init := by
  rintro rfl
  cases h

theorem getNextDnIndex_of_split {md : MdItem} (pre post as bs : List Nat) {x r : Nat} (hs : first ≤ md.numDnLoc)
    (horder : cyclicFrom md.numDnLoc first = pre ++ x :: post) (hscan : x :: post ++ pre = as ++ r :: bs)
    (has : ∀ y ∈ as, md.udataStatus y ≠ .init) (hr : md.udataStatus r = .init) : getNextDnIndex md x = some r := by
  rw [getNextDnIndex, CyclicScan.cyclicFrom_of_split hs horder, hscan, List.find?_eq_some_iff_append]
  exact ⟨by simpa using hr, as, bs, rfl, by simpa using has⟩

theorem Scanned.next_last {r : Nat} (h : Scanned n first done last (r :: rest) p) (hs : first ≤ n)
    (hn : p.mdItem.numDnLoc = n) (hfail : e.result.isReadFailure = true) (hloc : e.req.dnLocIdx = last) :
    getNextDnIndex (p.noted e).mdItem last = some r := by
  have hnodup := CyclicScan.nodup_cyclicFrom hs
  rw [h.order, nodup_append, nodup_cons] at hnodup
  have hne : r ≠ last := fun he => hnodup.2.1.1 (he ▸ mem_cons_self)
  subst hn
  change getNextDnIndex (p.mdItem.updateDnUDataStat e.req.dnLocIdx e.result) last = some r
  rw [hloc]
  refine getNextDnIndex_of_split done (r :: rest) [last] (rest ++ done) hs h.order rfl ?_ ?_
  · intro y hy
    obtain rfl := mem_singleton.mp hy
    rw [updateDnUDataStat_status, if_pos rfl]
    exact failure_ne_init hfail
  · rw [updateDnUDataStat_status, if_neg hne]
    exact h.waiting r (mem_cons_of_mem _ mem_cons_self)

theorem Scanned.next_done (h : Scanned n first done last rest p) (hs : first ≤ n) (hn : p.mdItem.numDnLoc = n)
    (hfail : e.result.isReadFailure = true) (hdone : e.req.dnLocIdx ∈ done) :
    getNextDnIndex (p.noted e).mdItem e.req.dnLocIdx = some last := by
  have hnodup := CyclicScan.nodup_cyclicFrom hs
  obtain ⟨d₁, d₂, hd⟩ := append_of_mem hdone
  have hne : last ≠ e.req.dnLocIdx := by
    rw [h.order, nodup_append] at hnodup
    exact fun he => hnodup.2.2 _ hdone _ mem_cons_self he.symm
  subst hn
  change getNextDnIndex (p.mdItem.updateDnUDataStat e.req.dnLocIdx e.result) e.req.dnLocIdx = some last
  refine getNextDnIndex_of_split d₁ (d₂ ++ last :: rest) (e.req.dnLocIdx :: d₂) (rest ++ d₁) hs ?_ (by simp) ?_ ?_
  · rw [MdItem.updateDnUDataStat, h.order, hd]
    simp
  · intro y hy
    rw [updateDnUDataStat_status]
    split_ifs with hyx
    · exact failure_ne_init hfail
    · have hy' := (mem_cons.mp hy).resolve_left hyx
      exact h.answered y (hd ▸ mem_append_right _ (mem_cons_of_mem _ hy'))
  · rw [updateDnUDataStat_status, if_neg hne]
    exact h.waiting last mem_cons_self

theorem Scanned.fresh {r : Nat} (h : Scanned n first done last (r :: rest) p) (hs : first ≤ n) :
    r < n ∧ r ∉ p.tried := by
  have hnodup := CyclicScan.nodup_cyclicFrom hs
  have hmem : r ∈ cyclicFrom n first := by
    rw [h.order]
    simp
  rw [h.order, append_cons, nodup_append] at hnodup
  rw [h.tried]
  exact ⟨(CyclicScan.mem_cyclicFrom hs).mp hmem, fun hin => hnodup.2.2 r hin r mem_cons_self rfl⟩

theorem Scanned.rest_ne (h : Scanned n first done last rest p) (hs : first ≤ n) (hn : p.mdItem.numDnLoc = n)
    (hun : p.Untried) : rest ≠ [] := by
  rintro rfl
  obtain ⟨x, hx, hnot⟩ := hun
  rw [hn, ← CyclicScan.mem_cyclicFrom hs, h.order, ← h.tried] at hx
  exact hnot hx

theorem Scanned.dnReqs_lt (h : Scanned n first done last rest p) (hs : first ≤ n) (hrest : rest ≠ []) :
    p.dnReqs.length < n := by
  have hle : (p.dnReqs.map DnUdReq.dnLocIdx).length ≤ p.tried.length := by
    refine (h.locs.subperm fun r hr => ?_).length_le
    obtain ⟨d, hd, rfl⟩ := mem_map.mp hr
    exact h.read d hd
  have hlen : (cyclicFrom n first).length = n := by
    rw [CyclicScan.cyclicFrom_eq_rotate hs, length_rotate, length_range]
  have hpos := length_pos_iff.mpr hrest
  rw [h.order, length_append, length_cons] at hlen
  rw [length_map, h.tried, length_append, length_singleton] at hle
  omega

theorem noted_dnReqs (hbuckets : p.numDnUdReq = p.dnReqs.length) (hreq : e.req ∈ p.dnReqs) :
    (p.noted e).numDnUdReq = (p.noted e).dnReqs.length ∧ (p.noted e).dnReqs.Sublist p.dnReqs := by
  have hlen := length_erase_of_mem hreq
  have hpos := length_pos_of_mem hreq
  simp only [noted]
  split_ifs
  · exact ⟨hbuckets, List.Sublist.refl _⟩
  · exact ⟨by omega, erase_sublist⟩

theorem Scanned.step {r : Nat} (h : Scanned n first done last (r :: rest) p) (hread : Reading n p) (hs : first ≤ n)
    (hmax : n ≤ maxNumReplica) (he : readFailMachine.enabled p e) (hloc : e.req.dnLocIdx = last) :
    Scanned n first (done ++ [last]) r rest (readFailMachine.step p e) := by
  have hnodup := CyclicScan.nodup_cyclicFrom hs
  rw [h.order, nodup_append, nodup_cons] at hnodup
  have hnext := h.next_last hs hread.numDnLoc he.2.1 hloc
  obtain ⟨hbuckets, hsub⟩ := noted_dnReqs h.buckets he.1
  have hlt := Nat.lt_of_le_of_lt hsub.length_le (h.dnReqs_lt hs (cons_ne_nil r rest))
  obtain ⟨hrn, hfresh⟩ := h.fresh hs
  have hnum : (p.noted e).mdItem.numDnLoc = n := hread.numDnLoc
  have hstep : readFailMachine.step p e = _ :=
    (handleDnAckRead_eq hread.trueMD he.2.1 hread.noData).trans (congrArg Prod.fst
      (submitDnUdReadReq_some (hloc ▸ hnext) (hnum.symm ▸ hrn) _ hbuckets (hnum.symm ▸ hlt)
        (Nat.lt_of_lt_of_le hlt hmax)))
  rw [hstep]
  refine ⟨?_, ?_, ?_, ?_, ?_, ?_, ?_⟩
  · simpa using h.order
  · exact congrArg (· ++ [r]) h.tried
  · intro x hx
    change (p.mdItem.updateDnUDataStat e.req.dnLocIdx e.result).udataStatus x ≠ .init
    rw [updateDnUDataStat_status, hloc]
    split_ifs with hxl
    · exact failure_ne_init he.2.1
    · exact h.answered x ((mem_append.mp hx).resolve_right fun hl => hxl (mem_singleton.mp hl))
  · intro x hx
    change (p.mdItem.updateDnUDataStat e.req.dnLocIdx e.result).udataStatus x = .init
    have hne : x ≠ last := fun hxl => hnodup.2.1.1 (hxl ▸ hx)
    rw [updateDnUDataStat_status, hloc, if_neg hne]
    exact h.waiting x (mem_cons_of_mem _ hx)
  · simp only [submitDnUDataReadRequest, length_append, length_singleton, hbuckets]
    rfl
  · simp only [submitDnUDataReadRequest, map_append, map_cons, map_nil]
    rw [nodup_append]
    refine ⟨(hsub.map _).nodup h.locs, by simp, fun x hx y hy hxy => ?_⟩
    obtain ⟨d, hd, rfl⟩ := mem_map.mp hx
    obtain rfl := mem_singleton.mp hy
    exact hfresh (hxy ▸ h.read d (hsub.subset hd))
  · intro d hd
    change d.dnLocIdx ∈ p.tried ++ [r]
    rcases mem_append.mp hd with hd | hd
    · exact mem_append_left _ (h.read d (hsub.subset hd))
    · rw [mem_singleton.mp hd]
      exact mem_append_right _ mem_cons_self

end Scan

structure Inv (n first : Nat) (p : PayloadReq) : Prop where
  reading : Reading n p
  scanned : p.Untried → ∃ done last rest, Scanned n first done last rest p

theorem untried_step (h : Reading n p) (he : readFailMachine.enabled p e)
    (hun : (readFailMachine.step p e).Untried) : p.Untried := by
  obtain ⟨r, hr, hnot⟩ := hun
  obtain ⟨hsame, htried⟩ := step_same h he
  rw [hsame.mdItem] at hr
  refine ⟨r, hr, fun hin => hnot ?_⟩
  rcases htried with htried | ⟨i, -, htried⟩
  · rwa [htried]
  · rw [htried]
    exact mem_append_left _ hin

theorem next_iff {done rest : List Nat} {last : Nat} (h : Scanned n first done last rest p) (hread : Reading n p)
    (hs : first ≤ n) (hmax : n ≤ maxNumReplica) (he : readFailMachine.enabled p e) (hun : p.Untried) :
    (∃ r < p.mdItem.numDnLoc, r ∉ p.tried ∧ (∀ d ∈ p.dnReqs, d.dnLocIdx ≠ r) ∧
      (readFailMachine.step p e).tried = p.tried ++ [r]) ↔ e.req.dnLocIdx = last := by
  constructor
  · rintro ⟨r, -, hnot, -, htried⟩
    have hmem := h.read e.req he.1
    rw [h.tried] at hmem
    rcases mem_append.mp hmem with hdone | hlast
    · rcases (step_same hread he).2 with hkeep | ⟨i, hi, hadd⟩
      · rw [hkeep] at htried
        exact absurd (congrArg List.length htried) (by simp)
      · rw [h.next_done hs hread.numDnLoc he.2.1 hdone] at hi
        rw [hadd] at htried
        have hil : i = last := (Option.some.inj hi).symm
        have hir : i = r := by simpa using htried
        refine absurd ?_ hnot
        rw [← hir, hil, h.tried]
        exact mem_append_right _ mem_cons_self
    · exact mem_singleton.mp hlast
  · intro hloc
    obtain ⟨r, rest', rfl⟩ := exists_cons_of_ne_nil (h.rest_ne hs hread.numDnLoc hun)
    obtain ⟨hrn, hfresh⟩ := h.fresh hs
    refine ⟨r, hread.numDnLoc ▸ hrn, hfresh, fun d hd heq => hfresh (heq ▸ h.read d hd), ?_⟩
    rw [(h.step hread hs hmax he hloc).tried, h.tried]

theorem failsOver_iff_lastAnswers (h : Inv n first p) (hs : first ≤ n) (hmax : n ≤ maxNumReplica)
    (he : readFailMachine.enabled p e) : FailsOver p e ↔ LastAnswers p e := by
  rw [failsOver_iff h.reading he]
  have hlast (hun : p.Untried) : (∃ r < p.mdItem.numDnLoc, r ∉ p.tried ∧ (∀ d ∈ p.dnReqs, d.dnLocIdx ≠ r) ∧
      (readFailMachine.step p e).tried = p.tried ++ [r]) ↔ p.tried.getLast? = some e.req.dnLocIdx := by
    obtain ⟨done, last, rest, hscan⟩ := h.scanned hun
    rw [next_iff hscan h.reading hs hmax he hun, hscan.tried, List.getLast?_concat, Option.some.injEq]
    exact eq_comm
  constructor
  · rintro ⟨hnext, hleft⟩
    exact ⟨fun hun => (hlast hun).mp (hnext hun), hleft⟩
  · rintro ⟨hnext, hleft⟩
    exact ⟨fun hun => (hlast hun).mpr (hnext hun), hleft⟩

theorem Inv.step (h : Inv n first p) (hs : first ≤ n) (hmax : n ≤ maxNumReplica) (he : readFailMachine.enabled p e)
    (hlast : LastAnswers p e) : Inv n first (readFailMachine.step p e) := by
  refine ⟨h.reading.step he, fun hun => ?_⟩
  have hun' := untried_step h.reading he hun
  obtain ⟨done, last, rest, hscan⟩ := h.scanned hun'
  obtain ⟨r, rest', rfl⟩ := exists_cons_of_ne_nil (hscan.rest_ne hs h.reading.numDnLoc hun')
  have hloc := hlast.last hun'
  rw [hscan.tried, List.getLast?_concat, Option.some.injEq] at hloc
  exact ⟨_, _, _, hscan.step h.reading hs hmax he hloc.symm⟩

theorem Inv.submitReadPlReq (hfirst : first < n) (numHbids : Nat) :
    Inv n first (submitReadPlReq n first numHbids true) := by
  obtain ⟨rest, horder⟩ := CyclicScan.cyclicFrom_cons hfirst
  have hnext : getNextDnIndex (MdItem.init n) first = some first := by
    change (cyclicFrom n first).find? _ = some first
    rw [horder]
    rfl
  have hsubmit : PayloadReq.submitReadPlReq n first numHbids true = _ := congrArg Prod.fst
    (submitDnUdReadReq_some hnext hfirst 0 rfl (Nat.zero_lt_of_lt hfirst) (by decide))
  rw [hsubmit]
  refine ⟨⟨rfl, rfl, fun r => by simp [submitDnUDataReadRequest, MdItem.init]⟩, fun _ => ⟨[], first, rest, ?_⟩⟩
  exact ⟨horder, rfl, fun r hr => absurd hr not_mem_nil, fun _ _ => rfl, rfl,
    by simp [submitDnUDataReadRequest],
    fun d hd => by simp_all [submitDnUDataReadRequest]⟩

/-- Every result of a run makes the read fail over, and commit once all replicas have
answered, exactly when the results meet the condition. -/
theorem read_failover_iff (hfirst : first < n) (hmax : n ≤ maxNumReplica) (numHbids : Nat) (es : List ReadResult) :
    (readFailMachine.restrict FailsOver).Legal (submitReadPlReq n first numHbids true) es ↔
      (readFailMachine.restrict LastAnswers).Legal (submitReadPlReq n first numHbids true) es :=
  GuardedMachine.restrict_legal_congr (I := Inv n first) (.submitReadPlReq hfirst numHbids)
    (fun _ _ h he => failsOver_iff_lastAnswers h (Nat.le_of_lt hfirst) hmax he)
    fun _ _ h he hlast => h.step (Nat.le_of_lt hfirst) hmax he hlast

/-- Replica 1 is not available, then replica 2 has a disk failure. -/
theorem read_failover_three_replicas :
    (readFailMachine.restrict FailsOver).Legal (submitReadPlReq 3 1 8 true)
      [⟨⟨1, 0, 1⟩, .readNa⟩, ⟨⟨2, 1, 2⟩, .diskFailure⟩] :=
  (read_failover_iff (by decide) (by decide) 8 _).mpr
    ⟨⟨by decide, ⟨by decide, by decide⟩⟩, ⟨by decide, ⟨by decide, by decide⟩⟩, trivial⟩

/-- Replica 0 is not available and then fails while replica 1 is read: replica 1 is read again, replica 2 is
not. The only replica fails: the request does not commit. -/
theorem read_not_failed_over :
    (let es := [⟨⟨1, 0, 0⟩, .readNa⟩, ⟨⟨1, 0, 0⟩, .diskFailure⟩]
     readFailMachine.Legal (submitReadPlReq 3 0 8 true) es ∧
       (readFailMachine.exec (submitReadPlReq 3 0 8 true) es).tried = [0, 1, 1]) ∧
    (let es := [⟨⟨1, 0, 0⟩, .diskFailure⟩]
     let t := readFailMachine.exec (submitReadPlReq 1 0 8 true) es
     readFailMachine.Legal (submitReadPlReq 1 0 8 true) es ∧ t.mdItem.Exhausted ∧ t.stat = .waitIoDone ∧
       t.calls = []) := by
  decide

end PayloadReq
end DiscoClient
