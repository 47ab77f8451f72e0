import DiscoClient.IoManager.TrueMetadataInvariant
import DiscoClient.Lib.Countdown

namespace DiscoClient.TrueRead
open List
variable {lbLen : Nat} {s : TrueRead} {k : Nat} {it : TrueItem}

theorem readPLEndfn_counting (h : s.trueProc = false) (lbS len : Nat) (r : Bool) (f : Nat) :
    s.readPLEndfn lbS len r f = { s with seg := s.seg.readPLEndfn len r f } := by
  simp only [readPLEndfn, chkCiUser, h, if_true, SegReq.readPLEndfn, SegReq.readEnded]
  by_cases h0 : s.seg.ciUserRemain - len = 0
  · simp [h0]
  · simp [h0]

theorem mismatched_outstanding (h : Inv lbLen s) (hk : s.items[k]? = some it)
    (ho : it.status = .outstanding) {lb : Nat} (hhas : it.has lb = true) : s.mismatched lb = false := by
  rw [mismatched, any_of_has h.tiles hk hhas, ho]
  rfl

theorem mismatched_end (h : Inv lbLen s) (hk : s.items[k]? = some it)
    (ho : it.status = .outstanding) (it' : TrueItem) (hs : it'.start = it.start) (hl : it'.len = it.len)
    (he : it'.status = .ended) (lb : Nat) :
    ({ s with items := s.items.set k it' } : TrueRead).mismatched lb = s.mismatched lb := by
  rw [mismatched, any_set h.tiles hk hs hl]
  by_cases hhas : it.has lb = true
  · rw [if_pos hhas, mismatched_outstanding h hk ho hhas, he]
    rfl
  · rw [if_neg hhas]
    rfl

theorem Inv.itemEnd (h : Inv lbLen s) {it it' : TrueItem} (hk : s.items[k]? = some it)
    (ho : it.status = .outstanding) (hs : it'.start = it.start) (hl : it'.len = it.len)
    (he : it'.status = .ended) : Inv lbLen { s with items := s.items.set k it' } := by
  have hmis := mismatched_end h hk ho it' hs hl he
  refine ⟨h.len, h.tiles.set hk hs hl, ?_, h.pool, ?_, ?_, h.submitted, ?_⟩
  · intro i hi hne
    rcases mem_or_eq_of_mem_set hi with hi | rfl
    · exact h.noData i hi hne
    · exact absurd he hne
  · intro lb hlb
    rw [hmis]
    exact h.pool_mismatched lb hlb
  · intro lb
    rw [hmis]
    exact h.created lb
  · intro lb
    rw [hmis]
    exact h.leafDone lb

theorem pendingLbs_end (hk : s.items[k]? = some it) (ho : it.status = .outstanding)
    (it' : TrueItem) (he : it'.status ≠ .outstanding) :
    ({ s with items := s.items.set k it' } : TrueRead).pendingLbs + it.len = s.pendingLbs := by
  have hsum := Countdown.sum_set (l := s.items.map fun it => if it.status = .outstanding then it.len else 0)
    (k := k) (a := it.len) (by simp [hk, ho]) 0
  rw [pendingLbs, pendingLbs, map_set]
  simpa [he] using hsum

theorem pendingLbs_eq_zero (hz : s.pendingLbs = 0) (h : Inv lbLen s) :
    ∀ it ∈ s.items, it.status ≠ .outstanding := by
  intro it hit ho
  obtain ⟨k, hk⟩ := mem_iff_getElem?.mp hit
  have hend := pendingLbs_end hk ho { it with status := .ended } (fun he => nomatch he)
  have hpos := (h.tiles.bounds hit).2.1
  omega

theorem readAllDone_committed {g : SegReq} (hstat : g.stat = .rUD) (hci : g.ciUser = false) (hcalls : g.calls = []) :
    g.readAllDone.stat = .ci2IoR ∧ g.readAllDone.commits = [g.readAllDone.lbLen] := by
  simp [SegReq.readAllDone, SegReq.commitUser, SegReq.callIoDone, SegReq.commits, hstat, hci, hcalls,
    ioSegReqUpdateState]

theorem readAllDone_lbLen (g : SegReq) : g.readAllDone.lbLen = g.lbLen := by
  unfold SegReq.readAllDone SegReq.commitUser SegReq.callIoDone
  dsimp only
  split_ifs <;> rfl

theorem readPLEndfn_lbLen (g : SegReq) (len : Nat) (r : Bool) (f : Nat) :
    (g.readPLEndfn len r f).lbLen = g.lbLen := by
  unfold SegReq.readPLEndfn
  dsimp only
  split_ifs
  · rfl
  · exact readAllDone_lbLen _

theorem Inv.pool_nil (h : Inv lbLen s) (hnone : ∀ lb, s.mismatched lb = false) : s.leafPool = [] := by
  refine eq_nil_iff_forall_not_mem.mpr fun lb hlb => ?_
  have hmis := h.pool_mismatched lb hlb
  rw [hnone] at hmis
  cases hmis

theorem itemEnd_eq (hk : s.items[k]? = some it) (r : Bool) (f : Nat) :
    s.itemEnd k r f = ({ s with items := s.items.set k { it with status := .ended, ciUser := r } }).readPLEndfn
      it.start it.len r f := by
  simp only [TrueRead.itemEnd, hk]

theorem Counting.itemEnd (hc : s.Counting) (h : Inv lbLen s) (hk : s.items[k]? = some it)
    (ho : it.status = .outstanding) (r : Bool) (f : Nat) :
    Inv lbLen (s.itemEnd k r f) ∧ (s.itemEnd k r f).Phase := by
  have hinv : Inv lbLen { s with items := s.items.set k { it with status := .ended, ciUser := r } } :=
    h.itemEnd hk ho rfl rfl rfl
  have hmis := mismatched_end h hk ho { it with status := .ended, ciUser := r } rfl rfl rfl
  have hpend := pendingLbs_end hk ho { it with status := .ended, ciUser := r } (fun he => nomatch he)
  have hremain := hc.remain
  rw [itemEnd_eq hk, readPLEndfn_counting (by exact hc.proc)]
  refine ⟨⟨(readPLEndfn_lbLen _ _ _ _).trans hinv.len, hinv.tiles, hinv.noData, hinv.pool,
    hinv.pool_mismatched, hinv.created, hinv.submitted, hinv.leafDone⟩, ?_⟩
  obtain ⟨items, hitems⟩ : ∃ items, items = s.items.set k { it with status := .ended, ciUser := r } := ⟨_, rfl⟩
  rw [← hitems] at hinv hmis hpend ⊢
  by_cases h0 : s.seg.ciUserRemain - it.len = 0
  · obtain ⟨hstat, hcommits⟩ := readAllDone_committed (g := { s.seg.readEnded r f with
      ciUserRemain := s.seg.ciUserRemain - it.len
      ciMdsRemain := s.seg.ciMdsRemain - it.len }) hc.stat hc.ciUser hc.calls
    have hz : ({ s with items := items } : TrueRead).pendingLbs = 0 := by omega
    have hended := pendingLbs_eq_zero hz hinv
    refine .committed ⟨?_, h.pool_nil hc.none, hended, ?_⟩
    · simpa only [SegReq.readPLEndfn, ne_eq, h0, not_true_eq_false, if_false] using hstat
    · simpa only [SegReq.readPLEndfn, ne_eq, h0, not_true_eq_false, if_false] using hcommits
  · have hseg : s.seg.readPLEndfn it.len r f = { s.seg.readEnded r f with
        ciUserRemain := s.seg.ciUserRemain - it.len
        ciMdsRemain := s.seg.ciMdsRemain - it.len } := by
      simp only [SegReq.readPLEndfn, ne_eq, h0, not_false_eq_true, if_true]
    rw [hseg]
    refine .counting ⟨hc.proc, hc.stat, fun lb => (hmis lb).trans (hc.none lb), ?_, ?_, hc.bits, hc.ciUser,
      hc.calls⟩
    · change s.seg.ciUserRemain - it.len = (({ s with items := items } : TrueRead).pendingLbs : Int)
      omega
    · change ({ s with items := items } : TrueRead).pendingLbs ≠ 0
      omega

theorem readPLEndfn_bit_clear (hproc : s.trueProc = true) {lbS len : Nat} (hlen : 0 < len)
    (hbit : s.userLbState lbS = false) (r : Bool) (f : Nat) :
    s.readPLEndfn lbS len r f = { s with
      seg := { s.seg.readEnded r f with ciMdsRemain := s.seg.ciMdsRemain - len } } := by
  obtain ⟨n, rfl⟩ := Nat.exists_eq_succ_of_ne_zero (Nat.ne_of_gt hlen)
  simp [readPLEndfn, chkCiUser, hproc, chkCiUserTrueMD, testClearLoop, hbit, SegReq.readEnded]

theorem Leaves.itemEnd (hl : s.Leaves) (h : Inv lbLen s) (hk : s.items[k]? = some it)
    (ho : it.status = .outstanding) (r : Bool) (f : Nat) :
    Inv lbLen (s.itemEnd k r f) ∧ (s.itemEnd k r f).Phase := by
  have hinv : Inv lbLen { s with items := s.items.set k { it with status := .ended, ciUser := r } } :=
    h.itemEnd hk ho rfl rfl rfl
  have hpos := (h.tiles.bounds (mem_of_getElem? hk)).2.1
  have hbit : s.userLbState it.start = false := by
    rw [hl.bits, decide_eq_false_iff_not]
    intro hin
    have hmis := h.pool_mismatched _ hin
    rw [mismatched_outstanding h hk ho (has_iff.mpr ⟨Nat.le_refl _, by omega⟩)] at hmis
    cases hmis
  rw [itemEnd_eq hk, readPLEndfn_bit_clear (by exact hl.proc) hpos (by exact hbit)]
  exact ⟨⟨hinv.len, hinv.tiles, hinv.noData, hinv.pool, hinv.pool_mismatched, hinv.created, hinv.submitted,
      hinv.leafDone⟩,
    .leaves ⟨hl.proc, hl.stat, hl.waiting, hl.bits, hl.ciUser, hl.calls⟩⟩

theorem find_has {items : List TrueItem} (h : Tiles TrueItem.start TrueItem.len 0 items lbLen) {lb : Nat}
    (hk : items[k]? = some it) (hhas : it.has lb = true) : items.find? (·.has lb) = some it := by
  cases hf : items.find? (·.has lb) with
  | none => exact absurd hhas (List.find?_eq_none.mp hf it (mem_of_getElem? hk))
  | some i =>
    obtain ⟨j, hj⟩ := mem_iff_getElem?.mp (mem_of_find?_eq_some hf)
    obtain rfl := h.unique hk hj (has_iff.mp hhas) (has_iff.mp (by simpa using List.find?_some hf))
    rw [← hk, hj]

theorem lbsNoData_item (h : Tiles TrueItem.start TrueItem.len 0 s.items lbLen)
    (hk : s.items[k]? = some it) (hdata : it.ciUser = false) :
    s.lbsNoData it.start it.len = List.range' it.start it.len := by
  refine filter_eq_self.mpr fun lb hlb => ?_
  rw [mem_range'_1] at hlb
  rw [targetLbGotData, find_has h hk (has_iff.mpr hlb)]
  simp [hdata]

theorem Counting.queryTrueMD_eq (hc : s.Counting) (h : Inv lbLen s)
    (hk : s.items[k]? = some it) (ho : it.status = .outstanding) :
    s.queryTrueMD k = { s with
      seg := { s.seg with stat := .aTrueMDProc }
      items := s.items.set k { it with status := .unsync }
      trueProc := true
      userLbState := fun lb => decide (lb ∈ List.range' it.start it.len)
      leafPool := List.range' it.start it.len
      created := fun lb => s.created lb + (List.range' it.start it.len).count lb
      submitted := fun lb => s.submitted lb + (List.range' it.start it.len).count lb } := by
  have htiles := h.tiles.set hk (b := { it with status := .unsync }) rfl rfl
  have hk' : (s.items.set k { it with status := .unsync })[k]? = some { it with status := .unsync } := by
    simp [(List.getElem?_eq_some_iff.mp hk).1]
  have hdata : it.ciUser = false := h.noData it (mem_of_getElem? hk) (by simp [ho])
  have hlen := (h.tiles.bounds (mem_of_getElem? hk)).2.1
  have hlbs (t : TrueRead) (ht : t.items = s.items.set k { it with status := .unsync }) :
      t.lbsNoData it.start it.len = List.range' it.start it.len :=
    @lbsNoData_item lbLen t k { it with status := .unsync } (ht ▸ htiles) (ht ▸ hk') hdata
  have hne : List.range' it.start it.len ≠ [] := by simpa using Nat.ne_of_gt hlen
  simp only [queryTrueMD, hk, hc.stat, ioSegReqUpdateState, if_true, queryTrueGut, setLbStat, hc.proc,
    Bool.false_eq_true, if_false, hlbs, hne, genLeafIoSReq, submitAllLeafR, h.pool_nil hc.none, hc.bits,
    Bool.false_or, nil_append]

theorem Counting.mismatch (hc : s.Counting) (h : Inv lbLen s)
    (hk : s.items[k]? = some it) (ho : it.status = .outstanding) :
    Inv lbLen (s.queryTrueMD k) ∧ (s.queryTrueMD k).Phase := by
  have hlen := (h.tiles.bounds (mem_of_getElem? hk)).2.1
  have hmem (lb : Nat) : lb ∈ List.range' it.start it.len ↔ it.has lb = true := by
    rw [mem_range'_1, has_iff]
  have hmis (lb : Nat) : ((s.items.set k { it with status := .unsync }).any fun i =>
      i.has lb && decide (i.status = .unsync)) = it.has lb := by
    have hnone := hc.none lb
    rw [mismatched] at hnone
    rw [any_set h.tiles hk (by rfl) (by rfl), hnone]
    cases it.has lb <;> rfl
  have hcreated (lb : Nat) : s.created lb = 0 := by rw [h.created, hc.none]; rfl
  have hcount (lb : Nat) : (List.range' it.start it.len).count lb = if it.has lb then 1 else 0 := by
    rw [List.Nodup.count nodup_range']
    simp only [hmem]
  rw [hc.queryTrueMD_eq h hk ho]
  refine ⟨⟨h.len, h.tiles.set hk rfl rfl, ?_, nodup_range', ?_, ?_, ?_, ?_⟩,
    .leaves ⟨rfl, .inr rfl, by simpa using Nat.ne_of_gt hlen, fun lb => rfl, hc.ciUser, hc.calls⟩⟩
  · intro i hi hne
    rcases mem_or_eq_of_mem_set hi with hi | rfl
    · exact h.noData i hi hne
    · exact h.noData it (mem_of_getElem? hk) (by simp [ho])
  · intro lb hlb
    exact (hmis lb).trans ((hmem lb).mp hlb)
  · intro lb
    simp only [mismatched, hmis, hcreated, hcount, Nat.zero_add]
  · intro lb
    exact congrArg (· + _) (h.submitted lb)
  · intro lb
    rw [h.leafDone, hc.none]
    simp only [mismatched, hmis, hmem]
    cases it.has lb <;> rfl

theorem Leaves.mismatch (h : s.seg.stat = .aTrueMDProc) (k : Nat) : s.queryTrueMD k = s := by
  unfold queryTrueMD
  rw [h]
  cases s.items[k]? with
  | none => rfl
  | some it =>
    simp only [ioSegReqUpdateState, reduceCtorEq, if_false]
    rw [← h]

end DiscoClient.TrueRead
