import DiscoClient.IoManager.TrueMetadataStep

namespace DiscoClient.TrueRead
open List
variable {lbLen : Nat} {s : TrueRead} {lb : Nat} {lens : List Nat}

/-- No item reports a mismatch after another, and the last leaf request ends after the
payload requests of all other items and after ioSReq_queryTrueMD. -/
def LeafLast (s : TrueRead) : TrueReadEvent → Prop
  | .mismatch _ => s.seg.stat = .rUD → s.trueProc = false
  | .leafEnd lb _ => s.leafPool = [lb] → s.seg.stat = .rUD ∧ ∀ it ∈ s.items, it.status ≠ .outstanding
  | _ => True

instance (s : TrueRead) : ∀ e, Decidable (LeafLast s e)
  | .mismatch _ => inferInstanceAs (Decidable (_ → _))
  | .leafEnd _ _ => inferInstanceAs (Decidable (_ → _ ∧ _))
  | .itemEnd _ _ _ => isTrue trivial
  | .aTrueMDDone => isTrue trivial

theorem leafEnd_eq (hproc : s.trueProc = true) (hbit : s.userLbState lb = true) (r : Bool) :
    s.leafEnd lb r =
      let seg := { s.seg.readEnded r 0 with
        ciUserRemain := s.seg.ciUserRemain - 1
        ciMdsRemain := s.seg.ciMdsRemain - 1 }
      { s with
        leafPool := s.leafPool.erase lb
        leafDone := Function.update s.leafDone lb true
        userLbState := Function.update s.userLbState lb false
        seg := if (List.range (8 * numBytesMaxLb)).all fun i => !Function.update s.userLbState lb false i
          then seg.readAllDone else seg } := by
  simp only [leafEnd, readPLEndfn, chkCiUser, hproc, chkCiUserTrueMD, testClearLoop, hbit, Bool.true_eq_false,
    if_true, if_false, Bool.true_and, Nat.zero_add, SegReq.readEnded]
  split_ifs <;> rfl

theorem Inv.leafEnd (h : Inv lbLen s) (hlb : lb ∈ s.leafPool) {bits : Nat → Bool} {g : SegReq}
    (hg : g.lbLen = s.seg.lbLen) :
    Inv lbLen { s with
      leafPool := s.leafPool.erase lb
      leafDone := Function.update s.leafDone lb true
      userLbState := bits
      seg := g } := by
  refine ⟨hg.trans h.len, h.tiles, h.noData, h.pool.erase lb, ?_, h.created, h.submitted, ?_⟩
  · intro l hl
    exact h.pool_mismatched l (mem_of_mem_erase hl)
  · intro l
    change Function.update s.leafDone lb true l = (s.mismatched l && decide (l ∉ s.leafPool.erase lb))
    by_cases hl : l = lb
    · subst hl
      simp [h.pool.mem_erase_iff, h.pool_mismatched l hlb]
    · simp [h.pool.mem_erase_iff, hl, h.leafDone]

theorem Inv.mismatched_lt (h : Inv lbLen s) (hlb : s.mismatched lb = true) : lb < lbLen := by
  obtain ⟨it, hit, hp⟩ := any_eq_true.mp hlb
  rw [Bool.and_eq_true, has_iff] at hp
  have hle := (h.tiles.bounds hit).2.2
  omega

theorem Leaves.leafEnd (hl : s.Leaves) (h : Inv lbLen s) (hmax : lbLen ≤ maxLbsPerIor)
    (hlb : lb ∈ s.leafPool) {r : Bool} (hlast : LeafLast s (.leafEnd lb r)) :
    Inv lbLen (s.leafEnd lb r) ∧ (s.leafEnd lb r).Phase := by
  have hbits (l : Nat) : Function.update s.userLbState lb false l = decide (l ∈ s.leafPool.erase lb) := by
    by_cases hne : l = lb
    · simp [hne, h.pool.mem_erase_iff]
    · simp [hne, h.pool.mem_erase_iff, hl.bits]
  rw [leafEnd_eq hl.proc (by rw [hl.bits]; exact decide_eq_true hlb)]
  by_cases hnil : s.leafPool.erase lb = []
  · have hpool : s.leafPool = [lb] := by
      have hperm := perm_cons_erase hlb
      rwa [hnil, perm_singleton] at hperm
    obtain ⟨hstat, hended⟩ := hlast hpool
    have hclear : ((List.range (8 * numBytesMaxLb)).all
        fun i => !Function.update s.userLbState lb false i) = true := by
      simp [hbits, hnil]
    rw [hclear]
    obtain ⟨hstat', hcommits⟩ := readAllDone_committed (g := { s.seg.readEnded r 0 with
      ciUserRemain := s.seg.ciUserRemain - 1
      ciMdsRemain := s.seg.ciMdsRemain - 1 }) hstat hl.ciUser hl.calls
    exact ⟨h.leafEnd hlb (readAllDone_lbLen _), .committed ⟨hstat', hnil, hended, hcommits⟩⟩
  · obtain ⟨i, hi⟩ := exists_mem_of_ne_nil _ hnil
    have hset : ((List.range (8 * numBytesMaxLb)).all
        fun i => !Function.update s.userLbState lb false i) = false := by
      rw [all_eq_false]
      have hlt := h.mismatched_lt (h.pool_mismatched i (mem_of_mem_erase hi))
      have hbytes : maxLbsPerIor ≤ 8 * numBytesMaxLb := by decide
      exact ⟨i, mem_range.mpr (by omega), by simp [hbits, hi]⟩
    rw [hset]
    exact ⟨h.leafEnd hlb rfl, .leaves ⟨hl.proc, hl.stat, hnil, hbits, hl.ciUser, hl.calls⟩⟩

theorem step_phase (h : Inv lbLen s) (hp : s.Phase) (hmax : lbLen ≤ maxLbsPerIor) {e : TrueReadEvent}
    (he : trueReadMachine.enabled s e) (hlast : LeafLast s e) :
    Inv lbLen (trueReadMachine.step s e) ∧ (trueReadMachine.step s e).Phase := by
  cases e with
  | itemEnd k r f =>
    obtain ⟨it, hk, ho⟩ := he
    cases hp with
    | counting hc => exact hc.itemEnd h hk ho r f
    | leaves hl => exact hl.itemEnd h hk ho r f
    | committed hc => exact absurd ho (hc.ended it (mem_of_getElem? hk))
  | mismatch k =>
    obtain ⟨it, hk, ho⟩ := he
    cases hp with
    | counting hc => exact hc.mismatch h hk ho
    | leaves hl =>
      rcases hl.stat with hstat | hstat
      · have hproc := hlast hstat
        rw [hl.proc] at hproc
        cases hproc
      · change Inv lbLen (s.queryTrueMD k) ∧ (s.queryTrueMD k).Phase
        rw [Leaves.mismatch hstat k]
        exact ⟨h, .leaves hl⟩
    | committed hc => exact absurd ho (hc.ended it (mem_of_getElem? hk))
  | aTrueMDDone =>
    have hstat : s.seg.stat = .aTrueMDProc := he
    cases hp with
    | counting hc => exact nomatch hstat.symm.trans hc.stat
    | leaves hl =>
      have hdone : (ioSegReqUpdateState s.seg.stat .aTrueMDDone).1 = .rUD := by rw [hstat]; rfl
      exact ⟨⟨h.len, h.tiles, h.noData, h.pool, h.pool_mismatched, h.created, h.submitted, h.leafDone⟩,
        .leaves ⟨hl.proc, .inl hdone, hl.waiting, hl.bits, hl.ciUser, hl.calls⟩⟩
    | committed hc => exact nomatch hstat.symm.trans hc.stat
  | leafEnd lb r =>
    have hlb : lb ∈ s.leafPool := he
    cases hp with
    | counting hc => exact absurd (h.pool_nil hc.none ▸ hlb) not_mem_nil
    | leaves hl => exact hl.leafEnd h hmax hlb hlast
    | committed hc => exact absurd (hc.pool ▸ hlb) not_mem_nil

theorem tiles_of_lens (hpos : ∀ n ∈ lens, 0 < n) (acc : Nat) :
    Tiles TrueItem.start TrueItem.len acc
      (lens.mapIdx fun k len => ⟨acc + (lens.take k).sum, len, false, .outstanding⟩) (acc + lens.sum) := by
  induction lens generalizing acc with
  | nil => rfl
  | cons a lens ih =>
    rw [mapIdx_cons]
    refine ⟨rfl, hpos a mem_cons_self, ?_⟩
    have hrest := ih (fun n hn => hpos n (mem_cons_of_mem _ hn)) (acc + a)
    simpa only [take_succ_cons, sum_cons, Nat.add_assoc] using hrest

theorem init_outstanding {it : TrueItem} (hit : it ∈ (init lens).items) :
    it.status = .outstanding ∧ it.ciUser = false := by
  obtain ⟨k, hk, rfl⟩ := mem_mapIdx.mp hit
  exact ⟨rfl, rfl⟩

theorem init_mismatched (lens : List Nat) (lb : Nat) : (init lens).mismatched lb = false := by
  rw [mismatched, any_eq_false]
  intro it hit
  simp [(init_outstanding hit).1]

theorem init_inv (hpos : ∀ n ∈ lens, 0 < n) : Inv lens.sum (init lens) := by
  refine ⟨rfl, ?_, fun it hit _ => (init_outstanding hit).2, nodup_nil,
    fun lb hlb => absurd hlb not_mem_nil,
    ?_, fun lb => rfl, ?_⟩
  · have htiles := tiles_of_lens hpos 0
    simp only [Nat.zero_add] at htiles
    exact htiles
  · intro lb
    rw [init_mismatched]
    rfl
  · intro lb
    rw [init_mismatched]
    rfl

theorem init_phase (hne : lens ≠ []) (hpos : ∀ n ∈ lens, 0 < n) : (init lens).Phase := by
  have hpend : (init lens).pendingLbs = lens.sum := by
    have hmap : (init lens).items.map (fun it => if it.status = .outstanding then it.len else 0) =
        (init lens).items.map TrueItem.len :=
      map_congr_left fun it hit => if_pos (init_outstanding hit).1
    have hsum := (init_inv hpos).tiles.sum_len
    rw [pendingLbs, hmap]
    omega
  have hsum : lens.sum ≠ 0 := fun h0 => hne ((Countdown.sum_eq_zero_iff hpos).mp h0)
  refine .counting ⟨rfl, rfl, init_mismatched lens, ?_, hpend ▸ hsum, fun _ => rfl, rfl, rfl⟩
  rw [hpend]
  rfl

theorem delivered_of_has (h : Inv lbLen s) {k lb : Nat} {it : TrueItem} (hk : s.items[k]? = some it)
    (hhas : it.has lb = true) (hne : it.status ≠ .ended) : s.delivered lb = s.leafDone lb := by
  rw [delivered, any_of_has h.tiles hk hhas, decide_eq_false hne, Bool.or_false]

theorem exists_outstanding (hpend : s.pendingLbs ≠ 0) : ∃ (k : Nat) (it : TrueItem),
    s.items[k]? = some it ∧ it.status = .outstanding := by
  by_contra hnone
  refine hpend (sum_eq_zero fun n hn => ?_)
  obtain ⟨it, hit, rfl⟩ := mem_map.mp hn
  obtain ⟨k, hk⟩ := mem_iff_getElem?.mp hit
  exact if_neg fun ho => hnone ⟨k, it, hk, ho⟩

theorem commits_eq (h : Inv lbLen s) (hp : s.Phase) :
    s.seg.commits = if ∀ lb < lbLen, s.delivered lb = true then [lbLen] else [] := by
  cases hp with
  | counting hc =>
    obtain ⟨k, it, hk, ho⟩ := exists_outstanding hc.pending
    have hb := h.tiles.bounds (mem_of_getElem? hk)
    rw [if_neg]
    · simp [SegReq.commits, hc.calls]
    · intro hall
      have hdel := hall it.start (by omega)
      rw [delivered_of_has h hk (has_iff.mpr ⟨Nat.le_refl _, by omega⟩) (by simp [ho]), h.leafDone, hc.none] at hdel
      cases hdel
  | leaves hl =>
    obtain ⟨lb, hlb⟩ := exists_mem_of_ne_nil _ hl.waiting
    have hmis := h.pool_mismatched lb hlb
    obtain ⟨it, hit, hq⟩ := any_eq_true.mp hmis
    rw [Bool.and_eq_true, decide_eq_true_eq] at hq
    obtain ⟨k, hk⟩ := mem_iff_getElem?.mp hit
    rw [if_neg]
    · simp [SegReq.commits, hl.calls]
    · intro hall
      have hdel := hall lb (h.mismatched_lt hmis)
      rw [delivered_of_has h hk hq.1 (by simp [hq.2]), h.leafDone] at hdel
      simp [hlb] at hdel
  | committed hc =>
    rw [if_pos, hc.commits, h.len]
    intro lb hlt
    obtain ⟨it, hit, hb⟩ := h.tiles.cover (Nat.zero_le lb) hlt
    obtain ⟨k, hk⟩ := mem_iff_getElem?.mp hit
    rw [delivered, any_of_has h.tiles hk (has_iff.mpr hb), h.leafDone, mismatched,
      any_of_has h.tiles hk (has_iff.mpr hb), hc.pool]
    cases hs : it.status with
    | outstanding => exact absurd hs (hc.ended it hit)
    | ended => simp
    | unsync => simp

/-- In every run of a read segment where one item at most reports a mismatch and its last leaf request ends
last, each LB of that item gets one leaf request, and the segment has committed to the user, once, exactly
when all LBs are delivered. -/
theorem leaf_requests_complete_read (hne : lens ≠ []) (hpos : ∀ n ∈ lens, 0 < n)
    (hmax : lens.sum ≤ maxLbsPerIor) {es : List TrueReadEvent}
    (hlegal : (trueReadMachine.restrict LeafLast).Legal (init lens) es) :
    let s := trueReadMachine.exec (init lens) es
    (∀ lb, s.created lb = (if s.mismatched lb then 1 else 0) ∧ s.submitted lb = s.created lb) ∧
      s.seg.commits = if ∀ lb < lens.sum, s.delivered lb = true then [lens.sum] else [] := by
  have hinv := GuardedMachine.exec_invariant (m := trueReadMachine.restrict LeafLast)
    (I := fun s => Inv lens.sum s ∧ s.Phase) ⟨init_inv hpos, init_phase hne hpos⟩
    (fun t e ht he => step_phase ht.1 ht.2 hmax he.1 he.2) hlegal
  intro s
  change Inv lens.sum s ∧ s.Phase at hinv
  exact ⟨fun lb => ⟨hinv.1.created lb, hinv.1.submitted lb⟩, commits_eq hinv.1 hinv.2⟩

/-- The second item, of two LBs, reports a mismatch; its leaf requests end after the first item. -/
theorem leaf_requests_complete_read_second_item :
    let s := trueReadMachine.exec (init [1, 2])
      [.mismatch 1, .aTrueMDDone, .leafEnd 2 true, .itemEnd 0 true 0, .leafEnd 1 true]
    s.created 2 = 1 ∧ s.submitted 2 = 1 ∧ s.seg.commits = [3] := by
  have h := @leaf_requests_complete_read [1, 2] (by decide) (by decide) (by decide)
    [.mismatch 1, .aTrueMDDone, .leafEnd 2 true, .itemEnd 0 true 0, .leafEnd 1 true] (by decide)
  exact ⟨(h.1 2).1.trans (by decide), ((h.1 2).2.trans (h.1 2).1).trans (by decide), h.2.trans (by decide)⟩

/-- With two mismatches the leaf requests of the first item are submitted again; a payload request that ends
after the last leaf request comes after the commit; and a last leaf request that ends before the transition
back leaves no commit. -/
theorem leaf_requests_fail :
    (let es := [.mismatch 0, .aTrueMDDone, .mismatch 1]
     trueReadMachine.Legal (init [1, 1]) es ∧ (trueReadMachine.exec (init [1, 1]) es).submitted 0 = 2) ∧
    (let es := [.mismatch 0, .aTrueMDDone, .leafEnd 0 true]
     let s := trueReadMachine.exec (init [1, 1]) es
     trueReadMachine.Legal (init [1, 1]) es ∧ s.seg.commits = [2] ∧ s.delivered 1 = false) ∧
    (let es := [.mismatch 0, .leafEnd 0 true, .aTrueMDDone]
     let s := trueReadMachine.exec (init [1]) es
     trueReadMachine.Legal (init [1]) es ∧ s.delivered 0 = true ∧ s.seg.commits = []) := by
  decide

end DiscoClient.TrueRead
