import DiscoClient.Space.FirstWrite

namespace DiscoClient.FwVolume
open List

section Requesting
variable {pool : SpacePool}

theorem allocRounds_requesting (mem : AllocMem) (fuel : Nat) (md : SpaceMetadata) (k lbS remain : Nat) :
    (allocRounds SpacePool.rounds mem fuel pool md k lbS remain).1.fsSizeRequesting = pool.fsSizeRequesting := by
  induction fuel generalizing pool md k lbS remain with
  | zero => rfl
  | succ fuel ih =>
    rw [allocRounds]
    split
    · rfl
    · split
      · rfl
      · dsimp only
        split_ifs
        · exact ih _ _ _ _
        · rfl
        · rfl

theorem allocIn_requesting (r : SpaceReq) (t : AllocProgress) (pool : SpacePool) (mem : AllocMem) :
    (r.allocIn t pool mem).1.fsSizeRequesting = pool.fsSizeRequesting := by
  change (r.allocFrom t pool mem).1.fsSizeRequesting = _
  rw [SpaceReq.allocFrom, SpacePool.allocUnderLock]
  split_ifs
  · change (pool.allocSpace t.arrMD r.lbS r.lbLen mem).1.fsSizeRequesting = _
    rw [SpacePool.allocSpace, allocSpaceOn]
    split_ifs
    · exact allocRounds_requesting mem _ _ _ _ _
    · rfl
  · rfl
  · rfl

theorem outside_requesting (pool : SpacePool) {e : SpacePool.Event} (h : e.Outside = true) :
    (pool.step e).fsSizeRequesting = pool.fsSizeRequesting := by
  cases e with
  | alloc lbS lbLen mem => cases h
  | requesting doInc => cases h
  | invalChunk chunkID =>
    change (pool.invalFschunk chunkID).1.fsSizeRequesting = _
    rw [SpacePool.invalFschunk]
    split
    · rfl
    · split <;> rfl
  | remove lbidS =>
    change (pool.removeAllocspace lbidS).fsSizeRequesting = _
    rw [SpacePool.removeAllocspace]
    split <;> rfl
  | _ => rfl

theorem requesting_inc {n : Nat} (h : pool.fsSizeRequesting = n) (hn : n + 1 < 2 ^ 32) :
    (pool.updateFsSizeRequesting true).fsSizeRequesting = n + 1 := by
  change toU32 (pool.fsSizeRequesting + 1) = _
  rw [h, toU32]
  omega

theorem requesting_dec {n : Nat} (h : pool.fsSizeRequesting = n + 1) (hn : n + 1 < 2 ^ 32) :
    (pool.updateFsSizeRequesting false).fsSizeRequesting = n := by
  change toU32 (pool.fsSizeRequesting - 1) = _
  rw [h, toU32]
  omega

end Requesting

def Told (waking : Prop) : FwPoint → Prop
  | .alloc _ _ t => t.ret = .ok ∨ t.ret = .wait ∧ waking ∨ t.ret = .nospace
  | .resp _ _ ret => ret = .ok ∨ ret = .wait ∧ waking ∨ ret = .nospace
  | _ => True

structure Inv (s : FwVolume) : Prop where
  stranded : NoneStranded s
  bound : s.outstanding < 2 ^ 32
  told : ∀ p ∈ s.holder, Told s.Waking p

section Step
variable {reqs : Nat → SpaceReq} {s : FwVolume}

theorem Told.mono {p : FwPoint} {a b : Prop} (hab : a → b) (h : Told a p) : Told b p := by
  cases p with
  | alloc waker seg t => exact h.imp_right (Or.imp_left (And.imp_right hab))
  | resp waker seg ret => exact h.imp_right (Or.imp_left (And.imp_right hab))
  | _ => trivial

theorem Inv.moved (h : Inv s) {s' : FwVolume} (hq : s'.fwwaitQ = s.fwwaitQ) (hholder : s'.holder = s.holder)
    (hsub : s'.submitted = s.submitted) (hgiven : s'.given = s.given) (hwaking : s.Waking → s'.Waking)
    (hreq : s'.pool.fsSizeRequesting = s'.outstanding) (hbound : s'.outstanding < 2 ^ 32) : Inv s' := by
  obtain ⟨⟨-, hwoken, honce, hnodup⟩, -, htold⟩ := h
  refine ⟨⟨hreq, ?_, ?_, ?_⟩, hbound, ?_⟩
  · rw [hq, hholder]
    exact fun hne => (hwoken hne).imp_left hwaking
  · rw [inHand, hq, hholder, hgiven, hsub]
    exact honce
  · rw [hsub]
    exact hnodup
  · rw [hholder]
    exact fun p hp => (htold p hp).mono hwaking

theorem Inv.submit (h : Inv s) (seg : FwSeg) (hfree : s.holder = none) (hnew : seg.reqID ∉ s.submitted) :
    Inv (s.step reqs (.submit seg)) := by
  obtain ⟨⟨hreq, hwoken, honce, hnodup⟩, hbound, -⟩ := h
  simp only [inHand, outstanding, hfree] at hreq honce hbound hwoken
  refine ⟨⟨?_, ?_, ?_, nodup_cons.mpr ⟨hnew, hnodup⟩⟩, ?_, ?_⟩
  · simpa [outstanding, startAlloc, step] using hreq
  · intro hne
    exact Or.inl ((hwoken hne).resolve_right (by simp))
  · change (s.fwwaitQ.map (·.reqID) ++ [seg.reqID] ++ s.given).Perm (seg.reqID :: s.submitted)
    rw [append_assoc]
    refine perm_middle.trans (List.Perm.cons _ ?_)
    simpa using honce
  · simpa [outstanding, startAlloc, step] using hbound
  · intro p hp
    obtain rfl : startAlloc false seg = p := by simpa [step] using hp
    exact Or.inl rfl

theorem allocIn_ret (r : SpaceReq) (t : AllocProgress) (pool : SpacePool) (mem : AllocMem) :
    (r.allocIn t pool mem).2.1.ret =
      if pool.fsSizeRemaining < r.lbLen then if pool.fsSizeRequesting ≠ 0 then .wait else .nospace else t.ret := by
  change (r.allocFrom t pool mem).2.ret = _
  rw [SpaceReq.allocFrom, SpacePool.allocUnderLock]
  by_cases hlt : pool.fsSizeRemaining < r.lbLen
  · rw [if_pos hlt, if_neg (Nat.not_le.mpr hlt)]
    split_ifs <;> rfl
  · rw [if_neg hlt, if_pos (Nat.le_of_not_lt hlt)]

section

variable (h : Inv s)
include h

theorem Inv.replaced {p p' : FwPoint} {pool : SpacePool} (hholder : s.holder = some p)
    (htask : p ≠ .task) (htask' : p' ≠ .task) (htends : p'.tends = p.tends) (hhand : p'.inHand = p.inHand)
    (htold : Told s.Waking p') (hreq : pool.fsSizeRequesting = s.pool.fsSizeRequesting) :
    Inv { s with pool := pool, holder := some p' } := by
  obtain ⟨⟨hcount, hwoken, honce, hnodup⟩, hbound, -⟩ := h
  simp only [inHand, outstanding, hholder, Option.some.injEq, htask, if_false] at hcount honce hbound hwoken
  refine ⟨⟨?_, ?_, ?_, hnodup⟩, ?_, ?_⟩
  · simpa [outstanding, htask', hreq] using hcount
  · intro hne
    refine (hwoken hne).imp_right ?_
    rintro ⟨q, hq, ht⟩
    obtain rfl : p = q := by simpa using hq
    exact ⟨p', rfl, htends.trans ht⟩
  · simpa [inHand, hhand] using honce
  · simpa [outstanding, htask'] using hbound
  · intro q hq
    obtain rfl : p' = q := by simpa using hq
    exact htold

theorem Inv.pass (mem : AllocMem) {waker : Bool} {seg : FwSeg} {t : AllocProgress}
    (hholder : s.holder = some (.alloc waker seg t)) (hprov : Provided reqs s (.pass mem)) :
    Inv (s.allocPass reqs mem waker seg t) := by
  have hprov : if s.pool.fsSizeRemaining < (reqs seg.reqID).lbLen then s.pool.fsSizeRequesting ≠ 0 → s.Waking
      else t.ret = .ok := hprov _ hholder
  have hret := allocIn_ret (reqs seg.reqID) t s.pool mem
  have hkeep := allocIn_requesting (reqs seg.reqID) t s.pool mem
  rw [allocPass]
  generalize (reqs seg.reqID).allocIn t s.pool mem = out at hret hkeep ⊢
  have htold : out.2.1.ret = .ok ∨ out.2.1.ret = .wait ∧ s.Waking ∨ out.2.1.ret = .nospace := by
    rw [hret]
    split_ifs at hprov ⊢ with hlt hzero
    · exact Or.inr (Or.inl ⟨rfl, hprov hzero⟩)
    · exact Or.inr (Or.inr rfl)
    · exact Or.inl hprov
  refine h.replaced hholder (by simp) ?_ ?_ ?_ ?_ hkeep
  · split_ifs <;> simp
  · split_ifs <;> rfl
  · split_ifs <;> rfl
  · split_ifs
    · exact htold
    · rcases htold with hok | ⟨hwait, hwaking⟩ | hnospace
      · exact Or.inl (by rw [hok]; rfl)
      · exact Or.inr (Or.inl ⟨by rw [hwait]; rfl, hwaking⟩)
      · exact Or.inr (Or.inr (by rw [hnospace]; rfl))

theorem Inv.settle {waker : Bool} {seg : FwSeg} {ret : SmAllocSpaceResp}
    (hholder : s.holder = some (.resp waker seg ret)) : Inv (s.settle waker seg ret) := by
  obtain ⟨⟨hcount, hwoken, honce, hnodup⟩, hbound, htold⟩ := h
  have htold := htold _ hholder
  simp only [inHand, outstanding, hholder] at hcount honce hbound hwoken
  have hqueued : ((s.fwwaitQ ++ [seg]).map FwSeg.reqID ++ [] ++ s.given).Perm s.submitted := by
    simpa [FwPoint.inHand] using honce
  rcases htold with rfl | ⟨rfl, hwaking⟩ | rfl
  · refine ⟨⟨?_, ?_, ?_, hnodup⟩, ?_, ?_⟩
    · cases waker <;> simpa [FwVolume.settle, outstanding] using hcount
    · cases waker with
      | true => exact fun _ => Or.inr ⟨.peek, rfl, rfl⟩
      | false =>
        intro hne
        exact Or.inl ((hwoken hne).resolve_right (by simp [FwPoint.tends]))
    · have hmoved : (s.fwwaitQ.map FwSeg.reqID ++ [] ++ seg.reqID :: s.given).Perm s.submitted := by
        simpa [FwPoint.inHand] using honce
      cases waker <;> exact hmoved
    · cases waker <;> simpa [FwVolume.settle, outstanding] using hbound
    · cases waker <;> simp [FwVolume.settle, Told]
  · refine ⟨⟨?_, fun _ => Or.inl hwaking, hqueued, hnodup⟩, ?_, ?_⟩
    · simpa [FwVolume.settle, outstanding] using hcount
    · simpa [FwVolume.settle, outstanding] using hbound
    · simp [FwVolume.settle]
  · refine ⟨⟨?_, fun _ => Or.inr ⟨.request, rfl, rfl⟩, hqueued, hnodup⟩, ?_, ?_⟩
    · simpa [FwVolume.settle, outstanding] using hcount
    · simpa [FwVolume.settle, outstanding] using hbound
    · simp [FwVolume.settle, Told]

theorem Inv.request (hholder : s.holder = some .request) (hroom : s.outstanding + 1 < 2 ^ 32) :
    Inv (s.step reqs .request) := by
  obtain ⟨⟨hcount, hwoken, honce, hnodup⟩, hbound, -⟩ := h
  have hmore : (s.step reqs .request).outstanding = s.outstanding + 1 := by
    simp [outstanding, step, hholder]
  refine ⟨⟨?_, fun _ => Or.inr ⟨.task, rfl, rfl⟩, ?_, hnodup⟩, ?_, ?_⟩
  · rw [hmore]
    exact requesting_inc hcount hroom
  · simpa [inHand, hholder, step, FwPoint.inHand] using honce
  · rw [hmore]
    exact hroom
  · simp [step, Told]

theorem Inv.task (hholder : s.holder = some .task) : Inv (s.step reqs (.task true)) := by
  obtain ⟨⟨hcount, hwoken, honce, hnodup⟩, hbound, -⟩ := h
  have hsame : (s.step reqs (.task true)).outstanding = s.outstanding := by
    simp [outstanding, step, hholder]
    omega
  refine ⟨⟨?_, fun _ => Or.inl (Or.inl ?_), ?_, hnodup⟩, ?_, ?_⟩
  · rw [hsame]
    exact hcount
  · simp [step]
  · simpa [inHand, hholder, step, FwPoint.inHand] using honce
  · rw [hsame]
    exact hbound
  · simp [step]

theorem Inv.ioctl (hroom : s.outstanding + 1 < 2 ^ 32) : Inv (s.step reqs .ioctl) := by
  have hmore : (s.step reqs .ioctl).outstanding = s.outstanding + 1 := by
    change s.ioctls + 1 + s.taskWorkq.length + s.sent.length + (if s.holder = some .task then 1 else 0) = _
    rw [outstanding]
    omega
  refine h.moved rfl rfl rfl rfl id ?_ ?_
  · rw [hmore]
    exact requesting_inc h.stranded.requesting hroom
  · rw [hmore]
    exact hroom

theorem Inv.ioctlTask (hpos : 0 < s.ioctls) : Inv (s.step reqs (.ioctlTask true)) := by
  have hsame : (s.step reqs (.ioctlTask true)).outstanding = s.outstanding := by
    simp only [outstanding, step, if_true, length_append, length_singleton]
    omega
  refine h.moved rfl rfl rfl rfl ?_ ?_ ?_
  · exact Or.imp_left (mem_append_left _)
  · rw [hsame]
    exact h.stranded.requesting
  · rw [hsame]
    exact h.bound

theorem Inv.hand : Inv (s.hand true) := by
  rw [FwVolume.hand]
  cases hq : s.taskWorkq with
  | nil => exact h
  | cons wakes rest =>
    have hcount := h.stranded.requesting
    have hbound := h.bound
    rw [outstanding, hq, length_cons] at hcount hbound
    refine h.moved rfl rfl rfl rfl ?_ ?_ ?_
    · rintro (hmem | hmem | hpos)
      · rw [hq] at hmem
        rcases mem_cons.mp hmem with rfl | hmem
        · exact Or.inr (Or.inl (by simp))
        · exact Or.inl hmem
      · exact Or.inr (Or.inl (mem_append_left _ hmem))
      · exact Or.inr (Or.inr hpos)
    · simp only [outstanding, if_true, length_append, length_singleton]
      omega
    · simp only [outstanding, if_true, length_append, length_singleton]
      omega

theorem Inv.complete {i : Nat} (hi : i < s.sent.length) : Inv (s.complete i) := by
  rw [FwVolume.complete, List.getElem?_eq_getElem hi]
  have hlen := length_eraseIdx_of_lt hi
  have hless : s.outstanding = s.ioctls + s.taskWorkq.length + (s.sent.eraseIdx i).length +
      (if s.holder = some .task then 1 else 0) + 1 := by
    rw [outstanding, hlen]
    omega
  have hcount := h.stranded.requesting
  have hbound := h.bound
  rw [hless] at hcount hbound
  refine h.moved rfl rfl rfl rfl ?_ (requesting_dec hcount hbound) (Nat.lt_of_succ_lt hbound)
  rintro (hmem | hmem | hpos)
  · exact Or.inl hmem
  · -- the task that ends may be the only one that wakes the queue
    rw [← insertIdx_eraseIdx_getElem hi] at hmem
    rcases (mem_insertIdx (by rw [hlen]; omega)).mp hmem with heq | hmem
    · exact Or.inr (Or.inr (by simp [← heq]))
    · exact Or.inr (Or.inl hmem)
  · refine Or.inr (Or.inr ?_)
    dsimp only
    split_ifs <;> omega

theorem Inv.wake (hfree : s.holder = none) : Inv (s.step reqs .wake) := by
  obtain ⟨⟨hcount, hwoken, honce, hnodup⟩, hbound, -⟩ := h
  refine ⟨⟨?_, fun _ => Or.inr ⟨.peek, rfl, rfl⟩, ?_, hnodup⟩, ?_, ?_⟩
  · simpa [outstanding, step, hfree] using hcount
  · simpa [inHand, hfree, step, FwPoint.inHand] using honce
  · simpa [outstanding, step, hfree] using hbound
  · simp [step, Told]

theorem Inv.peek (hholder : s.holder = some .peek) : Inv s.peek := by
  obtain ⟨⟨hcount, hwoken, honce, hnodup⟩, hbound, -⟩ := h
  rw [FwVolume.peek]
  cases hq : s.fwwaitQ with
  | nil =>
    refine ⟨⟨?_, fun hne => absurd rfl hne, ?_, hnodup⟩, ?_, by simp⟩
    · simpa [outstanding, hholder] using hcount
    · simpa [inHand, hholder, hq, FwPoint.inHand] using honce
    · simpa [outstanding, hholder] using hbound
  | cons seg rest =>
    refine ⟨⟨?_, fun _ => Or.inr ⟨_, rfl, rfl⟩, ?_, hnodup⟩, ?_, ?_⟩
    · simpa [outstanding, hholder, startAlloc] using hcount
    · rw [inHand, hholder, hq] at honce
      refine List.Perm.trans ?_ honce
      simp only [startAlloc, inHand, Option.map_some, Option.getD_some, FwPoint.inHand, map_cons, append_nil]
      exact (perm_append_singleton _ _).append_right _
    · simpa [outstanding, hholder, startAlloc] using hbound
    · intro p hp
      obtain rfl : startAlloc true seg = p := by simpa using hp
      exact Or.inl rfl

end

theorem Inv.step {e : FwEvent} (h : Inv s) (he : s.enabled e) (hprov : Provided reqs s e) :
    Inv (s.step reqs e) := by
  cases e with
  | submit seg => exact h.submit seg he.1 he.2
  | pass mem =>
    obtain ⟨p, hp, halloc⟩ := he
    cases p with
    | alloc waker seg t =>
      rw [FwVolume.step, show s.holder = _ from hp]
      exact h.pass mem hp hprov
    | _ => cases halloc
  | settle =>
    obtain ⟨p, hp, hresp⟩ := he
    cases p with
    | resp waker seg ret =>
      rw [FwVolume.step, show s.holder = _ from hp]
      exact h.settle hp
    | _ => cases hresp
  | request => exact h.request he hprov
  | task mem =>
    obtain rfl : mem = true := hprov
    exact h.task he
  | ioctl => exact h.ioctl hprov
  | ioctlTask mem =>
    obtain rfl : mem = true := hprov
    exact h.ioctlTask he
  | hand mem =>
    obtain rfl : mem = true := hprov
    exact h.hand
  | complete i => exact h.complete he
  | wake => exact h.wake he.1
  | peek => exact h.peek he
  | pool e =>
    have hkeep := outside_requesting s.pool he
    exact h.moved rfl rfl rfl rfl id (hkeep.trans h.stranded.requesting) h.bound

end Step

theorem inv_init (volumeID : Nat) : Inv (init (SpacePool.init volumeID)) :=
  ⟨⟨rfl, fun hne => absurd rfl hne, List.Perm.nil, nodup_nil⟩, Nat.two_pow_pos 32, by simp [init]⟩

/-- In every run whose tasks find memory, in which a segment is told to wait only for a preallocation that
wakes the queue and then given no space by the same call, no first write is stranded. -/
theorem first_writes_not_stranded (reqs : Nat → SpaceReq) (volumeID : Nat) (es : List FwEvent)
    (h : ((machine reqs).restrict (Provided reqs)).Legal (init (SpacePool.init volumeID)) es) :
    NoneStranded ((machine reqs).exec (init (SpacePool.init volumeID)) es) := by
  have hinv : Inv ((machine reqs).exec (init (SpacePool.init volumeID)) es) :=
    GuardedMachine.exec_invariant (m := (machine reqs).restrict (Provided reqs)) (I := Inv) (inv_init volumeID)
      (fun _ _ ht he => ht.step he.1 he.2) h
  exact hinv.stranded

section Decidable
variable (reqs : Nat → SpaceReq) (s : FwVolume)

instance : Decidable s.Waking := inferInstanceAs (Decidable (_ ∨ _ ∨ _))

instance : (e : FwEvent) → Decidable (s.enabled e)
  | .submit _ => inferInstanceAs (Decidable (_ ∧ _))
  | .pass _ => inferInstanceAs (Decidable (∃ p ∈ s.holder, p.isAlloc = true))
  | .settle => inferInstanceAs (Decidable (∃ p ∈ s.holder, p.isResp = true))
  | .request => inferInstanceAs (Decidable (s.holder = _))
  | .task _ => inferInstanceAs (Decidable (s.holder = _))
  | .ioctl => isTrue trivial
  | .ioctlTask _ => inferInstanceAs (Decidable (0 < _))
  | .hand _ => inferInstanceAs (Decidable (s.taskWorkq ≠ []))
  | .complete i => inferInstanceAs (Decidable (i < _))
  | .wake => inferInstanceAs (Decidable (_ ∧ _))
  | .peek => inferInstanceAs (Decidable (s.holder = _))
  | .pool e => inferInstanceAs (Decidable (e.Outside = true))

instance : (p : FwPoint) → Decidable (PassProvided reqs s p)
  | .alloc _ seg t => inferInstanceAs (Decidable (if s.pool.fsSizeRemaining < (reqs seg.reqID).lbLen then
      s.pool.fsSizeRequesting ≠ 0 → s.Waking else t.ret = .ok))
  | .resp _ _ _ => isTrue trivial
  | .peek => isTrue trivial
  | .request => isTrue trivial
  | .task => isTrue trivial

instance : (e : FwEvent) → Decidable (Provided reqs s e)
  | .submit _ => isTrue trivial
  | .pass _ => inferInstanceAs (Decidable (∀ p ∈ s.holder, PassProvided reqs s p))
  | .settle => isTrue trivial
  | .request => inferInstanceAs (Decidable (_ < _))
  | .task mem => inferInstanceAs (Decidable (mem = true))
  | .ioctl => inferInstanceAs (Decidable (_ < _))
  | .ioctlTask mem => inferInstanceAs (Decidable (mem = true))
  | .hand mem => inferInstanceAs (Decidable (mem = true))
  | .complete _ => isTrue trivial
  | .wake => isTrue trivial
  | .peek => isTrue trivial
  | .pool _ => isTrue trivial

instance : (e : FwEvent) → Decidable ((machine reqs).enabled s e) := fun e => inferInstanceAs (Decidable (s.enabled e))

end Decidable

def threeEach : Nat → SpaceReq := fun _ => SpaceReq.threeLBs

/-- A segment asks for space, another waits for the same preallocation, both are given space when it comes.
-/
def wokenRun : List FwEvent :=
  [.submit ⟨0, .init⟩, .pass ⟨true, [], []⟩, .settle, .request, .task true, .hand true,
    .submit ⟨1, .init⟩, .pass ⟨true, [], []⟩, .settle, .pool (.add 1 ⟨8, Nat.le_of_ble_eq_true rfl⟩ 100 []),
    .complete 0, .wake, .peek, .pass ⟨true, [], []⟩, .settle, .peek, .pass ⟨true, [], []⟩, .settle, .peek]

theorem first_writes_not_stranded_two_segments :
    NoneStranded ((machine threeEach).exec (init (SpacePool.init 7)) wokenRun) :=
  first_writes_not_stranded threeEach 7 wokenRun (by decide)

def noTask : List FwEvent :=
  [.submit ⟨0, .init⟩, .pass ⟨true, [], []⟩, .settle, .request, .task false]

def ioctlOnly : List FwEvent :=
  [.ioctl, .ioctlTask true, .hand true, .submit ⟨0, .init⟩, .pass ⟨true, [], []⟩, .settle, .complete 0]

theorem first_writes_stranded :
    ((machine threeEach).Legal (init (SpacePool.init 7)) noTask ∧
      ¬NoneStranded ((machine threeEach).exec (init (SpacePool.init 7)) noTask)) ∧
    ((machine threeEach).Legal (init (SpacePool.init 7)) ioctlOnly ∧
      ¬NoneStranded ((machine threeEach).exec (init (SpacePool.init 7)) ioctlOnly)) := by
  refine ⟨⟨by decide, fun h => ?_⟩, ⟨by decide, fun h => ?_⟩⟩
  · exact absurd h.requesting (by decide)
  · exact absurd (h.woken (by decide)) (by decide)

end DiscoClient.FwVolume
