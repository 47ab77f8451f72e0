import DiscoClient.Space.AllocRounds
import DiscoClient.Space.MdArray

/-! fspool_alloc_space: a call sleeps and goes through the table of pools again until memory is found and
the pool of its volume is below the flush limit. -/
namespace DiscoClient
open List

/-- spool_allocSpace_resp_t. -/
inductive SpoolAllocSpaceResp where
  | ok
  | noVolume
  | wait
  | nospace
  | fail
  deriving DecidableEq, Repr

def flushNumAschunk : Nat := 2 * 1024 * 1024 / 4

structure SpaceReq where
  volumeID : Nat
  lbS : Nat
  lbLen : Nat
  pos : 0 < lbLen
  le_max : lbLen ≤ 33
  range : lbS + lbLen ≤ 2 ^ 64

/-- The pools of the table, which other threads change while the call sleeps, and the memory. -/
structure AllocPass where
  fspoolTbl : List SpacePool
  mem : AllocMem
  pools : ∀ pool ∈ fspoolTbl, pool.Inv

/-- The variables of a call. What its passes took out of the free space of the pool is dropped. -/
structure AllocProgress where
  ret : SpoolAllocSpaceResp
  allocRet : AllocRet
  arrMD : SpaceMetadata
  dropped : Nat
  deriving DecidableEq, Repr

def AllocProgress.init : AllocProgress := ⟨.ok, .ok, .init, 0⟩

/-- A call sleeps, reads num_alloc_unit through a null pointer, or returns. -/
inductive AllocOutcome where
  | asleep (t : AllocProgress)
  | fault
  | returned (t : AllocProgress)
  deriving DecidableEq, Repr

def AllocOutcome.isAsleep : AllocOutcome → Bool
  | .asleep _ => true
  | _ => false

/-- The part of a pass under space_plock, for a request of any length. -/
def SpacePool.allocUnderLock (pool : SpacePool) (lbS lbLen : Nat) (t : AllocProgress) (mem : AllocMem) :
    SpacePool × AllocProgress :=
  if lbLen ≤ pool.fsSizeRemaining then
    let out := pool.allocSpace t.arrMD lbS lbLen mem
    (out.1, { t with
      allocRet := out.2.2
      arrMD := out.2.1
      dropped := t.dropped + (pool.fsSizeRemaining - out.1.fsSizeRemaining) })
  else if pool.fsSizeRequesting ≠ 0 then (pool, { t with ret := .wait })
  else (pool, { t with ret := .nospace })

namespace SpaceReq
variable (r : SpaceReq)

def allocFrom (t : AllocProgress) (pool : SpacePool) (mem : AllocMem) : SpacePool × AllocProgress :=
  pool.allocUnderLock r.lbS r.lbLen t mem

def allocIn (t : AllocProgress) (pool : SpacePool) (mem : AllocMem) : SpacePool × AllocProgress × Bool :=
  let s := r.allocFrom t pool mem
  (s.1, s.2, decide (s.2.allocRet = .enomem) || decide (flushNumAschunk < s.1.numAllocUnit))

/-- _fstbl_find_fspool_nolock. -/
def findFspool (p : AllocPass) : Option SpacePool := p.fspoolTbl.find? (·.volumeID == r.volumeID)

/-- A pass from ALLOC_SPACE_AGAIN on. -/
def allocPass (t : AllocProgress) (p : AllocPass) : AllocOutcome :=
  match r.findFspool p with
  | none => if t.allocRet = .enomem then .asleep { t with ret := .noVolume } else .fault
  | some pool =>
    let out := r.allocIn t pool p.mem
    if out.2.2 then .asleep out.2.1 else .returned out.2.1

/-- fspool_alloc_space, over the passes that it makes. -/
def fspoolAllocSpace : AllocProgress → List AllocPass → AllocOutcome
  | t, [] => .asleep t
  | t, p :: ps =>
    match r.allocPass t p with
    | .asleep t' => fspoolAllocSpace t' ps
    | out => out

def Meets : AllocOutcome → Prop
  | .asleep _ => True
  | .fault => False
  | .returned t =>
    if t.ret = .ok then
      (∃ items : List SpaceMdItem, t.arrMD.arrayMetadata.take t.arrMD.numMDItems = items.map some ∧
        t.arrMD.numMDItems = items.length ∧ t.arrMD.overrun = false ∧
        Consecutive (·.lbidS) (·.numHbids) r.lbS items (r.lbS + r.lbLen)) ∧ t.dropped = r.lbLen
    else t.dropped = 0 ∧ t.arrMD.numMDItems = 0 ∧ t.arrMD.overrun = false

def Short (p : AllocPass) : Prop := ∃ pool ∈ r.findFspool p, pool.fsSizeRemaining < r.lbLen

def Idle (p : AllocPass) : Prop :=
  ∃ pool ∈ r.findFspool p, r.lbLen ≤ pool.fsSizeRemaining ∧ (p.mem.array = true → pool.Stalls p.mem 0)

def Fits (p : AllocPass) : Prop :=
  ∃ pool ∈ r.findFspool p, r.lbLen ≤ pool.fsSizeRemaining ∧
    r.lbLen ≤ SpacePool.freeLen (pool.spaceChunkPool.take r.lbLen)

end SpaceReq

namespace SpaceReq
open SpacePool
variable {r : SpaceReq} {t t' : AllocProgress} {p : AllocPass} {pool : SpacePool} {mem : AllocMem}

def Fresh (t : AllocProgress) : Prop := t.dropped = 0 ∧ t.arrMD.numMDItems = 0 ∧ t.arrMD.overrun = false

theorem lbLen_lt (r : SpaceReq) : r.lbLen < 2 ^ 16 := by
  have := r.le_max
  omega

theorem inv_of_findFspool (h : r.findFspool p = some pool) : pool.Inv :=
  p.pools pool (mem_of_find?_eq_some h)

theorem allocFrom_gives (h : pool.Inv) (hle : r.lbLen ≤ pool.fsSizeRemaining) (harr : mem.array = true)
    (t : AllocProgress) :
    ∃ items taken, Gives pool mem ⟨List.replicate r.lbLen none, t.arrMD.numMDItems, t.arrMD.overrun⟩ 0 r.lbS r.lbLen
        items taken (pool.allocSpace t.arrMD r.lbS r.lbLen mem) ∧
      (r.allocFrom t pool mem).2 =
        ⟨t.ret, (pool.allocSpace t.arrMD r.lbS r.lbLen mem).2.2, (pool.allocSpace t.arrMD r.lbS r.lbLen mem).2.1,
          t.dropped + taken⟩ := by
  obtain ⟨items, taken, hg⟩ := (allocSpaceOn_run rounds t.arrMD r.lbS h.settled (hle.trans_lt h.remaining_lt) harr).gives h r.pos
    hle r.range
  refine ⟨items, taken, hg, ?_⟩
  have hdrop : pool.fsSizeRemaining - (pool.allocSpace t.arrMD r.lbS r.lbLen mem).1.fsSizeRemaining = taken :=
    Nat.sub_eq_of_eq_add (hg.remaining.symm.trans (Nat.add_comm _ _))
  rw [allocFrom, SpacePool.allocUnderLock, if_pos hle, ← hdrop]

theorem allocFrom_noArray (hle : r.lbLen ≤ pool.fsSizeRemaining) (harr : ¬mem.array = true) (t : AllocProgress) :
    (r.allocFrom t pool mem).2 = ⟨t.ret, .enomem, { t.arrMD with arrayMetadata := [] }, t.dropped⟩ := by
  rw [allocFrom, SpacePool.allocUnderLock, if_pos hle, SpacePool.allocSpace, allocSpaceOn, if_neg harr]
  simp

theorem fresh_allocFrom (h : pool.Inv) (hle : r.lbLen ≤ pool.fsSizeRemaining) (t : AllocProgress) :
    Fresh (r.allocFrom t pool mem).2 ↔ Fresh t ∧ (mem.array = true → pool.Stalls mem 0) := by
  by_cases harr : mem.array = true
  · obtain ⟨items, taken, hg, hout⟩ := allocFrom_gives h hle harr t
    have hmd := hg.md
    rw [hout, Fresh, Fresh, ← hg.idle]
    simp only [harr, forall_const]
    constructor
    · rintro ⟨hdrop, hnum, hover⟩
      have hnil : items = [] := by
        by_contra hne
        have hlen : (List.replicate r.lbLen (none : Option SpaceMdItem)).length < 2 ^ 16 := by
          rw [length_replicate]
          exact r.lbLen_lt
        have := SpaceMetadata.foldl_push_ne_nil ⟨List.replicate r.lbLen none, t.arrMD.numMDItems, t.arrMD.overrun⟩
          hlen hne
        rw [← hmd, hover, hnum] at this
        simp at this
      rw [hmd, hnil] at hnum hover
      exact ⟨⟨by omega, hnum, hover⟩, hnil, by omega⟩
    · rintro ⟨⟨hdrop, hnum, hover⟩, rfl, rfl⟩
      rw [hmd]
      exact ⟨hdrop, hnum, hover⟩
  · rw [allocFrom_noArray hle harr]
    simp [Fresh, harr]

theorem allocPass_cases (r : SpaceReq) (t : AllocProgress) (p : AllocPass) :
    (r.findFspool p = none ∧
      r.allocPass t p = if t.allocRet = .enomem then .asleep { t with ret := .noVolume } else .fault) ∨
    ∃ pool, r.findFspool p = some pool ∧ pool.Inv ∧
      (r.allocPass t p = .asleep (r.allocFrom t pool p.mem).2 ∨
        (r.allocFrom t pool p.mem).2.allocRet ≠ .enomem ∧
          r.allocPass t p = .returned (r.allocFrom t pool p.mem).2) ∧
      ((∃ ret, ret ≠ .ok ∧ pool.fsSizeRemaining < r.lbLen ∧ (r.allocFrom t pool p.mem).2 = { t with ret := ret }) ∨
        r.lbLen ≤ pool.fsSizeRemaining ∧ (r.allocFrom t pool p.mem).2.ret = t.ret) := by
  cases hfind : r.findFspool p with
  | none => exact Or.inl ⟨rfl, by rw [allocPass, hfind]⟩
  | some pool =>
    refine Or.inr ⟨pool, rfl, inv_of_findFspool hfind, ?_, ?_⟩
    · rw [allocPass, hfind]
      dsimp only [allocIn]
      split_ifs with hagain
      · exact Or.inl rfl
      · refine Or.inr ⟨fun he => hagain ?_, rfl⟩
        rw [decide_eq_true he, Bool.true_or]
    · rw [allocFrom, SpacePool.allocUnderLock]
      split_ifs with hle hreq
      · exact Or.inr ⟨hle, rfl⟩
      · exact Or.inl ⟨.wait, by decide, Nat.lt_of_not_le hle, rfl⟩
      · exact Or.inl ⟨.nospace, by decide, Nat.lt_of_not_le hle, rfl⟩

theorem fresh_ok_step (h : r.allocPass t p = .asleep t') :
    t'.ret = .ok ∧ Fresh t' ↔ (t.ret = .ok ∧ Fresh t) ∧ r.Idle p := by
  rcases allocPass_cases r t p with ⟨hnone, hout⟩ | ⟨pool, hpool, hinv, hpass, hfrom⟩
  · rw [h] at hout
    split_ifs at hout with hmem
    obtain rfl : t' = { t with ret := .noVolume } := by simpa using hout
    simp [Idle, hnone]
  · obtain rfl : t' = (r.allocFrom t pool p.mem).2 := by simpa [h] using hpass
    rcases hfrom with ⟨ret, hret, hlt, hout⟩ | ⟨hle, hret⟩
    · rw [hout]
      simp [hret, Idle, hpool, Nat.not_le.mpr hlt]
    · rw [hret, fresh_allocFrom hinv hle]
      simp [Idle, hpool, hle, and_assoc]

theorem fresh_memory_step (h : r.allocPass t p = .asleep t') :
    t'.allocRet ≠ .enomem ∧ Fresh t' ↔ (t.allocRet ≠ .enomem ∧ Fresh t) ∧ r.Short p := by
  rcases allocPass_cases r t p with ⟨hnone, hout⟩ | ⟨pool, hpool, hinv, hpass, hfrom⟩
  · rw [h] at hout
    split_ifs at hout with hmem
    obtain rfl : t' = { t with ret := .noVolume } := by simpa using hout
    simp [Short, hnone, hmem]
  · obtain rfl : t' = (r.allocFrom t pool p.mem).2 := by simpa [h] using hpass
    rcases hfrom with ⟨ret, hret, hlt, hout⟩ | ⟨hle, hret⟩
    · rw [hout]
      simp [Short, hpool, hlt, Fresh]
    · have hshort : ¬r.Short p := by simpa [Short, hpool] using hle
      simp only [hshort, and_false, iff_false, not_and]
      intro hmem hfresh
      have hstalls := ((fresh_allocFrom hinv hle t).mp hfresh).2
      by_cases harr : p.mem.array = true
      · -- a pass that takes nothing has no memory
        obtain ⟨items, taken, hg, hout⟩ := allocFrom_gives hinv hle harr t
        rw [hout] at hmem
        cases hret : (pool.allocSpace t.arrMD r.lbS r.lbLen p.mem).2.2 with
        | ok =>
          have := (hg.complete hret).1
          have := (hg.idle.mpr (hstalls harr)).2
          have := r.pos
          omega
        | enoent => exact hg.ret hret
        | enomem => exact hmem hret
      · rw [allocFrom_noArray hle harr] at hmem
        exact hmem rfl

theorem fspoolAllocSpace_iff {P : AllocProgress → Prop} {Q : AllocPass → Prop}
    (hstep : ∀ {t p t'}, r.allocPass t p = .asleep t' → (P t' ↔ P t ∧ Q p)) {qs : List AllocPass}
    (h : r.fspoolAllocSpace t qs = .asleep t') : P t' ↔ P t ∧ ∀ q ∈ qs, Q q := by
  induction qs generalizing t with
  | nil =>
    obtain rfl : t = t' := by simpa [fspoolAllocSpace] using h
    simp
  | cons q qs ih =>
    rw [fspoolAllocSpace] at h
    cases hpass : r.allocPass t q with
    | asleep t₁ =>
      rw [hpass] at h
      rw [ih h, hstep hpass, forall_mem_cons, and_assoc]
    | fault => simp [hpass] at h
    | returned t₁ => simp [hpass] at h

theorem fspoolAllocSpace_concat {qs : List AllocPass} (h : r.fspoolAllocSpace t qs = .asleep t') (p : AllocPass) :
    r.fspoolAllocSpace t (qs ++ [p]) = r.allocPass t' p := by
  induction qs generalizing t with
  | nil =>
    obtain rfl : t = t' := by simpa [fspoolAllocSpace] using h
    rw [nil_append, fspoolAllocSpace]
    cases r.allocPass t p <;> rfl
  | cons q qs ih =>
    rw [fspoolAllocSpace] at h
    rw [cons_append, fspoolAllocSpace]
    cases hpass : r.allocPass t q with
    | asleep t₁ =>
      rw [hpass] at h
      exact ih h
    | fault => simp [hpass] at h
    | returned t₁ => simp [hpass] at h

theorem meets_of_enough (hinv : pool.Inv) (hle : r.lbLen ≤ pool.fsSizeRemaining)
    (hmem : (r.allocFrom t pool mem).2.allocRet ≠ .enomem) :
    r.Meets (.returned (r.allocFrom t pool mem).2) ↔
      (t.ret = .ok ∧ Fresh t) ∧ r.lbLen ≤ freeLen (pool.spaceChunkPool.take r.lbLen) := by
  by_cases harr : mem.array = true
  · obtain ⟨items, taken, hg, hout⟩ := allocFrom_gives hinv hle harr t
    rw [hout] at hmem ⊢
    have hok : (pool.allocSpace t.arrMD r.lbS r.lbLen mem).2.2 = .ok := by
      cases hret : (pool.allocSpace t.arrMD r.lbS r.lbLen mem).2.2 with
      | ok => rfl
      | enoent => exact absurd hret hg.ret
      | enomem => exact absurd hret hmem
    obtain ⟨htaken, hcons, hitems⟩ := hg.complete hok
    have hpos := r.pos
    by_cases hret : t.ret = .ok
    · have hne : items ≠ [] := by
        rintro rfl
        have : r.lbS = r.lbS + r.lbLen := hcons
        omega
      have hread := SpaceMetadata.foldl_push_read r.lbLen_lt hne hg.md
        (fun its => Consecutive (·.lbidS) (·.numHbids) r.lbS its (r.lbS + r.lbLen)) hcons
      simp only [Meets, hret, if_true, hread, hitems]
      constructor
      · rintro ⟨⟨hempty, hfits⟩, hdrop⟩
        exact ⟨⟨trivial, by omega, hempty⟩, hfits⟩
      · rintro ⟨⟨-, hdrop, hempty⟩, hfits⟩
        exact ⟨⟨hempty, hfits⟩, by omega⟩
    · simp only [Meets, hret, if_false, false_and, iff_false]
      rintro ⟨hdrop, -⟩
      omega
  · rw [allocFrom_noArray hle harr] at hmem
    exact absurd rfl hmem

/-- A call that is over keeps its promise exactly when every pass found too few LBs in the pool, or every
pass found enough, none before the last took any and the last got all from as many chunks at most. -/
theorem alloc_space_meets_iff (r : SpaceReq) (qs : List AllocPass) (p : AllocPass)
    (hqs : (r.fspoolAllocSpace .init qs).isAsleep = true) (hp : (r.fspoolAllocSpace .init (qs ++ [p])).isAsleep = false) :
    r.Meets (r.fspoolAllocSpace .init (qs ++ [p])) ↔
      (∀ q ∈ qs ++ [p], r.Short q) ∨ ((∀ q ∈ qs, r.Idle q) ∧ r.Fits p) := by
  obtain ⟨t, ht⟩ : ∃ t, r.fspoolAllocSpace .init qs = .asleep t := by
    cases hq : r.fspoolAllocSpace .init qs with
    | asleep t => exact ⟨t, rfl⟩
    | fault => simp [hq, AllocOutcome.isAsleep] at hqs
    | returned t => simp [hq, AllocOutcome.isAsleep] at hqs
  have hidle : t.ret = .ok ∧ Fresh t ↔ ∀ q ∈ qs, r.Idle q := by
    rw [fspoolAllocSpace_iff fresh_ok_step ht]
    exact and_iff_right ⟨rfl, rfl, rfl, rfl⟩
  have hshort : t.allocRet ≠ .enomem ∧ Fresh t ↔ ∀ q ∈ qs, r.Short q := by
    rw [fspoolAllocSpace_iff fresh_memory_step ht]
    exact and_iff_right ⟨by decide, rfl, rfl, rfl⟩
  rw [fspoolAllocSpace_concat ht] at hp ⊢
  rw [forall_mem_append, forall_mem_singleton, ← hidle, ← hshort]
  rcases allocPass_cases r t p with ⟨hnone, hout⟩ | ⟨pool, hpool, hinv, hpass, hfrom⟩
  · rw [hout] at hp ⊢
    split_ifs at hp ⊢
    · cases hp
    · simp [Meets, Short, Fits, hnone]
  · rcases hpass with hpass | ⟨hmem, hpass⟩
    · simp [hpass, AllocOutcome.isAsleep] at hp
    · rw [hpass]
      rcases hfrom with ⟨ret, hret, hlt, hout⟩ | ⟨hle, -⟩
      · rw [hout] at hmem ⊢
        have hmem : t.allocRet ≠ .enomem := hmem
        simp [Meets, hret, Short, Fits, hpool, hlt, Nat.not_le.mpr hlt, hmem, Fresh]
      · rw [meets_of_enough hinv hle hmem]
        simp [Short, Fits, hpool, hle, Nat.not_lt.mpr hle]

def threeLBs : SpaceReq where
  volumeID := 7
  lbS := 40
  lbLen := 3
  pos := Nat.le_of_ble_eq_true rfl
  le_max := Nat.le_of_ble_eq_true rfl
  range := Nat.le_of_ble_eq_true rfl

def poolAfter (es : List SpacePool.Event) (mem : AllocMem) : AllocPass where
  fspoolTbl := [SpacePool.run (SpacePool.init 7) es]
  mem := mem
  pools := fun _ h => (List.mem_singleton.mp h) ▸ (SpacePool.inv_init 7).run es

def twoChunks : List SpacePool.Event :=
  [.add 1 ⟨2, Nat.le_of_ble_eq_true rfl⟩ 100 [], .add 2 ⟨6, Nat.le_of_ble_eq_true rfl⟩ 200 []]

theorem alloc_space_meets_second_pass :
    threeLBs.Meets (threeLBs.fspoolAllocSpace .init
      ([poolAfter twoChunks ⟨false, [], []⟩] ++ [poolAfter twoChunks ⟨true, [], []⟩])) := by
  apply (alloc_space_meets_iff threeLBs [_] _ (by decide) (by decide)).mpr
  refine Or.inr ⟨?_, _, rfl, by decide, by decide⟩
  intro q hq
  obtain rfl := mem_singleton.mp hq
  exact ⟨_, rfl, by decide, fun harr => absurd harr (by decide)⟩

/-- Without a pool the call reads through a null pointer. When memory is short after the first chunk, its two LBs are
lost and the array of the second pass begins with a slot that is not set. -/
theorem alloc_space_loses_chunk :
    ¬threeLBs.Meets (threeLBs.fspoolAllocSpace .init [⟨[], ⟨true, [], []⟩, fun _ h => absurd h List.not_mem_nil⟩]) ∧
    ¬threeLBs.Meets (threeLBs.fspoolAllocSpace .init
      [poolAfter twoChunks ⟨true, [true, false], []⟩,
        poolAfter (twoChunks ++ [.alloc 40 3 ⟨true, [true, false], []⟩]) ⟨true, [], []⟩]) := by
  constructor
  · exact id
  · intro h
    exact absurd h.2 (by decide)

end SpaceReq
end DiscoClient
