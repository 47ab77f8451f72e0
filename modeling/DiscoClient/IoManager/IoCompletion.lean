import DiscoClient.IoManager.IoReqFsm
import DiscoClient.IoManager.SegCompletion

/-! An IO request with its segments: ioReq_IODone_endfn and the commit to the user, in every interleaving.
-/
namespace DiscoClient
open List

/-- What ioReq_IODone_endfn uses of an IO request, and how often it has been handed to
the done worker. -/
structure IoMdsSide where
  stat : IorFsmState
  ciMdsRemain : Int
  handed : Nat

/-- What ioSReq_commit_user uses of an IO request, and the results ioReq_commit_user has
been called with. -/
structure IoUserSide where
  ioResult : Bool
  ciUserRemain : Int
  commits : List Bool

/-- ioReq_IODone_endfn. -/
def IoMdsSide.ioDoneEndfn (m : IoMdsSide) (numLbs : Nat) : IoMdsSide :=
  let (stat, action) := ioReqUpdateState m.stat .ioSegIoDone
  let m := { m with stat := stat }
  if action ≠ .ioSegIoDoneCiIor then m
  else
    let m := { m with ciMdsRemain := m.ciMdsRemain - numLbs }
    if m.ciMdsRemain ≠ 0 then m
    else
      let (stat, action) := ioReqUpdateState m.stat .rwUDataDone
      let m := { m with stat := stat }
      if action ≠ .doReportMD then m else { m with handed := m.handed + 1 }

/-- The part of ioSReq_commit_user on the IO request. -/
def IoUserSide.commitUser (u : IoUserSide) (call : Bool × Nat) : IoUserSide :=
  let u := { u with ioResult := u.ioResult && call.1, ciUserRemain := u.ciUserRemain - call.2 }
  if u.ciUserRemain = 0 then { u with commits := u.commits ++ [u.ioResult] } else u

structure IoRun where
  segs : List SegReq
  mds : IoMdsSide
  user : IoUserSide

namespace IoRun

def onCall (io : IoRun) : SegCall → IoRun
  | .commitUser r n => { io with user := io.user.commitUser (r, n) }
  | .ioDone n => { io with mds := io.mds.ioDoneEndfn n }

def segStep (io : IoRun) (k : Nat) (e : SegEvent) : IoRun :=
  match io.segs[k]? with
  | none => io
  | some s =>
    let t := segMachine.step s e
    (t.calls.drop s.calls.length).foldl onCall { io with segs := io.segs.set k t }

def start (dir : IoDir) (specs : List (Nat × Bool × Bool)) : IoRun :=
  { segs := specs.map fun p => SegReq.start p.1 dir p.2.1 p.2.2
    mds := ⟨.rwUserData, Int.ofNat (specs.map (·.1)).sum, 0⟩
    user := ⟨true, Int.ofNat (specs.map (·.1)).sum, []⟩ }

def ReadPhasesSafe (io : IoRun) (ev : Nat × SegEvent) : Prop :=
  ∀ s, io.segs[ev.1]? = some s → s.ReadPhaseSafe ev.2

end IoRun

def ioMachine : GuardedMachine IoRun (Nat × SegEvent) where
  enabled io ev := ∃ s, io.segs[ev.1]? = some s ∧ segMachine.enabled s ev.2
  step io ev := io.segStep ev.1 ev.2

namespace SegReq

def owedMds (s : SegReq) : Nat := if s.dones = [] then s.lbLen else 0

def owedUser (s : SegReq) : Nat := if s.commits = [] then s.lbLen else 0

end SegReq

namespace IoRun

theorem foldl_onCall (calls : List SegCall) (io : IoRun) :
    (calls.foldl onCall io).segs = io.segs ∧
    (calls.foldl onCall io).mds = (calls.filterMap SegCall.doneLbs).foldl IoMdsSide.ioDoneEndfn io.mds ∧
    (calls.foldl onCall io).user = (calls.filterMap SegCall.commitOf).foldl IoUserSide.commitUser io.user := by
  induction calls generalizing io with
  | nil => exact ⟨rfl, rfl, rfl⟩
  | cons c calls ih =>
    obtain ⟨h1, h2, h3⟩ := ih (io.onCall c)
    cases c <;> exact ⟨h1, h2, h3⟩

structure Inv (lens : List Nat) (io : IoRun) : Prop where
  lens : io.segs.map (·.lbLen) = lens
  phase : ∀ s ∈ io.segs, s.Phase ∧ 0 < s.lbLen
  mdsRemain : io.mds.ciMdsRemain = (io.segs.map SegReq.owedMds).sum
  mdsStat : io.mds.stat = if io.mds.ciMdsRemain = 0 then .reportMD else .rwUserData
  handed : io.mds.handed = if io.mds.ciMdsRemain = 0 then 1 else 0
  userRemain : io.user.ciUserRemain = (io.segs.map SegReq.owedUser).sum
  commits : io.user.commits.length = if io.user.ciUserRemain = 0 then 1 else 0

theorem Inv.start {dir : IoDir} {specs : List (Nat × Bool × Bool)} (hne : specs ≠ [])
    (hpos : ∀ p ∈ specs, 0 < p.1) (hsingle : ∀ p ∈ specs, dir = .write → p.2.2 = false → p.1 = 1) :
    (start dir specs).Inv (specs.map (·.1)) := by
  have howed (owed : SegReq → Nat) (h : ∀ n d o a, owed (SegReq.start n d o a) = n) :
      ((IoRun.start dir specs).segs.map owed).sum = (specs.map (·.1)).sum := by
    simp only [IoRun.start, map_map]
    refine congrArg List.sum (map_congr_left fun p _ => ?_)
    exact h _ _ _ _
  have hsum : (specs.map (·.1)).sum ≠ 0 := by
    intro h0
    have hnil := (Countdown.sum_eq_zero_iff fun a ha => ?_).mp h0
    · exact hne (map_eq_nil_iff.mp hnil)
    · obtain ⟨p, hp, rfl⟩ := mem_map.mp ha
      exact hpos p hp
  have h0 : (IoRun.start dir specs).mds.ciMdsRemain ≠ 0 := Int.natCast_ne_zero.mpr hsum
  have hu0 : (IoRun.start dir specs).user.ciUserRemain ≠ 0 := Int.natCast_ne_zero.mpr hsum
  refine ⟨?_, ?_, ?_, (if_neg h0).symm, (if_neg h0).symm, ?_, (if_neg hu0).symm⟩
  · simp only [IoRun.start, map_map]
    exact map_congr_left fun p _ => rfl
  · intro s hs
    obtain ⟨p, hp, rfl⟩ := mem_map.mp hs
    exact ⟨.acquiring (SegReq.start_acquiring _ (hsingle p hp)), hpos p hp⟩
  · rw [howed SegReq.owedMds fun _ _ _ _ => rfl]
    rfl
  · rw [howed SegReq.owedUser fun _ _ _ _ => rfl]
    rfl

theorem ioDoneEndfn_eq {m : IoMdsSide} (h : m.stat = .rwUserData) (n : Nat) :
    m.ioDoneEndfn n = ⟨if m.ciMdsRemain - n = 0 then .reportMD else .rwUserData, m.ciMdsRemain - n,
      if m.ciMdsRemain - n = 0 then m.handed + 1 else m.handed⟩ := by
  simp only [IoMdsSide.ioDoneEndfn, h, ioReqUpdateState]
  by_cases h0 : m.ciMdsRemain - n = 0 <;> simp [h0]

theorem commitUser_eq (u : IoUserSide) (call : Bool × Nat) :
    (u.commitUser call).ciUserRemain = u.ciUserRemain - call.2 ∧
    (u.commitUser call).commits.length = u.commits.length + if u.ciUserRemain - call.2 = 0 then 1 else 0 := by
  simp only [IoUserSide.commitUser]
  by_cases h0 : u.ciUserRemain - call.2 = 0 <;> simp [h0]

theorem append_cases {l d l' : List Nat} {n : Nat} (hl : l = [] ∨ l = [n]) (hl' : l' = [] ∨ l' = [n])
    (h : l' = l ++ d) : (d = [] ∧ (l' = [] ↔ l = [])) ∨ (d = [n] ∧ l = [] ∧ l' ≠ []) := by
  rcases hl with rfl | rfl
  · rw [nil_append] at h
    subst h
    rcases hl' with rfl | rfl
    · exact Or.inl ⟨rfl, Iff.rfl⟩
    · exact Or.inr ⟨rfl, rfl, cons_ne_nil _ _⟩
  · rcases hl' with rfl | rfl
    · simp at h
    · left
      simpa using h

private theorem mds_step {lens : List Nat} {io : IoRun} (h : io.Inv lens) {s t : SegReq} {m : IoMdsSide}
    {d : List Nat} {sum : Nat}
    (hlen : 0 < s.lbLen) (hlb : t.lbLen = s.lbLen)
    (hd : (d = [] ∧ (t.dones = [] ↔ s.dones = [])) ∨ (d = [s.lbLen] ∧ s.dones = [] ∧ t.dones ≠ []))
    (hm : m = d.foldl IoMdsSide.ioDoneEndfn io.mds)
    (hsum : sum + s.owedMds = (io.segs.map SegReq.owedMds).sum + t.owedMds) :
    m.ciMdsRemain = sum ∧ m.stat = (if m.ciMdsRemain = 0 then .reportMD else .rwUserData) ∧
    m.handed = if m.ciMdsRemain = 0 then 1 else 0 := by
  have hrem := h.mdsRemain
  rcases hd with ⟨rfl, hiff⟩ | ⟨rfl, hs, ht⟩
  · have howed : t.owedMds = s.owedMds := by
      simp only [SegReq.owedMds, hiff, hlb]
    rw [foldl_nil] at hm
    subst hm
    exact ⟨by omega, h.mdsStat, h.handed⟩
  · have howed : s.owedMds = s.lbLen ∧ t.owedMds = 0 := ⟨if_pos hs, if_neg ht⟩
    -- the segment was owed, so the IO request has not been handed over
    have hne : io.mds.ciMdsRemain ≠ 0 := by omega
    have hstat := h.mdsStat
    have hhanded := h.handed
    rw [if_neg hne] at hstat hhanded
    rw [foldl_cons, foldl_nil, ioDoneEndfn_eq hstat, hhanded] at hm
    subst hm
    refine ⟨?_, rfl, rfl⟩
    simp only
    omega

private theorem user_step {lens : List Nat} {io : IoRun} (h : io.Inv lens) {s t : SegReq} {u : IoUserSide}
    {d : List (Bool × Nat)}
    {sum : Nat} (hlen : 0 < s.lbLen) (hlb : t.lbLen = s.lbLen)
    (hd : (d.map Prod.snd = [] ∧ (t.commits = [] ↔ s.commits = [])) ∨
      (d.map Prod.snd = [s.lbLen] ∧ s.commits = [] ∧ t.commits ≠ []))
    (hu : u = d.foldl IoUserSide.commitUser io.user)
    (hsum : sum + s.owedUser = (io.segs.map SegReq.owedUser).sum + t.owedUser) :
    u.ciUserRemain = sum ∧ u.commits.length = if u.ciUserRemain = 0 then 1 else 0 := by
  have hrem := h.userRemain
  rcases hd with ⟨hd, hiff⟩ | ⟨hd, hs, ht⟩
  · have howed : t.owedUser = s.owedUser := by
      simp only [SegReq.owedUser, hiff, hlb]
    rw [map_eq_nil_iff.mp hd, foldl_nil] at hu
    subst hu
    exact ⟨by omega, h.commits⟩
  · have howed : s.owedUser = s.lbLen ∧ t.owedUser = 0 := ⟨if_pos hs, if_neg ht⟩
    have hne : io.user.ciUserRemain ≠ 0 := by omega
    have hcom := h.commits
    rw [if_neg hne] at hcom
    obtain ⟨call, rfl, hcall⟩ := map_eq_singleton_iff.mp hd
    obtain ⟨h1, h2⟩ := commitUser_eq io.user call
    rw [hcall] at h1 h2
    rw [foldl_cons, foldl_nil] at hu
    subst hu
    refine ⟨by omega, ?_⟩
    rw [h2, h1, hcom, Nat.zero_add]

theorem Inv.step {lens : List Nat} {io : IoRun} (h : io.Inv lens) {ev : Nat × SegEvent}
    (he : (ioMachine.restrict ReadPhasesSafe).enabled io ev) : (ioMachine.step io ev).Inv lens := by
  obtain ⟨⟨s, hget, hen⟩, hsafe⟩ := he
  obtain ⟨hphase, hlen⟩ := h.phase s (mem_of_getElem? hget)
  have hphase' := SegReq.step_phase hphase hlen hen (hsafe s hget)
  obtain ⟨hlb, new, hnew⟩ := SegReq.step_extends s ev.2
  obtain ⟨t, ht⟩ : ∃ t, t = segMachine.step s ev.2 := ⟨_, rfl⟩
  rw [← ht] at hphase' hlb hnew
  have hstep : ioMachine.step io ev = new.foldl onCall { io with segs := io.segs.set ev.1 t } := by
    simp only [ioMachine, segStep, hget, ← ht, ← hnew, drop_left]
  obtain ⟨hsegs, hmds, huser⟩ := foldl_onCall new { io with segs := io.segs.set ev.1 t }
  rw [← hstep] at hsegs hmds huser
  have hdones : t.dones = s.dones ++ new.filterMap SegCall.doneLbs := by
    rw [SegReq.dones, ← hnew, filterMap_append, ← SegReq.dones]
  have hcommits : t.commits = s.commits ++ (new.filterMap SegCall.commitOf).map Prod.snd := by
    rw [SegReq.commits, ← hnew, filterMap_append, map_append, ← SegReq.commits]
  have hout := hphase.outcome
  have hout' := hphase'.outcome
  have hmdsSum := Countdown.sum_set (l := io.segs.map SegReq.owedMds) (k := ev.1) (a := s.owedMds)
    (by simp [hget]) t.owedMds
  have huserSum := Countdown.sum_set (l := io.segs.map SegReq.owedUser) (k := ev.1) (a := s.owedUser)
    (by simp [hget]) t.owedUser
  dsimp only at hsegs hmds huser
  rw [← map_set, ← hsegs] at hmdsSum huserSum
  obtain ⟨io', hio'⟩ : ∃ io', io' = ioMachine.step io ev := ⟨_, rfl⟩
  rw [← hio'] at hsegs hmds huser hmdsSum huserSum ⊢
  have hdone' := hout'.dones
  have hcommit' := hout'.commits
  rw [hlb] at hdone' hcommit'
  obtain ⟨m1, m2, m3⟩ := mds_step h hlen hlb (append_cases hout.dones hdone' hdones) hmds hmdsSum
  obtain ⟨u1, u2⟩ := user_step h hlen hlb (append_cases hout.commits hcommit' hcommits) huser huserSum
  refine ⟨?_, ?_, m1, m2, m3, u1, u2⟩
  · obtain ⟨hlt, hs⟩ := List.getElem?_eq_some_iff.mp hget
    have hsame : (io.segs.set ev.1 t).map (·.lbLen) = (io.segs.set ev.1 s).map (·.lbLen) := by
      rw [map_set, map_set, hlb]
    rw [hsegs, hsame, ← hs, set_getElem_self]
    exact h.lens
  · intro s' hs'
    rw [hsegs] at hs'
    rcases mem_or_eq_of_mem_set hs' with hs' | rfl
    · exact h.phase s' hs'
    · exact ⟨hphase', hlb ▸ hlen⟩

/-- Over every run of an IO request whose read phases end well, with segments as they are made: an unaligned one of
a write has one LB. No segment reads metadata that it has freed itself; what the done worker frees is not part of
this. Each commits to the user and calls ioReq_IODone_endfn at most once, with its LB count, and has done both
when nothing is outstanding for it. The IO request goes to the done worker once, when ciMDS_remainLB reaches 0,
and has done so when every segment has finished; so has its only commit to the user. -/
theorem segments_complete_once (dir : IoDir) (specs : List (Nat × Bool × Bool)) (hne : specs ≠ [])
    (hpos : ∀ p ∈ specs, 0 < p.1) (hsingle : ∀ p ∈ specs, dir = .write → p.2.2 = false → p.1 = 1)
    (es : List (Nat × SegEvent))
    (h : (ioMachine.restrict ReadPhasesSafe).Legal (start dir specs) es) :
    let io := ioMachine.exec (start dir specs) es
    io.segs.map (·.lbLen) = specs.map (·.1) ∧ (∀ s ∈ io.segs, s.Outcome) ∧
    io.mds.handed = (if io.mds.ciMdsRemain = 0 then 1 else 0) ∧
    ((∀ s ∈ io.segs, s.Quiet) → io.mds.ciMdsRemain = 0 ∧ io.mds.handed = 1 ∧ io.user.commits.length = 1) := by
  have hinv : (ioMachine.exec (start dir specs) es).Inv (specs.map (·.1)) :=
    GuardedMachine.exec_invariant (m := ioMachine.restrict ReadPhasesSafe) (Inv.start hne hpos hsingle)
      (fun io ev hio he => hio.step he) h
  intro io
  change io.Inv _ at hinv
  clear_value io
  refine ⟨hinv.lens, fun s hs => (hinv.phase s hs).1.outcome, hinv.handed, fun hq => ?_⟩
  have hzero (owed : SegReq → Nat) (h0 : ∀ s ∈ io.segs, owed s = 0) : (io.segs.map owed).sum = 0 := by
    rw [map_congr_left h0]
    simp
  have hmds : io.mds.ciMdsRemain = 0 := by
    rw [hinv.mdsRemain, hzero SegReq.owedMds fun s hs => ?_]
    · rfl
    · simp [SegReq.owedMds, ((hinv.phase s hs).1.outcome.quiet (hq s hs)).2]
  have huser : io.user.ciUserRemain = 0 := by
    rw [hinv.userRemain, hzero SegReq.owedUser fun s hs => ?_]
    · rfl
    · simp [SegReq.owedUser, ((hinv.phase s hs).1.outcome.quiet (hq s hs)).1]
  exact ⟨hmds, hinv.handed.trans (if_pos hmds), hinv.commits.trans (if_pos huser)⟩

instance (s : SegReq) : Decidable s.Quiet := by
  unfold SegReq.Quiet
  infer_instance

def partialWriteRun (ioRes : Bool) : List (Nat × SegEvent) :=
  [(0, .acquired true [⟨.valid, 1, by decide⟩]), (0, .readEnd 0 ioRes 0)] ++
    if ioRes then [(0, .writeCiUser 0 true), (0, .writeEnd 0)] else []

theorem segments_complete_once_partial_write :
    (ioMachine.restrict ReadPhasesSafe).Legal (start .write [(1, true, false)]) (partialWriteRun true) ∧
    (ioMachine.exec (start .write [(1, true, false)]) (partialWriteRun true)).mds.handed = 1 := by
  have hl : (ioMachine.restrict ReadPhasesSafe).Legal (start .write [(1, true, false)]) (partialWriteRun true) := by
    refine ⟨⟨⟨_, rfl, by decide⟩, ?_⟩, ⟨⟨_, rfl, by decide⟩, ?_⟩, ⟨⟨_, rfl, by decide⟩, ?_⟩,
      ⟨⟨_, rfl, by decide⟩, ?_⟩,
      trivial⟩ <;> rintro s ⟨⟩
    · trivial
    · exact fun _ => rfl
    · trivial
    · trivial
  obtain ⟨-, -, -, hdone⟩ := segments_complete_once .write [(1, true, false)] (by decide) (by decide)
    (by decide) _ hl
  exact ⟨hl, (hdone (by decide)).2.1⟩

/-- A failed read phase: nothing is outstanding, but the IO request is never handed over. -/
theorem read_phase_not_safe :
    ioMachine.Legal (start .write [(1, true, false)]) (partialWriteRun false) ∧
      let io := ioMachine.exec (start .write [(1, true, false)]) (partialWriteRun false)
      (∀ s ∈ io.segs, s.Quiet) ∧ io.mds.ciMdsRemain = 1 ∧ io.mds.handed = 0 :=
  ⟨⟨⟨_, rfl, by decide⟩, ⟨_, rfl, by decide⟩, trivial⟩, by decide⟩

end IoRun
end DiscoClient
