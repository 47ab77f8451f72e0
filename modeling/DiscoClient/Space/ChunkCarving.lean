import DiscoClient.Space.SpaceChunk
import DiscoClient.Lib.Consecutive
import DiscoClient.Lib.GuardedMachine

namespace DiscoClient
open List

/-- A chunk as the name node grants it: its ranges are runs of 64-bit HBIDs and 32-bit offsets. -/
structure ChunkRange where
  chunkID : Nat
  len : Nat
  hbidS : Nat
  dnLoc : List McacheDnloc
  len_lt : len < 2 ^ 32
  hbid_lt : hbidS < 2 ^ 64
  hbid_le : hbidS + len ≤ 2 ^ 64
  offset_lt : ∀ loc ∈ dnLoc, loc.offset < 2 ^ 32
  offset_le : ∀ loc ∈ dnLoc, loc.offset + len ≤ 2 ^ 32

structure ChunkRun where
  chunk : FsChunk
  carved : List AsChunk
  reported : List Nat
  deriving DecidableEq, Repr

namespace ChunkRun

def start (r : ChunkRange) : ChunkRun := ⟨fschunkInitChunk r.chunkID r.len r.hbidS r.dnLoc, [], []⟩

inductive Event where
  | alloc (lbS lbLen : Nat) (mem : Bool)
  | inval
  | report
  | cleanup
  deriving DecidableEq, Repr

def step (s : ChunkRun) : Event → ChunkRun
  | .alloc lbS lbLen mem =>
    let t := s.chunk.allocSpace lbS lbLen mem
    { s with chunk := t.1, carved := s.carved ++ t.2.toList }
  | .inval => { s with chunk := s.chunk.invalidateChunk.1 }
  | .report =>
    let t := s.chunk.reportUnuse
    { s with chunk := t.1, reported := s.reported ++ t.2.toList }
  | .cleanup => { s with chunk := s.chunk.cleanupChunk.1 }

/-- The pool frees a chunk with its last LB; IO requests ask for at most maxLbsPerIor LBs. -/
def enabled (s : ChunkRun) (e : Event) : Prop :=
  (s.carved = [] ∨ 0 < s.chunk.chunkLen) ∧
    match e with
    | .alloc _ lbLen _ => lbLen < 2 ^ 31
    | _ => True

def machine : GuardedMachine ChunkRun Event := ⟨enabled, step⟩

instance (s : ChunkRun) : ∀ e, Decidable (machine.enabled s e)
  | .alloc _ lbLen _ => inferInstanceAs (Decidable ((s.carved = [] ∨ 0 < s.chunk.chunkLen) ∧ lbLen < 2 ^ 31))
  | .inval | .report | .cleanup => inferInstanceAs (Decidable ((s.carved = [] ∨ 0 < s.chunk.chunkLen) ∧ True))

def used (s : ChunkRun) : Nat := (s.carved.map (·.lbLen)).sum

def Apart (start₁ len₁ start₂ len₂ : Nat) : Prop :=
  ∀ k, ¬(start₁ ≤ k ∧ k < start₁ + len₁ ∧ start₂ ≤ k ∧ k < start₂ + len₂)

def offsetOf (i : Nat) (a : AsChunk) : Nat := (a.chunkDNLoc[i]?.map (·.offset)).getD 0

def HasHbid (a : AsChunk) (k : Nat) : Prop := a.hbidS ≤ k ∧ k < a.hbidS + a.lbLen

structure Carves (r : ChunkRange) (s : ChunkRun) : Prop where
  hbid_disjoint : s.carved.Pairwise fun a b => Apart a.hbidS a.lbLen b.hbidS b.lbLen
  offset_disjoint : ∀ i < r.dnLoc.length,
    s.carved.Pairwise fun a b => Apart (offsetOf i a) a.lbLen (offsetOf i b) b.lbLen
  left : s.used + s.chunk.chunkLen = r.len
  hbid_tiled : Consecutive (·.hbidS) (·.lbLen) r.hbidS s.carved (r.hbidS + s.used)
  hbid_left : 0 < s.chunk.chunkLen → s.chunk.hbidS = r.hbidS + s.used
  same_replica : ∀ (i : Nat) (loc : McacheDnloc), r.dnLoc[i]? = some loc → ∀ a ∈ s.carved,
    a.chunkDNLoc[i]? = some { loc with offset := offsetOf i a }
  offset_tiled : ∀ (i : Nat) (loc : McacheDnloc), r.dnLoc[i]? = some loc →
    Consecutive (offsetOf i) (·.lbLen) loc.offset s.carved (loc.offset + s.used)
  offset_left : 0 < s.chunk.chunkLen → ∀ (i : Nat) (loc : McacheDnloc), r.dnLoc[i]? = some loc →
    s.chunk.chunkDNLoc[i]? = some { loc with offset := loc.offset + s.used }
  reported_first : ∀ v ∈ s.reported, (∀ a ∈ s.carved, ¬HasHbid a v) ∧
    ∀ k, r.hbidS ≤ k → k < v → ∃ a ∈ s.carved, HasHbid a k

structure Inv (r : ChunkRange) (s : ChunkRun) : Prop where
  atRest : s.chunk.AtRest
  left : s.used + s.chunk.chunkLen = r.len
  hbid : s.chunk.hbidS = (r.hbidS + s.used) % 2 ^ 64
  locs : s.chunk.chunkDNLoc = r.dnLoc.map fun loc => { loc with offset := (loc.offset + s.used) % 2 ^ 32 }
  carved : Consecutive (·.hbidS) (·.lbLen) r.hbidS s.carved (r.hbidS + s.used)
  carvedLocs : ∀ a ∈ s.carved,
    a.chunkDNLoc = r.dnLoc.map fun loc => { loc with offset := loc.offset + (a.hbidS - r.hbidS) }
  reported : ∀ v ∈ s.reported, v = r.hbidS + s.used ∧ ¬s.chunk.IsFree

section Step
variable {r : ChunkRange} {s : ChunkRun}

theorem inv_start (r : ChunkRange) : Inv r (start r) where
  atRest := FsChunk.atRest_init _ _ _ _
  left := Nat.zero_add _
  hbid := (Nat.mod_eq_of_lt r.hbid_lt).symm
  locs := by
    refine (map_id' _).symm.trans (map_congr_left fun loc hloc => ?_)
    change loc = { loc with offset := loc.offset % 2 ^ 32 }
    rw [Nat.mod_eq_of_lt (r.offset_lt loc hloc)]
  carved := rfl
  carvedLocs := fun _ h => absurd h not_mem_nil
  reported := fun _ h => absurd h not_mem_nil

section

variable (h : Inv r s)
include h

theorem Inv.front (hlive : s.carved = [] ∨ 0 < s.chunk.chunkLen) :
    s.chunk.hbidS = r.hbidS + s.used ∧
      s.chunk.chunkDNLoc = r.dnLoc.map fun loc => { loc with offset := loc.offset + s.used } := by
  have hleft := h.left
  have hhbid := r.hbid_le
  rcases hlive with hnil | hpos
  · have hzero : s.used = 0 := by rw [used, hnil]; rfl
    rw [h.hbid, h.locs, hzero]
    refine ⟨Nat.mod_eq_of_lt r.hbid_lt, map_congr_left fun loc hloc => ?_⟩
    rw [Nat.add_zero, Nat.mod_eq_of_lt (r.offset_lt loc hloc)]
  · rw [h.hbid, h.locs]
    refine ⟨Nat.mod_eq_of_lt (by omega), map_congr_left fun loc hloc => ?_⟩
    have := r.offset_le loc hloc
    rw [Nat.mod_eq_of_lt (by omega)]

theorem Inv.of_state {chunk' : FsChunk} (hlen : chunk'.chunkLen = s.chunk.chunkLen)
    (hhbid : chunk'.hbidS = s.chunk.hbidS) (hlocs : chunk'.chunkDNLoc = s.chunk.chunkDNLoc)
    (hrest : chunk'.AtRest) (hfree : chunk'.IsFree → s.chunk.IsFree) : Inv r { s with chunk := chunk' } where
  atRest := hrest
  left := by rw [← h.left, ← hlen]; rfl
  hbid := hhbid.trans h.hbid
  locs := hlocs.trans h.locs
  carved := h.carved
  carvedLocs := h.carvedLocs
  reported := fun v hv => ⟨(h.reported v hv).1, fun hf => (h.reported v hv).2 (hfree hf)⟩

theorem Inv.alloc (hlive : s.carved = [] ∨ 0 < s.chunk.chunkLen) (lbS lbLen : Nat) (mem : Bool)
    (hreq : lbLen < 2 ^ 31) : Inv r (s.step (.alloc lbS lbLen mem)) := by
  cases mem with
  | false => simpa [step, FsChunk.allocSpace_noMem] using h
  | true =>
    by_cases hfree : s.chunk.IsFree
    · obtain ⟨hhbid, hlocs⟩ := h.front hlive
      have hlen : s.chunk.chunkLen < 2 ^ 32 := lt_of_le_of_lt (h.left ▸ Nat.le_add_left _ _) r.len_lt
      obtain ⟨chunk', a, halloc, hcarved, hmoved⟩ := FsChunk.allocSpace_free h.atRest hfree hlen lbS lbLen
      obtain ⟨hhbid', hlocs'⟩ := hmoved hreq
      obtain ⟨n, hn⟩ : ∃ n, n = s.chunk.taken lbLen := ⟨_, rfl⟩
      rw [← hn] at hcarved hhbid' hlocs'
      have hs : s.step (.alloc lbS lbLen true) = ⟨chunk', s.carved ++ [a], s.reported⟩ := by
        simp [step, halloc]
      have hused : used ⟨chunk', s.carved ++ [a], s.reported⟩ = s.used + n := by
        simp [used, hcarved.given]
      rw [hs]
      have hleft := h.left
      have hcut := hcarved.len
      refine ⟨h.atRest.of_state hcarved.state, ?_, ?_, ?_, ?_, ?_, ?_⟩
      · rw [hused]
        change s.used + n + chunk'.chunkLen = r.len
        omega
      · rw [hused]
        change chunk'.hbidS = _
        rw [hhbid', hhbid, Nat.add_assoc]
      · rw [hused]
        change chunk'.chunkDNLoc = _
        rw [hlocs', hlocs, map_map]
        refine map_congr_left fun loc _ => ?_
        simp only [Function.comp, Nat.add_assoc]
      · rw [hused]
        have hcons := h.carved.concat (x := a) (by rw [hcarved.given]; exact hhbid)
        rw [hcarved.given] at hcons ⊢
        rwa [Nat.add_assoc] at hcons
      · intro b hb
        rcases mem_append.mp hb with hb | hb
        · exact h.carvedLocs b hb
        · obtain rfl : b = a := by simpa using hb
          rw [hcarved.given]
          change s.chunk.chunkDNLoc = _
          rw [hlocs, hhbid, Nat.add_sub_cancel_left]
      · intro v hv
        exact absurd hfree (h.reported v hv).2
    · have hs : s.step (.alloc lbS lbLen true) = s := by
        simp [step, FsChunk.allocSpace_notFree h.atRest hfree]
      rw [hs]
      exact h

theorem Inv.inval : Inv r (s.step .inval) := by
  refine h.of_state ?_ ?_ ?_ h.atRest.invalidateChunk ?_ <;> rw [FsChunk.invalidateChunk_eq h.atRest] <;>
    split_ifs with hfree
  all_goals first | rfl | exact fun _ => hfree | exact fun h => h

theorem Inv.cleanup : Inv r (s.step .cleanup) := by
  refine h.of_state ?_ ?_ ?_ h.atRest.cleanupChunk ?_ <;> rw [FsChunk.cleanupChunk_eq h.atRest] <;>
    split_ifs with hst
  all_goals first | rfl | exact fun h => h | exact fun h => absurd h (by simp [FsChunk.IsFree])

theorem Inv.report (hlive : s.carved = [] ∨ 0 < s.chunk.chunkLen) : Inv r (s.step .report) := by
  by_cases hst : s.chunk.chunkState.chunkStat = .invalidated
  · have hs : s.step .report =
        { s with chunk := { s.chunk with chunkState := ⟨.reporting, 0⟩ },
                 reported := s.reported ++ [s.chunk.hbidS] } := by
      simp [step, FsChunk.reportUnuse_eq h.atRest, hst]
    rw [hs]
    refine ⟨⟨rfl, by simp⟩, h.left, h.hbid, h.locs, h.carved, h.carvedLocs, ?_⟩
    intro v hv
    refine ⟨?_, by simp [FsChunk.IsFree]⟩
    rcases mem_append.mp hv with hv | hv
    · exact (h.reported v hv).1
    · rw [mem_singleton.mp hv]
      exact (h.front hlive).1
  · have hs : s.step .report = s := by simp [step, FsChunk.reportUnuse_eq h.atRest, hst]
    rw [hs]
    exact h

theorem Inv.step {e : Event} (he : s.enabled e) : Inv r (s.step e) := by
  cases e with
  | alloc lbS lbLen mem => exact h.alloc he.1 lbS lbLen mem he.2
  | inval => exact h.inval
  | report => exact h.report he.1
  | cleanup => exact h.cleanup

end

theorem exec_inv (r : ChunkRange) {es : List Event} (h : machine.Legal (start r) es) :
    Inv r (machine.exec (start r) es) :=
  GuardedMachine.exec_invariant (m := machine) (I := Inv r) (inv_start r) (fun _ _ ht he => ht.step he) h

theorem carved_of_not_free {es : List Event} (hrest : s.chunk.AtRest) (hfree : ¬s.chunk.IsFree) :
    (machine.exec s es).carved = s.carved := by
  induction es generalizing s with
  | nil => rfl
  | cons e es ih =>
    rw [GuardedMachine.exec_cons]
    change (machine.exec (s.step e) es).carved = _
    cases e with
    | alloc lbS lbLen mem =>
      have hs : s.step (.alloc lbS lbLen mem) = s := by simp [step, FsChunk.allocSpace_notFree hrest hfree]
      rw [hs]
      exact ih hrest hfree
    | inval =>
      have hs : s.step .inval = s := by simp [step, FsChunk.invalidateChunk_eq hrest, hfree]
      rw [hs]
      exact ih hrest hfree
    | report =>
      refine ih hrest.reportUnuse ?_
      change ¬FsChunk.IsFree s.chunk.reportUnuse.1
      rw [FsChunk.reportUnuse_eq hrest]
      split_ifs
      · simp [FsChunk.IsFree]
      · exact hfree
    | cleanup =>
      refine ih hrest.cleanupChunk ?_
      change ¬FsChunk.IsFree s.chunk.cleanupChunk.1
      rw [FsChunk.cleanupChunk_eq hrest]
      split_ifs
      · simp [FsChunk.IsFree]
      · exact hfree

theorem not_free_inval (hrest : s.chunk.AtRest) : ¬(s.step .inval).chunk.IsFree := by
  change ¬FsChunk.IsFree s.chunk.invalidateChunk.1
  rw [FsChunk.invalidateChunk_eq hrest]
  split_ifs with hfree
  · simp [FsChunk.IsFree]
  · exact hfree

theorem Apart.of_le {s₁ l₁ s₂ l₂ : Nat} (h : s₁ + l₁ ≤ s₂) : Apart s₁ l₁ s₂ l₂ := by
  intro k hk
  omega

theorem Inv.offsetOf_eq (h : Inv r s) {i : Nat} {loc : McacheDnloc} (hloc : r.dnLoc[i]? = some loc) {a : AsChunk}
    (ha : a ∈ s.carved) : offsetOf i a = loc.offset + (a.hbidS - r.hbidS) := by
  rw [offsetOf, h.carvedLocs a ha, List.getElem?_map, hloc]
  rfl

theorem Inv.offset_tiled (h : Inv r s) {i : Nat} {loc : McacheDnloc} (hloc : r.dnLoc[i]? = some loc) :
    Consecutive (offsetOf i) (·.lbLen) loc.offset s.carved (loc.offset + s.used) := by
  refine h.carved.shift r.hbidS loc.offset (fun a ha => ?_) (Nat.add_comm _ _) (by omega)
  have hle := (h.carved.bounds ha).1
  rw [h.offsetOf_eq hloc ha]
  omega

theorem Inv.carves (h : Inv r s) : Carves r s where
  hbid_disjoint := h.carved.pairwise.imp Apart.of_le
  offset_disjoint := by
    intro i hi
    exact (h.offset_tiled (List.getElem?_eq_getElem hi)).pairwise.imp Apart.of_le
  left := h.left
  hbid_tiled := h.carved
  hbid_left := fun hpos => (h.front (Or.inr hpos)).1
  same_replica := by
    intro i loc hloc a ha
    rw [h.offsetOf_eq hloc ha, h.carvedLocs a ha, List.getElem?_map, hloc]
    rfl
  offset_tiled := fun _ _ hloc => h.offset_tiled hloc
  offset_left := by
    intro hpos i loc hloc
    rw [(h.front (Or.inr hpos)).2, List.getElem?_map, hloc]
    rfl
  reported_first := by
    intro v hv
    obtain ⟨rfl, -⟩ := h.reported v hv
    refine ⟨fun a ha hk => ?_, fun k hk hlt => h.carved.cover hk hlt⟩
    have := (h.carved.bounds ha).2
    exact absurd hk.2 (Nat.not_lt.mpr this)

end Step

/-- In every run the space carved from a chunk and what is left of it are the chunk, each part once; the
unused HBID reported is the first that was never given away, and nothing is given away after an
invalidation. -/
theorem no_double_allocation (r : ChunkRange) (es : List Event) (h : machine.Legal (start r) es) :
    Carves r (machine.exec (start r) es) ∧
      ∀ es₁ es₂, es = es₁ ++ .inval :: es₂ →
        (machine.exec (start r) es).carved = (machine.exec (start r) es₁).carved := by
  refine ⟨(exec_inv r h).carves, ?_⟩
  rintro es₁ es₂ rfl
  have hrest := (exec_inv r ((machine.legal_append _ es₁ _).mp h).1).atRest
  rw [machine.exec_append, machine.exec_cons]
  exact carved_of_not_free hrest.invalidateChunk (not_free_inval hrest)

def twoReplicas : List McacheDnloc := [⟨1, 20100, 70, 100⟩, ⟨2, 20100, 71, 4000⟩]

theorem twoReplicas_offset : ∀ loc ∈ twoReplicas, loc.offset < 2 ^ 32 ∧ loc.offset + 40 ≤ 2 ^ 32 := by decide

def sampleChunk : ChunkRange :=
  ⟨5, 40, 9000, twoReplicas, Nat.le_of_ble_eq_true rfl, Nat.le_of_ble_eq_true rfl, Nat.le_of_ble_eq_true rfl,
    fun loc h => (twoReplicas_offset loc h).1, fun loc h => (twoReplicas_offset loc h).2⟩

def sampleOps : List Event :=
  [.alloc 0 8 true, .alloc 100 33 false, .alloc 100 16 true, .inval, .alloc 200 1 true, .report, .cleanup]

theorem no_double_allocation_two_requests :
    machine.Legal (start sampleChunk) sampleOps ∧
      (machine.exec (start sampleChunk) sampleOps).carved.map (·.lbLen) = [8, 16] ∧
      (machine.exec (start sampleChunk) sampleOps).reported = [9024] ∧
      Carves sampleChunk (machine.exec (start sampleChunk) sampleOps) :=
  ⟨by decide, by decide, by decide, (no_double_allocation sampleChunk sampleOps (by decide)).1⟩

end ChunkRun
end DiscoClient
