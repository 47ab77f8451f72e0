import DiscoClient.IoManager.IoMergeStep

namespace DiscoClient
open List

variable {rqs : Nat → BlkRq} {n : Nat}

/-- What do_io_batch does with the sectors from an offset of the i-th request on. -/
structure BatchSpec (rqs : Nat → BlkRq) (n i off : Nat) (ref : Nat → Nat) (force : Bool)
    (new : List MergedIo) (b : BatchRes) : Prop where
  cover : slotsFrom rqs n i off = new.flatMap (ioSlots rqs n) ++ leftSlots rqs n b
  exact_ios : ∀ io ∈ new, IoExact rqs n io
  frame : ∀ j, j < i → b.numRefIor j = ref j
  refs : ∀ j, i ≤ j → j < n → b.numRefIor j = (if j = i ∧ 0 < off then ref i - 1 else 0) +
    (new.countP fun io => touches (ioSlots rqs n io) j) +
    (if touches (leftSlots rqs n b) j then 1 else 0)
  refs_le : ∀ j, i ≤ j → j < n → b.numRefIor j ≤ 2
  forced : i = 0 → force = true → new ≠ []
  resumable : Resumable rqs n b

private theorem batchSpec_done {i off start : Nat} {ref : Nat → Nat} {force : Bool} {ios : List MergedIo}
    (hn : 0 < n) (h : n ≤ i) : BatchSpec rqs n i off ref force [] ⟨ios, none, start, ref⟩ where
  cover := slotsFrom_of_le h off
  exact_ios _ hio := absurd hio not_mem_nil
  frame _ _ := rfl
  refs j h1 h2 := by omega
  refs_le j h1 h2 := by omega
  forced h0 := by omega
  resumable r hr := by cases hr

private theorem batchSpec_hold {i off sectS : Nat} {ref : Nat → Nat} {force : Bool} {ios : List MergedIo}
    (hi : i < n) (hoff : off < (rqs i).sectors) (hs : sectS % 2^64 = ((rqs i).pos + off) % 2^64)
    (href : RefsPending n i off ref) {g : MergeRes} (hg : g = getMergeLen rqs i (n - 1) sectS ref)
    {i' off' : Nat} (hstep : GroupStep rqs n i off sectS ref g i' off')
    (hdir : (rqs i).dir = .write) (hshort : g.sectLen < maxSectsPerRq)
    (hall : i + g.mergeLen - 1 = n - 1) (hforce : force = false ∨ i > 0) :
    BatchSpec rqs n i off ref force [] ⟨ios, some i, sectS, g.numRefIor⟩ := by
  have hlast : i + g.mergeLen = n := by
    have := hstep.len_pos
    omega
  have hi' : i' = n := by
    have hindex := hstep.ends.index_eq
    rw [if_neg fun hm => absurd (hstep.shared hm).2 (Nat.ne_of_lt hshort)] at hindex
    omega
  have hleft : leftSlots rqs n ⟨ios, some i, sectS, g.numRefIor⟩ = slotsFrom rqs n i off := by
    simp only [leftSlots]
    rw [offset_eq hoff hs]
  have hval (j : Nat) (h1 : i ≤ j) (h2 : j < n) :
      g.numRefIor j = (if j = i ∧ 0 < off then ref i - 1 else 0) + 1 := hstep.refs j h1 (by omega)
  have hfirst := href.first hi
  refine ⟨by rw [hleft]; rfl, fun _ hio => absurd hio not_mem_nil, hstep.frame, fun j h1 h2 => ?_,
    fun j h1 h2 => ?_, fun h0 hf => ?_, fun r hr => ?_⟩
  · rw [hleft, touches_slotsFrom hoff]
    simp [hval j h1 h2, h1, h2]
  · dsimp only
    rw [hval j h1 h2]
    exact href.first_le hi
  · rcases hforce with hforce | hforce
    · rw [hf] at hforce
      exact absurd hforce (by decide)
    · omega
  · obtain rfl : i = r := Option.some.inj hr
    refine ⟨hi, off, hoff, hs, ⟨fun h => ?_, fun j h1 h2 => ?_⟩, ?_⟩
    · dsimp only
      rw [hval i (le_refl i) hi]
      by_cases h0 : 0 < off
      · rw [if_pos h0] at hfirst ⊢
        rw [if_pos ⟨rfl, h0⟩]
        omega
      · rw [if_neg h0, if_neg fun h => h0 h.2]
    · dsimp only
      rw [hval j (by omega) h2, if_neg (by omega)]
    · rw [hg] at hlast hshort
      exact mergesAsOne_of_short hi hdir hlast hshort

section Cons
variable {i off sectS i' off' : Nat} {ref : Nat → Nat} {g : MergeRes} {force' : Bool}
variable {new : List MergedIo} {b : BatchRes}

private theorem GroupStep.touches_io (hstep : GroupStep rqs n i off sectS ref g i' off') (j : Nat) :
    touches (ioSlots rqs n ⟨i, g.mergeLen, sectS, g.sectLen⟩) j = decide (i ≤ j ∧ j < i + g.mergeLen) := by
  rw [Bool.eq_iff_iff, touches_iff, decide_eq_true_iff]
  exact hstep.exact_io.chunk.members j

private theorem refs_cons (hstep : GroupStep rqs n i off sectS ref g i' off') (hlt : i < i')
    (hrec : BatchSpec rqs n i' off' g.numRefIor force' new b) {j : Nat} (h1 : i ≤ j) (h2 : j < n) :
    b.numRefIor j = (if j = i ∧ 0 < off then ref i - 1 else 0) +
      (List.countP (fun io => touches (ioSlots rqs n io) j) (⟨i, g.mergeLen, sectS, g.sectLen⟩ :: new)) +
      (if touches (leftSlots rqs n b) j then 1 else 0) := by
  rw [countP_cons, hstep.touches_io]
  by_cases hj : j < i'
  · obtain ⟨hcount, hrest⟩ := touches_of_lt hrec.cover hj
    have hin : i ≤ j ∧ j < i + g.mergeLen := ⟨h1, Nat.lt_of_lt_of_le hj hstep.ends.index_le⟩
    rw [hrec.frame j hj, hstep.refs j h1 hj, hcount, hrest]
    simp [hin]
  · have hshare : (if j = i' ∧ 0 < off' then g.numRefIor i' - 1 else 0) =
        if decide (i ≤ j ∧ j < i + g.mergeLen) = true then 1 else 0 := by
      have hiff := hstep.ends.shared_iff j (Nat.le_of_not_lt hj)
      by_cases hnext : j = i' ∧ 0 < off'
      · rw [if_pos hnext, if_pos (decide_eq_true ⟨h1, hiff.mp hnext⟩), hstep.next_ref hnext.2]
      · rw [if_neg hnext, if_neg fun h => hnext (hiff.mpr (of_decide_eq_true h).2)]
    rw [hrec.refs j (Nat.le_of_not_lt hj) h2, if_neg (show ¬ (j = i ∧ 0 < off) by omega), hshare]
    omega

private theorem batchSpec_cons {force : Bool} (hi : i < n) (href : RefsPending n i off ref)
    (hstep : GroupStep rqs n i off sectS ref g i' off') (hlt : i < i') (hrec : BatchSpec rqs n i' off' g.numRefIor force' new b) :
    BatchSpec rqs n i off ref force (⟨i, g.mergeLen, sectS, g.sectLen⟩ :: new) b := by
  refine ⟨?_, ?_, ?_, fun j => refs_cons hstep hlt hrec, ?_, fun _ _ => cons_ne_nil _ _, hrec.resumable⟩
  · rw [hstep.cut, hrec.cover, flatMap_cons, append_assoc]
  · intro io hm
    rcases mem_cons.mp hm with rfl | hm
    · exact hstep.exact_io
    · exact hrec.exact_ios io hm
  · intro j hj
    rw [hrec.frame j (Nat.lt_trans hj hlt), hstep.frame j hj]
  · intro j h1 h2
    by_cases hj : j < i'
    · rw [hrec.frame j hj, hstep.refs j h1 hj]
      exact href.first_le hi
    · exact hrec.refs_le j (Nat.le_of_not_lt hj) h2

end Cons

private theorem next_sectS_mod {i sectS i' off' : Nat} {g : MergeRes} (hend : GroupEnd rqs i sectS g i' off')
    (hpos : 0 < g.mergeLen) (hi' : i' < n) :
    (if decide (i' = i + g.mergeLen - 1 + 1) = true then
      if i' ≤ n - 1 then (rqs i').pos else sectS else (sectS + g.sectLen) % 2^64) % 2^64 =
      ((rqs i').pos + off') % 2^64 := by
  rw [hend.next_sectS hpos hi', Nat.mod_mod]

/-- The loop of do_io_batch, from a position inside the array on. -/
private theorem batchLoop_spec (start : Nat) (fuel i off sectS : Nat) (force : Bool) (ios : List MergedIo)
    (ref : Nat → Nat) (hn : 0 < n) (hfuel : n ≤ i + fuel) (hoff : i < n → off < (rqs i).sectors)
    (hs : i < n → sectS % 2^64 = ((rqs i).pos + off) % 2^64) (href : RefsPending n i off ref) :
    ∃ new, (batchLoop rqs n start fuel i sectS force ios ref).ios = ios ++ new ∧
      BatchSpec rqs n i off ref force new (batchLoop rqs n start fuel i sectS force ios ref) := by
  induction fuel generalizing i off sectS force ios ref with
  | zero => exact ⟨[], (append_nil ios).symm, batchSpec_done hn (by omega)⟩
  | succ fuel ih =>
    rw [batchLoop]
    by_cases hlast : n ≤ i
    · rw [if_neg (by omega)]
      exact ⟨[], (append_nil ios).symm, batchSpec_done hn hlast⟩
    have hi : i < n := by omega
    obtain ⟨i', off', hstep⟩ := group_step hi (hoff hi) (hs hi) href
    obtain ⟨g, hg⟩ : ∃ g, g = getMergeLen rqs i (n - 1) sectS ref := ⟨_, rfl⟩
    rw [← hg] at hstep
    rw [if_pos (by omega)]
    simp only [← hg]
    by_cases hhold : ((rqs i).dir = .write ∧ g.sectLen < maxSectsPerRq ∧ i + g.mergeLen - 1 = n - 1) ∧
        ¬ (i = 0 ∧ n = maxNumRqsMerge) ∧ (force = false ∨ i > 0)
    · rw [if_pos hhold]
      obtain ⟨⟨hdir, hshort, hall⟩, -, hforce⟩ := hhold
      exact ⟨[], (append_nil ios).symm,
        batchSpec_hold hi (hoff hi) (hs hi) href hg hstep hdir hshort hall hforce⟩
    have hlt := hstep.ends.lt_index hstep.len_pos fun h => (hstep.shared h).1
    rw [if_neg hhold, hstep.ends.index_eq]
    obtain ⟨new, hios, hrec⟩ := ih i' off' _ _ (ios ++ [⟨i, g.mergeLen, sectS, g.sectLen⟩]) g.numRefIor
      (by omega) (fun _ => hstep.ends.off_lt) (next_sectS_mod hstep.ends hstep.len_pos) hstep.pending
    refine ⟨⟨i, g.mergeLen, sectS, g.sectLen⟩ :: new, ?_, batchSpec_cons hi href hstep hlt hrec⟩
    rw [hios, append_assoc, singleton_append]

/-- The IO requests that do_io_batch submits and the suffix it leaves cover the pending sectors once and in
order; each is contiguous, of one direction and at most 256 sectors long; a reference count is the number of
IO requests that touch the request, with the one still to be built and an earlier one that began the first
request and still holds its reference; and force_io submits something. -/
theorem do_io_batch_exact (rqs : Nat → BlkRq) (n off sectStart : Nat) (force : Bool) (ref : Nat → Nat)
    (hn : 0 < n) (hoff : off < (rqs 0).sectors) (hs : sectStart = ((rqs 0).pos + off) % 2^64)
    (href : RefsPending n 0 off ref) :
    let b := doIoBatch rqs n sectStart force ref
    slotsFrom rqs n 0 off = b.ios.flatMap (ioSlots rqs n) ++ leftSlots rqs n b ∧
    (∀ io ∈ b.ios, IoExact rqs n io) ∧
    (∀ j, j < n → b.numRefIor j ≤ 2 ∧ b.numRefIor j = (if j = 0 ∧ 0 < off then ref 0 - 1 else 0) +
      (b.ios.countP fun io => touches (ioSlots rqs n io) j) +
      (if touches (leftSlots rqs n b) j then 1 else 0)) ∧
    (force = true → b.ios ≠ []) ∧ Resumable rqs n b := by
  intro b
  obtain ⟨new, hios, hspec⟩ := @batchLoop_spec rqs n sectStart (n + 1) 0 off sectStart force [] ref hn
    (by omega) (fun _ => hoff) (fun _ => by rw [hs, Nat.mod_mod]) href
  have hb : b.ios = new := hios.trans (nil_append new)
  rw [hb]
  exact ⟨hspec.cover, hspec.exact_ios,
    fun j hj => ⟨hspec.refs_le j (Nat.zero_le j) hj, hspec.refs j (Nat.zero_le j) hj⟩,
    hspec.forced rfl, hspec.resumable⟩

private def twoWrites (j : Nat) : BlkRq :=
  if j = 0 then ⟨0, 200, .write, by decide, by decide, by decide⟩
  else ⟨200, 100, .write, by decide, by decide, by decide⟩

/-- The first 56 sectors of the first write went into an earlier IO request, which has already been committed. -/
theorem do_io_batch_exact_two_writes :
    let b := doIoBatch twoWrites 2 56 true (Function.update (fun _ => 0) 0 1)
    b.ios = [⟨0, 2, 56, 244⟩] ∧ b.numRefIor 0 = 1 ∧ b.numRefIor 1 = 1 := by
  have href : RefsPending 2 0 56 (Function.update (fun _ => 0) 0 1) :=
    ⟨fun _ => ⟨by decide, by decide⟩, fun j hj hj' => by rw [show j = 1 by omega]; decide⟩
  obtain ⟨-, -, hrefs, -⟩ := do_io_batch_exact twoWrites 2 56 56 true (Function.update (fun _ => 0) 0 1) (by decide)
    (by decide) rfl href
  exact ⟨by decide, (hrefs 0 (by decide)).2.trans (by decide), (hrefs 1 (by decide)).2.trans (by decide)⟩

end DiscoClient
