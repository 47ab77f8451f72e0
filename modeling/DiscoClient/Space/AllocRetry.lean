import DiscoClient.Space.PoolAllocation

/-! When fspool_alloc_space ends. It starts over without memory, which it also believes when the first chunk
cannot be allocated from, and when num_alloc_unit, read without a lock, is above the flush limit. -/
namespace DiscoClient
open SpacePool

def AllocMem.plenty : AllocMem := ⟨true, [], []⟩

def freeFront (chunks : List FsChunk) : Nat := freeLen (chunks.takeWhile fun chunk => chunk.IsFree)

namespace SpacePool

/-- A call that nobody else disturbs, after n passes, which read what others leave of num_alloc_unit: they
flush and remove allocated chunks meanwhile. -/
def allocRetry (lbS lbLen : Nat) : (Nat → Nat) → Nat → AllocProgress → SpacePool → AllocOutcome
  | _, 0, t, _ => .asleep t
  | units, n + 1, t, pool =>
    let s := pool.allocUnderLock lbS lbLen t .plenty
    if s.2.allocRet = .enomem ∨ flushNumAschunk < units 0 then allocRetry lbS lbLen (fun k => units (k + 1)) n s.2 s.1
    else .returned s.2

end SpacePool

/-! ### One pass -/

section
variable {chunk : FsChunk} {chunks : List FsChunk}

theorem freeFront_cons_free (h : chunk.IsFree) : freeFront (chunk :: chunks) = chunk.chunkLen + freeFront chunks := by
  rw [freeFront, List.takeWhile_cons, if_pos (decide_eq_true h), freeLen_cons, freePart_free h]
  rfl

theorem freeFront_cons_notFree (h : ¬chunk.IsFree) : freeFront (chunk :: chunks) = 0 := by
  rw [freeFront, List.takeWhile_cons, if_neg (by simpa using h)]
  rfl

theorem SpacePool.Takes.freeFront {mem : AllocMem} {k lbS n : Nat} {chunk' : FsChunk} {rest : List FsChunk} {a : AsChunk}
    (ht : Takes mem k lbS n chunks chunk chunk' rest a) :
    freeFront (if chunk'.chunkLen = 0 then rest else chunk' :: rest) + n = freeFront chunks := by
  have hfree : chunk'.IsFree := by rw [FsChunk.IsFree, ht.carved.state]; exact ht.gives.2
  have hlen := ht.carved.len
  rw [ht.pool, freeFront_cons_free ht.gives.2]
  split_ifs with hzero
  · omega
  · rw [freeFront_cons_free hfree]
    omega

end

namespace SpacePool
variable {pool : SpacePool} {lbS lbLen : Nat} {t : AllocProgress}

/-- A pass gives all LBs if the chunks in front have them, and stops at a chunk that cannot give any
otherwise. -/
structure Passed (pool : SpacePool) (remain : Nat) (out : SpacePool × SpaceMetadata × AllocRet) : Prop where
  inv : Inv out.1
  done : remain ≤ freeFront pool.spaceChunkPool → out.2.2 = .ok ∧
    freeFront out.1.spaceChunkPool + remain = freeFront pool.spaceChunkPool ∧
    out.1.fsSizeRemaining + remain = pool.fsSizeRemaining
  stopped : freeFront pool.spaceChunkPool < remain → out.2.2 = .enomem ∧ freeFront out.1.spaceChunkPool = 0

theorem RoundsRun.passed {k remain : Nat} {md : SpaceMetadata} {out : SpacePool × SpaceMetadata × AllocRet}
    (hrun : RoundsRun rounds .plenty k lbS remain pool md out) (h : Inv pool) (hpos : 0 < remain)
    (hle : remain ≤ pool.fsSizeRemaining) : Passed pool remain out := by
  induction hrun with
  | empty hpool => exact absurd hpool (h.chunks_ne_nil (hpos.trans_le hle))
  | @stuck _ _ _ pool _ chunk rest hpool hnot =>
    change pool.spaceChunkPool = chunk :: rest at hpool
    have hnone : freeFront pool.spaceChunkPool = 0 := by
      rw [hpool]
      exact freeFront_cons_notFree fun hisFree => hnot ⟨rfl, hisFree⟩
    exact ⟨h, fun henough => by omega, fun _ => ⟨rfl, hnone⟩⟩
  | @more k lbS remain pool md chunk chunk' rest a out ht hempty hmore hitem hrun ih =>
    -- the other chunks have the rest
    change Takes _ k lbS chunk.chunkLen pool.spaceChunkPool chunk chunk' rest a at ht
    have hrem := ht.remaining h (by omega) a.commitChunk rfl
    have hfront := ht.freeFront
    change freeFront (pool.takeFrom chunk' rest a.commitChunk).spaceChunkPool + _ = _ at hfront
    change Inv (pool.takeFrom chunk' rest a.commitChunk) → _ → _ ≤ (pool.takeFrom _ _ _).fsSizeRemaining →
      Passed (pool.takeFrom _ _ _) _ out at ih
    have hpass := ih (h.takeFrom ht rfl) (by omega) (by omega)
    refine ⟨hpass.inv, fun henough => ?_, fun hshort => hpass.stopped (by omega)⟩
    obtain ⟨hok, hleft, hremaining⟩ := hpass.done (by omega)
    exact ⟨hok, by omega, by omega⟩
  | @last k lbS remain pool md chunk chunk' rest a ht hchunk hitem =>
    change Takes _ k lbS remain pool.spaceChunkPool chunk chunk' rest a at ht
    have hfront := ht.freeFront
    exact ⟨h.takeFrom ht rfl, fun _ => ⟨rfl, hfront, ht.remaining h hle a.commitChunk rfl⟩, fun hshort => by omega⟩
  | itemless ht hitem => cases hitem

theorem allocSpace_passed (md : SpaceMetadata) (lbS : Nat) (h : Inv pool) (hpos : 0 < lbLen) (hle : lbLen ≤ pool.fsSizeRemaining) :
    Passed pool lbLen (pool.allocSpace md lbS lbLen .plenty) :=
  (allocSpaceOn_run rounds md lbS h.settled (hle.trans_lt h.remaining_lt) rfl).passed h hpos hle

/-! ### All passes -/

theorem allocRetry_ret_ne (units : Nat → Nat) (n : Nat) {t' : AllocProgress} (hshort : pool.fsSizeRemaining < lbLen ∨ t.ret ≠ .ok)
    (h : allocRetry lbS lbLen units n t pool = .returned t') : t'.ret ≠ .ok := by
  induction n generalizing units t pool with
  | zero => cases h
  | succ n ih =>
    have hkeep : (pool.allocUnderLock lbS lbLen t .plenty).2.ret ≠ .ok := by
      rw [allocUnderLock]
      split_ifs with hle
      · exact hshort.resolve_left (Nat.not_lt.mpr hle)
      · exact SpoolAllocSpaceResp.noConfusion
      · exact SpoolAllocSpaceResp.noConfusion
    rw [allocRetry] at h
    split_ifs at h
    · exact ih _ (.inr hkeep) h
    · obtain rfl := AllocOutcome.returned.inj h
      exact hkeep

theorem allocRetry_stuck (units : Nat → Nat) (n : Nat) (h : Inv pool) (hfront : freeFront pool.spaceChunkPool < lbLen)
    (hmem : lbLen ≤ pool.fsSizeRemaining ∨ t.allocRet = .enomem) : ∃ t', allocRetry lbS lbLen units n t pool = .asleep t' := by
  induction n generalizing units t pool with
  | zero => exact ⟨t, rfl⟩
  | succ n ih =>
    have hstep : Inv (pool.allocUnderLock lbS lbLen t .plenty).1 ∧
        freeFront (pool.allocUnderLock lbS lbLen t .plenty).1.spaceChunkPool < lbLen ∧
        (pool.allocUnderLock lbS lbLen t .plenty).2.allocRet = .enomem := by
      rw [allocUnderLock]
      split_ifs with hle
      · have hpass := allocSpace_passed t.arrMD lbS h (Nat.zero_lt_of_lt hfront) hle
        obtain ⟨hret, hnone⟩ := hpass.stopped hfront
        exact ⟨hpass.inv, hnone ▸ Nat.zero_lt_of_lt hfront, hret⟩
      · exact ⟨h, hfront, hmem.resolve_left hle⟩
      · exact ⟨h, hfront, hmem.resolve_left hle⟩
    obtain ⟨hinv, hless, hret⟩ := hstep
    rw [allocRetry, if_pos (.inl hret)]
    exact ih _ hinv hless (.inr hret)

theorem allocUnderLock_enough (lbS : Nat) (t : AllocProgress) (h : Inv pool) (hpos : 0 < lbLen) (hle : lbLen ≤ pool.fsSizeRemaining)
    (hfront : lbLen ≤ freeFront pool.spaceChunkPool) :
    Inv (pool.allocUnderLock lbS lbLen t .plenty).1 ∧
      (pool.allocUnderLock lbS lbLen t .plenty).2.allocRet = .ok ∧
      (pool.allocUnderLock lbS lbLen t .plenty).2.ret = t.ret ∧
      freeFront (pool.allocUnderLock lbS lbLen t .plenty).1.spaceChunkPool + lbLen = freeFront pool.spaceChunkPool ∧
      (pool.allocUnderLock lbS lbLen t .plenty).1.fsSizeRemaining + lbLen = pool.fsSizeRemaining := by
  have hpass := allocSpace_passed t.arrMD lbS h hpos hle
  obtain ⟨hok, hleft, hrem⟩ := hpass.done hfront
  rw [allocUnderLock, if_pos hle]
  exact ⟨hpass.inv, hok, rfl, hleft, hrem⟩

def SucceedsIn (lbS lbLen : Nat) (units : Nat → Nat) (n : Nat) (t : AllocProgress) (pool : SpacePool) : Prop :=
  ∃ t', allocRetry lbS lbLen units n t pool = .returned t' ∧ t'.ret = .ok

theorem succeedsIn_succ (units : Nat → Nat) (n : Nat) (h : Inv pool) (hpos : 0 < lbLen) (ht : t.ret = .ok) :
    SucceedsIn lbS lbLen units (n + 1) t pool ↔
      lbLen ≤ freeFront pool.spaceChunkPool ∧ lbLen ≤ pool.fsSizeRemaining ∧
        (units 0 ≤ flushNumAschunk ∨ SucceedsIn lbS lbLen (fun k => units (k + 1)) n
          (pool.allocUnderLock lbS lbLen t .plenty).2 (pool.allocUnderLock lbS lbLen t .plenty).1) := by
  by_cases hle : lbLen ≤ pool.fsSizeRemaining
  · by_cases hfront : lbLen ≤ freeFront pool.spaceChunkPool
    · obtain ⟨-, hok, hkeep, -⟩ := allocUnderLock_enough lbS t h hpos hle hfront
      have hmem : (pool.allocUnderLock lbS lbLen t .plenty).2.allocRet ≠ .enomem := by rw [hok]; exact AllocRet.noConfusion
      rw [and_iff_right hfront, and_iff_right hle, SucceedsIn, allocRetry]
      by_cases hunits : units 0 ≤ flushNumAschunk
      · rw [if_neg (not_or.mpr ⟨hmem, Nat.not_lt.mpr hunits⟩)]
        exact iff_of_true ⟨_, rfl, hkeep.trans ht⟩ (.inl hunits)
      · rw [if_pos (.inr (Nat.lt_of_not_le hunits)), or_iff_right hunits]
        rfl
    · refine iff_of_false ?_ fun h => hfront h.1
      rintro ⟨t', hrun, -⟩
      obtain ⟨t'', hasleep⟩ := allocRetry_stuck units (n + 1) h (Nat.lt_of_not_le hfront) (.inl hle)
      cases hasleep.symm.trans hrun
  · refine iff_of_false ?_ fun h => hle h.2.1
    rintro ⟨t', hrun, hret⟩
    exact allocRetry_ret_ne units (n + 1) (.inl (Nat.lt_of_not_le hle)) hrun hret

/-- A call succeeds just when it reads a count that is not above the limit while the chunks in front, and the counter of
free LBs, have lb_len LBs for each pass so far. -/
theorem alloc_space_returns_iff (pool : SpacePool) (h : Inv pool) (units : Nat → Nat) (lbS lbLen : Nat) (hpos : 0 < lbLen) :
    (∃ n t, allocRetry lbS lbLen units n .init pool = .returned t ∧ t.ret = .ok) ↔
      ∃ k, units k ≤ flushNumAschunk ∧ (k + 1) * lbLen ≤ freeFront pool.spaceChunkPool ∧
        (k + 1) * lbLen ≤ pool.fsSizeRemaining := by
  suffices hgen : ∀ (n : Nat) (t : AllocProgress), t.ret = .ok → (SucceedsIn lbS lbLen units n t pool ↔
      ∃ k < n, units k ≤ flushNumAschunk ∧ (k + 1) * lbLen ≤ freeFront pool.spaceChunkPool ∧
        (k + 1) * lbLen ≤ pool.fsSizeRemaining) by
    constructor
    · rintro ⟨n, hn⟩
      obtain ⟨k, -, hk⟩ := (hgen n .init rfl).mp hn
      exact ⟨k, hk⟩
    · rintro ⟨k, hk⟩
      exact ⟨k + 1, (hgen (k + 1) .init rfl).mpr ⟨k, Nat.lt_succ_self k, hk⟩⟩
  intro n t ht
  induction n generalizing units t pool with
  | zero =>
    refine iff_of_false ?_ ?_
    · rintro ⟨t', hrun, -⟩
      cases hrun
    · rintro ⟨k, hk, -⟩
      exact Nat.not_lt_zero k hk
  | succ n ih =>
    rw [succeedsIn_succ units n h hpos ht]
    constructor
    · rintro ⟨hfront, hle, hunits | hrest⟩
      · exact ⟨0, Nat.succ_pos n, hunits, by omega, by omega⟩
      · obtain ⟨hinv, -, hkeep, hleft, hrem⟩ := allocUnderLock_enough lbS t h hpos hle hfront
        obtain ⟨k, hk, hunits, hk₁, hk₂⟩ := (ih _ hinv _ _ (hkeep.trans ht)).mp hrest
        refine ⟨k + 1, Nat.succ_lt_succ hk, hunits, ?_, ?_⟩
        · rw [Nat.succ_mul]
          omega
        · rw [Nat.succ_mul]
          omega
    · rintro ⟨k, hk, hunits, hk₁, hk₂⟩
      rw [Nat.succ_mul] at hk₁ hk₂
      have hfront : lbLen ≤ freeFront pool.spaceChunkPool := by omega
      have hle : lbLen ≤ pool.fsSizeRemaining := by omega
      refine ⟨hfront, hle, ?_⟩
      cases k with
      | zero => exact .inl hunits
      | succ k =>
        obtain ⟨hinv, -, hkeep, hleft, hrem⟩ := allocUnderLock_enough lbS t h hpos hle hfront
        refine .inr ((ih _ hinv _ _ (hkeep.trans ht)).mpr ⟨k, Nat.lt_of_succ_lt_succ hk, hunits, ?_, ?_⟩)
        · omega
        · omega

/-- From two chunks that are both free. -/
theorem alloc_space_returns_first_pass :
    ∃ n t, allocRetry 40 3 (fun _ => 0) n .init (run (init 7) SpaceReq.twoChunks) = .returned t ∧ t.ret = .ok :=
  (alloc_space_returns_iff _ ((inv_init 7).run _) (fun _ => 0) 40 3 (by decide)).mpr ⟨0, by decide, by decide, by decide⟩

def secondFree : SpacePool := run (init 7) (SpaceReq.twoChunks ++ [.invalChunk 1])

/-- Three LBs are asked for and the second chunk has six, but the call looks at the first only and never returns. -/
theorem alloc_space_never_returns : freeLen secondFree.spaceChunkPool = 6 ∧
    ∀ n, ∃ t, allocRetry 40 3 (fun _ => 0) n .init secondFree = .asleep t :=
  ⟨rfl, fun n => allocRetry_stuck _ n ((inv_init 7).run _) (by decide) (.inl (by decide))⟩

end SpacePool
end DiscoClient
