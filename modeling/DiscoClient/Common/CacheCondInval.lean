import DiscoClient.Common.CacheGang
import DiscoClient.Common.CacheManager
import DiscoClient.Common.CacheRemoval
import Mathlib.Data.List.Forall2

namespace DiscoClient
open List

namespace CachePool
variable {D : Type} {p q : CachePool D} {pins : Nat → Nat} {f : D → Bool} {id i key : Nat} {ids : List Nat}

def leafMatches (p : CachePool D) (f : D → Bool) (id : Nat) : Bool := (p.leaves[id]?).any fun l => f l.data

def matchInUse (p : CachePool D) (f : D → Bool) : Bool :=
  p.lruList.any fun id => p.leafMatches f id && decide (0 < p.leafRefCount id)

structure Invalidated (f : D → Bool) (p q : CachePool D) : Prop where
  lruList : q.lruList = p.lruList.filter fun id => !p.leafMatches f id
  tree : ∀ k id, q.tree.lookup k = some id ↔ p.tree.lookup k = some id ∧ p.leafMatches f id = false
  entryOf : q.entryOf = p.entryOf

theorem leafRefCount_removeLeaf (p : CachePool D) (key id i : Nat) :
    (p.removeLeaf key id).leafRefCount i = p.leafRefCount i := by
  rw [removeLeaf, dropLeaf]
  dsimp only
  split_ifs
  · rw [leafSetDelete, leafRefCount, leafRefCount, List.getElem?_modify]
    cases p.leaves[i]? with
    | none => rfl
    | some l =>
      by_cases hi : id = i
      · simp [hi]
      · simp [hi]
  · rw [releaseTreeLeaf]
    split
    · rfl
    · split_ifs
      · rfl
      · rfl

theorem leafMatches_eq (p : CachePool D) (f : D → Bool) (id : Nat) :
    p.leafMatches f id = (p.entryOf id).any fun e => f e.2 := by
  rw [leafMatches, entryOf, Option.any_map]

/-- A pass over the leaves with a criterion removes those that meet it, and says whether one of them was in use. -/
theorem kickLoop_cond (total : Nat) (p : CachePool D) (h : Sound p pins) (hnodup : ids.Nodup)
    (hsub : ∀ i ∈ ids, i ∈ p.lruList) (nr : Nat) (flag : Bool) :
    kickLoop (some f) (-1) total ids p nr flag =
      (p.removeAll (ids.filter (p.leafMatches f)),
        flag || ids.any fun id => p.leafMatches f id && decide (0 < p.leafRefCount id)) := by
  induction ids generalizing p nr flag with
  | nil => rw [kickLoop, filter_nil, any_nil, Bool.or_false, removeAll, foldl_nil]
  | cons id ids ih =>
    obtain ⟨hout, hrest⟩ := nodup_cons.mp hnodup
    have hid := hsub id mem_cons_self
    obtain ⟨l, hl, -⟩ := h.lives.exists_leaf hid
    have hmatch : p.leafMatches f id = f l.data := by rw [leafMatches, hl, Option.any_some]
    rw [kickLoop]
    simp only [Option.any_some, hl, Bool.not_eq_true']
    by_cases hf : f l.data = false
    · rw [if_pos hf, ih p h hrest fun i hi => hsub i (mem_cons_of_mem _ hi), filter_cons_of_neg (by simp [hmatch, hf]),
        any_cons, hmatch, hf, Bool.false_and, Bool.false_or]
    · obtain ⟨hq, hremoved⟩ := h.removeLeaf (h.lookup hid)
      have hin (i : Nat) (hi : i ∈ ids) : i ∈ (p.removeLeaf (p.leafBlkid id) id).lruList := by
        rw [hremoved.lruList]
        exact (mem_erase_of_ne (ne_of_mem_of_not_mem hi hout)).mpr (hsub i (mem_cons_of_mem _ hi))
      have hsame : (p.removeLeaf (p.leafBlkid id) id).leafMatches f = p.leafMatches f := by
        funext i
        rw [leafMatches_eq, leafMatches_eq, hremoved.entryOf]
      rw [if_neg hf, if_neg (fun hc => hc.1 rfl), ih _ hq hrest hin, hsame, filter_cons_of_pos (by simpa [hmatch] using hf),
        any_cons, hmatch, Bool.eq_true_of_not_eq_false hf]
      simp only [leafRefCount_removeLeaf, Bool.true_and, decide_true, Bool.and_true, Bool.or_assoc]
      rfl

namespace Sound

/-- What _cache_kick_allpool does to a pool: the leaves that meet the criterion go, and all others if one of
those was in use. -/
theorem kickRetry_cond (h : Sound p pins) (f : D → Bool) :
    ∃ q ids, kickRetry maxFreeVolRetry (p.kickMetaCache (-1) (some f)) = q ∧ Sound q pins ∧ Left p q ids ∧
      q.lruList = if p.matchInUse f then [] else p.lruList.filter fun id => !p.leafMatches f id := by
  have hnodup : p.lruList.reverse.Nodup := nodup_reverse.mpr h.nodup
  have hsub : ∀ i ∈ p.lruList.reverse, i ∈ p.lruList := fun i hi => mem_reverse.mp hi
  obtain ⟨hq, hleft⟩ := h.removeAll (hnodup.filter (p.leafMatches f)) fun i hi => hsub i (mem_of_mem_filter hi)
  have hkick : p.kickMetaCache (-1) (some f) =
      (p.removeAll (p.lruList.reverse.filter (p.leafMatches f)), p.matchInUse f) := by
    rw [CachePool.kickMetaCache, if_pos (.inl rfl), kickLoop_cond _ p h hnodup hsub, any_reverse, Bool.false_or,
      matchInUse]
  rw [hkick, maxFreeVolRetry, kickRetry]
  by_cases huse : p.matchInUse f = true
  · obtain ⟨hr, hgone, hempty⟩ := hq.removeAll_reverse
    rw [if_pos huse, if_pos huse]
    dsimp only
    rw [kickRetry_of_nil _ (by rwa [kickMetaCache_all]), kickMetaCache_all]
    exact ⟨_, _, rfl, hr, hleft.trans hgone, hempty⟩
  · rw [if_neg huse, if_neg huse]
    refine ⟨_, _, rfl, hq, hleft, ?_⟩
    rw [hleft.lruList]
    refine filter_congr fun i hi => ?_
    simp [hi]

theorem invalidated_iff (h : Sound p pins) (hq : Sound q pins) (hleft : Left p q ids) :
    Invalidated f p q ↔ q.lruList = p.lruList.filter fun id => !p.leafMatches f id := by
  refine ⟨Invalidated.lruList, fun hlru => ⟨hlru, fun k id => ?_, hleft.entryOf⟩⟩
  rw [hq.tree, h.tree, hlru, hleft.entryOf, mem_filter, Bool.not_eq_true']
  exact and_right_comm

theorem kickRetry_exact_iff (h : Sound p pins) (f : D → Bool) :
    Invalidated f p (kickRetry maxFreeVolRetry (p.kickMetaCache (-1) (some f))) ↔
      ((∃ id ∈ p.lruList, p.leafMatches f id = true ∧ 0 < p.leafRefCount id) → ∀ id ∈ p.lruList, p.leafMatches f id = true) := by
  obtain ⟨q, ids, heq, hq, hleft, hlru⟩ := h.kickRetry_cond f
  have huse : p.matchInUse f = true ↔ ∃ id ∈ p.lruList, p.leafMatches f id = true ∧ 0 < p.leafRefCount id := by
    simp [matchInUse]
  rw [heq, h.invalidated_iff hq hleft, hlru, ← huse]
  split_ifs with hin
  · rw [forall_prop_of_true hin, eq_comm, filter_eq_nil_iff]
    simp
  · exact iff_of_true rfl fun hyes => absurd hyes hin

end Sound
end CachePool

variable {D : Type}

/-- cache_invalidate with a criterion removes from every pool exactly the entries that meet it, if in no
pool one of these is in use while another entry does not meet it. -/
theorem cond_invalidation_exact_iff (m : CpoolManager D) (f : D → Bool)
    (hsound : ∀ v ∈ m.pools, ∃ pins, CachePool.Sound v.cache pins) :
    List.Forall₂ (fun v w => w.volid = v.volid ∧ CachePool.Invalidated f v.cache w.cache) m.pools
        (m.cacheInvalidate (.condChk (some f))).pools ↔
      ∀ v ∈ m.pools, (∃ id ∈ v.cache.lruList, v.cache.leafMatches f id = true ∧ 0 < v.cache.leafRefCount id) →
        ∀ id ∈ v.cache.lruList, v.cache.leafMatches f id = true := by
  have hpools : (m.cacheInvalidate (.condChk (some f))).pools = m.pools.map fun v =>
      (v.incRef.call fun p => (CachePool.kickRetry CachePool.maxFreeVolRetry (p.kickMetaCache (-1) (some f)), ())).1 := by
    rw [CpoolManager.cacheInvalidate, CpoolManager.kickMetaCache, if_pos rfl, CpoolManager.cacheKickAllpool,
      CpoolManager.pools, CpoolManager.pools, map_flatten]
  rw [hpools, List.forall₂_map_right_iff, List.forall₂_same]
  refine forall₂_congr fun v hv => ?_
  obtain ⟨pins, hv⟩ := hsound v hv
  exact (and_iff_right rfl).trans (hv.kickRetry_exact_iff f)

def pinnedPool : CachePool Nat := CachePool.gapPool.touchLeaf 0

theorem pinnedPool_sound : CachePool.Sound pinnedPool (Function.update (fun _ => 0) 0 1) :=
  CachePool.gapPool_sound.touchLeaf (by decide)

def pinnedMgr : CpoolManager Nat := CpoolManager.init.setHead 1 [⟨1, 16384, 0, pinnedPool⟩]

set_option maxRecDepth 2000 in
theorem pools_pinnedMgr : pinnedMgr.pools = [⟨1, 16384, 0, pinnedPool⟩] := rfl

/-- The other item goes alone. -/
theorem cond_invalidation_other : List.Forall₂ (fun v w => w.volid = v.volid ∧ CachePool.Invalidated (· == 50) v.cache w.cache)
    pinnedMgr.pools (pinnedMgr.cacheInvalidate (.condChk (some (· == 50)))).pools := by
  refine (cond_invalidation_exact_iff pinnedMgr (· == 50) ?_).mpr ?_
  · rw [pools_pinnedMgr]
    exact forall_mem_singleton.mpr ⟨_, pinnedPool_sound⟩
  · rw [pools_pinnedMgr, forall_mem_singleton]
    decide

/-- The item in use takes the other one with it. -/
theorem cond_invalidation_takes_all : ¬ List.Forall₂
    (fun v w => w.volid = v.volid ∧ CachePool.Invalidated (· == 70) v.cache w.cache)
    pinnedMgr.pools (pinnedMgr.cacheInvalidate (.condChk (some (· == 70)))).pools := by
  set_option maxRecDepth 2000 in
  have hpools : (pinnedMgr.cacheInvalidate (.condChk (some (· == 70)))).pools.map (fun v => v.cache.lruList) = [[]] := rfl
  intro h
  obtain ⟨w, rest, hw, -, heq⟩ := List.forall₂_cons_left_iff.mp h
  rw [heq] at hpools
  have hgone : w.cache.lruList = [] := (List.cons.inj hpools).1
  rw [hw.2.lruList] at hgone
  exact absurd hgone (by decide)

end DiscoClient
