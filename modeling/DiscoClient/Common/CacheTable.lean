import DiscoClient.Common.CacheManager

namespace DiscoClient
open List

theorem VolumeCachePool.decRef_incRef {D : Type} (v : VolumeCachePool D) : v.incRef.decRef = v := by
  rw [incRef, decRef, Int.add_sub_cancel]

namespace CpoolManager
variable {D R : Type} {m : CpoolManager D} {P : VolumeCachePool D → Prop} {volid : BitVec 64} {v : VolumeCachePool D}
  {k : VolumeCachePool D → VolumeCachePool D × R}
  {l : List (VolumeCachePool D)}

def poolOf (m : CpoolManager D) (volid : BitVec 64) : Option (VolumeCachePool D) :=
  (m.head volid).find? fun v => v.volid = volid

theorem mem_pools : v ∈ m.pools ↔ ∃ head ∈ m.cpoolTbl, v ∈ head := mem_flatten

theorem mem_pools_of_mem_head (hv : v ∈ m.head volid) : v ∈ m.pools := by
  rw [head] at hv
  cases hget : m.cpoolTbl[volid.toNat % cachePoolHsize]? with
  | none =>
    rw [hget] at hv
    exact absurd hv not_mem_nil
  | some l =>
    rw [hget] at hv
    exact mem_pools.mpr ⟨l, mem_of_getElem? hget, hv⟩

theorem mem_pools_of_poolOf (hv : m.poolOf volid = some v) : v ∈ m.pools :=
  mem_pools_of_mem_head (mem_of_find?_eq_some hv)

def AllPools (P : VolumeCachePool D → Prop) (m : CpoolManager D) : Prop := ∀ v ∈ m.pools, P v

namespace AllPools

theorem init : AllPools P (init : CpoolManager D) := by
  intro v hv
  obtain ⟨l, hl, hvl⟩ := mem_pools.mp hv
  rw [eq_of_mem_replicate hl] at hvl
  exact absurd hvl not_mem_nil

theorem of_mem_head (h : AllPools P m) : ∀ v ∈ m.head volid, P v := fun v hv => h v (mem_pools_of_mem_head hv)

theorem setHead (h : AllPools P m) (hl : ∀ v ∈ l, P v) : AllPools P (m.setHead volid l) := by
  intro v hv
  obtain ⟨l', hl', hvl⟩ := mem_pools.mp hv
  rcases mem_or_eq_of_mem_set hl' with hold | rfl
  · exact h v (mem_pools.mpr ⟨l', hold, hvl⟩)
  · exact hl v hvl

end AllPools

theorem findCachePoolNolock_forall
    (hk : ∀ v : VolumeCachePool D, P v → P (k v.incRef).1) (hl : ∀ v ∈ l, P v) {r : List (VolumeCachePool D) × R}
    (hr : findCachePoolNolock volid k l = some r) : ∀ v ∈ r.1, P v := by
  induction l generalizing r with
  | nil => cases hr
  | cons v l ih =>
    obtain ⟨hv, hrest⟩ := forall_mem_cons.mp hl
    rw [findCachePoolNolock] at hr
    split_ifs at hr
    · cases hr
      exact forall_mem_cons.mpr ⟨hk v hv, hrest⟩
    · obtain ⟨r', hr', rfl⟩ := Option.map_eq_some_iff.mp hr
      exact forall_mem_cons.mpr ⟨hv, ih hrest hr'⟩

theorem rmCachePool_forall (hl : ∀ v ∈ l, P v) {r : List (VolumeCachePool D) × VolumeCachePool D}
    (hr : rmCachePool volid l = some r) : (∀ v ∈ r.1, P v) ∧ P r.2 := by
  induction l generalizing r with
  | nil => cases hr
  | cons v l ih =>
    obtain ⟨hv, hrest⟩ := forall_mem_cons.mp hl
    rw [rmCachePool, VolumeCachePool.decRef_incRef] at hr
    split_ifs at hr
    · cases hr
      exact ⟨hrest, hv⟩
    · obtain ⟨r', hr', rfl⟩ := Option.map_eq_some_iff.mp hr
      obtain ⟨hall, hremoved⟩ := ih hrest hr'
      exact ⟨forall_mem_cons.mpr ⟨hv, hall⟩, hremoved⟩

theorem findCachePoolNolock_eq_none :
    findCachePoolNolock volid k l = none ↔ l.find? (fun v => v.volid = volid) = none := by
  induction l with
  | nil => exact iff_of_true rfl rfl
  | cons v l ih =>
    rw [findCachePoolNolock]
    by_cases hv : v.volid = volid
    · rw [if_pos hv, List.find?_cons_of_pos (by simpa using hv)]
      exact iff_of_false (by simp) (by simp)
    · rw [if_neg hv, List.find?_cons_of_neg (by simpa using hv), Option.map_eq_none_iff, ih]

namespace AllPools

variable (h : AllPools P m)
include h

theorem findCachePool
    (hk : ∀ v : VolumeCachePool D, P v → P (k v.incRef).1) : AllPools P (m.findCachePool volid k).1 := by
  rw [CpoolManager.findCachePool]
  cases hfind : findCachePoolNolock volid k (m.head volid) with
  | none => exact h
  | some r => exact h.setHead (findCachePoolNolock_forall hk h.of_mem_head hfind)

theorem cacheKickAllpool {mdCmpFn : Option (D → Bool)}
    (hkick : ∀ v : VolumeCachePool D, P v → P (v.incRef.call fun p =>
      (CachePool.kickRetry CachePool.maxFreeVolRetry (p.kickMetaCache (-1) mdCmpFn), ())).1) :
    AllPools P (m.cacheKickAllpool mdCmpFn) := by
  intro w hw
  obtain ⟨l, hl, hwl⟩ := mem_pools.mp hw
  obtain ⟨l', hl', rfl⟩ := mem_map.mp hl
  obtain ⟨v, hv, rfl⟩ := mem_map.mp hwl
  exact hkick v (h v (mem_pools.mpr ⟨l', hl', hv⟩))

theorem kickMetaCache (volid : BitVec 64) {mdCmpFn : Option (D → Bool)}
    (hkick : ∀ v : VolumeCachePool D, P v → P (v.incRef.call fun p =>
      (CachePool.kickRetry CachePool.maxFreeVolRetry (p.kickMetaCache (-1) mdCmpFn), ())).1) :
    AllPools P (m.kickMetaCache volid (-1) mdCmpFn) := by
  rw [CpoolManager.kickMetaCache]
  split_ifs
  · exact h.cacheKickAllpool hkick
  · exact h.findCachePool hkick

theorem addToTbl {v : VolumeCachePool D} (hv : P v)
    (hinc : (m.poolOf v.volid).isSome → ∀ u : VolumeCachePool D, P u → P u.incRef) : AllPools P (m.addToTbl v).1 := by
  rw [CpoolManager.addToTbl, CpoolManager.findCachePool]
  cases hfind : findCachePoolNolock v.volid (fun found => (found, ())) (m.head v.volid) with
  | none => exact h.setHead (forall_mem_cons.mpr ⟨hv, h.of_mem_head⟩)
  | some r =>
    have hsome : (m.poolOf v.volid).isSome := by
      rw [← Option.ne_none_iff_isSome]
      intro hnone
      rw [findCachePoolNolock_eq_none.mpr hnone] at hfind
      cases hfind
    exact h.setHead (findCachePoolNolock_forall (hinc hsome) h.of_mem_head hfind)

theorem rmCachePoolTbl (volid : BitVec 64) :
    AllPools P (m.rmCachePoolTbl volid).1 ∧ ∀ v, (m.rmCachePoolTbl volid).2 = some v → P v := by
  rw [CpoolManager.rmCachePoolTbl]
  cases hrm : rmCachePool volid (m.head volid) with
  | none => exact ⟨h, fun v hv => by cases hv⟩
  | some r =>
    obtain ⟨hall, hremoved⟩ := rmCachePool_forall h.of_mem_head hrm
    refine ⟨h.setHead hall, fun v hv => ?_⟩
    cases hv
    exact hremoved

end AllPools
end CpoolManager
end DiscoClient
