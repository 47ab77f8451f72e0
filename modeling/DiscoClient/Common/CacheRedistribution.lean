import DiscoClient.Common.CacheLargeShares
import Mathlib.Algebra.BigOperators.Group.List.Basic

namespace DiscoClient
open VolumeCachePool

def CpoolManager.sumSizes {D : Type} (m : CpoolManager D) : Nat := (m.pools.map fun v => v.cache.cacheSize).sum

/-- The sizes of the pools add up to at most the configured number, no pool is larger than its volume, and
none holds more than its size. -/
structure CacheBudget {D : Type} (cfg : CacheConfig) (m : CpoolManager D) : Prop where
  total : (m.sumSizes : Int) ≤ cfg.maxMetaCacheSizes.toInt
  capacity : ∀ v ∈ m.pools, v.cache.cacheSize ≤ v.lbs
  holds : ∀ v ∈ m.pools, v.cache.lruList.length ≤ v.cache.cacheSize

structure BudgetFits {D : Type} (cfg : CacheConfig) (vs : List (VolumeCachePool D)) : Prop where
  total : 0 ≤ cfg.maxMetaCacheSizes.toInt
  small : SmallFits cfg.maxCapCacheAllHit cfg.maxMetaCacheSizes.toInt.toNat vs
  large : LargeFits (leftOver cfg.maxCapCacheAllHit cfg.maxMetaCacheSizes.toInt.toNat vs)
    (largeBlocks cfg.maxCapCacheAllHit vs)

section
variable {D : Type} {cfg : CacheConfig} {m : CpoolManager D} {bound : BitVec 64}

theorem sum_sizes (bound : BitVec 64) (vs : List (VolumeCachePool D)) :
    (vs.map fun v => v.cache.cacheSize).sum = (vs.map (smallSize bound)).sum + (vs.map (largeSize bound)).sum := by
  rw [← List.sum_map_add]
  refine congrArg List.sum (List.map_congr_left fun v _ => ?_)
  rw [smallSize, largeSize]
  split_ifs
  · rfl
  · exact (Nat.zero_add _).symm

theorem pools_updateCachePoolSize (cfg : CacheConfig) (m : CpoolManager D) :
    (m.updateCachePoolSize cfg).pools =
      match mapAccum (fun acc v => v.allocSmallVol cfg.maxCapCacheAllHit acc) (cfg.maxMetaCacheSizes.toInt, 0) m.pools with
      | (acc, vs) =>
        (mapAccum (fun left v => v.allocLargeVol acc.1 cfg.maxCapCacheAllHit acc.2 left) (toS32 acc.1) vs).2 := by
  obtain ⟨hacc, hflat⟩ := MapAccum.mapAccum_flatten
    (fun acc (v : VolumeCachePool D) => v.allocSmallVol cfg.maxCapCacheAllHit acc) (cfg.maxMetaCacheSizes.toInt, 0) m.cpoolTbl
  simp only [CpoolManager.pools, CpoolManager.updateCachePoolSize, CpoolManager.allocCachePoolSizeSmallVol,
    CpoolManager.allocCachePoolSizeLargeVol]
  rw [(MapAccum.mapAccum_flatten _ _ _).2, hacc, hflat]

theorem smallSize_allocLargeVol (maxCitems : Int) (need left : Int) (v : VolumeCachePool D) :
    smallSize bound (v.allocLargeVol maxCitems bound need left).2 = smallSize bound v := by
  by_cases hsmall : v.isSmall bound = true
  · rw [allocLargeVol_small hsmall]
  · have hcap : (v.allocLargeVol maxCitems bound need left).2.capacity = v.capacity := by
      rw [allocLargeVol]
      split_ifs
      · rfl
      · rfl
      · rfl
    rw [smallSize, smallSize, if_neg hsmall, if_neg (by rw [isSmall, hcap]; exact hsmall)]

theorem largeBlocks_smallPass (bound : BitVec 64) (acc : Int × Int) (vs : List (VolumeCachePool D)) :
    largeBlocks bound (mapAccum (fun acc v => v.allocSmallVol bound acc) acc vs).2 = largeBlocks bound vs := by
  have hcap : (mapAccum (fun acc v => v.allocSmallVol bound acc) acc vs).2.map capacity = vs.map capacity := by
    refine MapAccum.map_mapAccum _ (fun acc v => ?_) vs
    rw [allocSmallVol]
    split_ifs
    · rfl
    · rfl
    · rfl
  have hblocks (us : List (VolumeCachePool D)) : largeBlocks bound us =
      ((us.map capacity).filter fun c => !decide (c.toNat ≤ bound.toNat)).map fun c => c.toNat >>> bitLenDmsLbSize := by
    rw [List.filter_map, List.map_map]
    rfl
  rw [hblocks, hblocks, hcap]

variable (h : CpoolManager.AllPools (Ready cfg.maxCapCacheAllHit) m)
include h

theorem budget_exceeded (hpos : 0 ≤ cfg.maxMetaCacheSizes.toInt)
    (hsmall : ¬ SmallFits cfg.maxCapCacheAllHit cfg.maxMetaCacheSizes.toInt.toNat m.pools) :
    ¬ CacheBudget cfg (m.updateCachePoolSize cfg) := by
  intro hbudget
  have hlt := cfg.maxMetaCacheSizes.toInt_lt
  have hmore := smallPass_exceeds h cfg.maxMetaCacheSizes.toInt.toNat 0 (by omega) hsmall
  have htotal := hbudget.total
  rw [CpoolManager.sumSizes, pools_updateCachePoolSize, sum_sizes cfg.maxCapCacheAllHit] at htotal
  dsimp only at htotal
  rw [MapAccum.map_mapAccum _ (fun left v => smallSize_allocLargeVol _ _ left v)] at htotal
  rw [smallPass, Int.toNat_of_nonneg hpos] at hmore
  omega

theorem pools_update_of_fits (hpos : 0 ≤ cfg.maxMetaCacheSizes.toInt)
    (hsmall : SmallFits cfg.maxCapCacheAllHit cfg.maxMetaCacheSizes.toInt.toNat m.pools) {left : Nat}
    (hleft : left = leftOver cfg.maxCapCacheAllHit cfg.maxMetaCacheSizes.toInt.toNat m.pools) :
    (m.updateCachePoolSize cfg).pools =
      (largePass cfg.maxCapCacheAllHit left (toS64 (largeBlocks cfg.maxCapCacheAllHit m.pools).sum) (toS32 left)
        (smallPass cfg.maxCapCacheAllHit cfg.maxMetaCacheSizes.toInt.toNat 0 m.pools).2).2 := by
  have hlt := cfg.maxMetaCacheSizes.toInt_lt
  obtain ⟨hacc, -⟩ := smallPass_fits h cfg.maxMetaCacheSizes.toInt.toNat 0 (by omega) hsmall
  have hneed := need_smallPass cfg.maxCapCacheAllHit m.pools ((cfg.maxMetaCacheSizes.toInt.toNat : Int), 0) rfl
  rw [Int.zero_add] at hneed
  rw [pools_updateCachePoolSize, largePass, hleft, ← hacc, ← hneed, smallPass, Int.toNat_of_nonneg hpos]

theorem cacheBudget_iff_large
    (hpos : 0 ≤ cfg.maxMetaCacheSizes.toInt)
    (hsmall : SmallFits cfg.maxCapCacheAllHit cfg.maxMetaCacheSizes.toInt.toNat m.pools) {left : Nat}
    (hleft : left = leftOver cfg.maxCapCacheAllHit cfg.maxMetaCacheSizes.toInt.toNat m.pools) :
    (CacheBudget cfg (m.updateCachePoolSize cfg) ↔ LargeFits left (largeBlocks cfg.maxCapCacheAllHit m.pools)) ∧
      (LargeFits left (largeBlocks cfg.maxCapCacheAllHit m.pools) →
        CpoolManager.AllPools (Ready cfg.maxCapCacheAllHit) (m.updateCachePoolSize cfg)) := by
  have hlt := cfg.maxMetaCacheSizes.toInt_lt
  obtain ⟨-, hsum, hready⟩ := smallPass_fits h cfg.maxMetaCacheSizes.toInt.toNat 0 (by omega) hsmall
  have hpools := pools_update_of_fits h hpos hsmall hleft
  have hblocks : largeBlocks cfg.maxCapCacheAllHit
      (smallPass cfg.maxCapCacheAllHit cfg.maxMetaCacheSizes.toInt.toNat 0 m.pools).2 =
        largeBlocks cfg.maxCapCacheAllHit m.pools := largeBlocks_smallPass _ _ _
  have hkept : ((m.updateCachePoolSize cfg).pools.map (smallSize cfg.maxCapCacheAllHit)).sum + left =
      cfg.maxMetaCacheSizes.toInt.toNat := by
    rw [hpools, largePass, MapAccum.map_mapAccum _ (fun left v => smallSize_allocLargeVol _ _ left v), hleft, hsum]
  have hneed : toS64 (toS64 (largeBlocks cfg.maxCapCacheAllHit m.pools).sum) = toS64 (largeBlocks cfg.maxCapCacheAllHit m.pools).sum := by
    rw [toS64, toS64]
    omega
  have hiff := largePass_iff cfg.maxCapCacheAllHit (fun v hv => (hready v hv).1.contents) left hneed left
  have hafter := largePass_ready hready left hneed left
  rw [hblocks, ← hpools] at hiff hafter
  rw [largeFits_iff, ← hiff]
  have hall (hfits : _) : CpoolManager.AllPools (Ready cfg.maxCapCacheAllHit) (m.updateCachePoolSize cfg) :=
    fun w hw => (hafter (hiff.mp hfits) w hw).1
  refine ⟨⟨fun hbudget => ⟨?_, fun w hw _ => hbudget.capacity w hw⟩, fun hfits => ⟨?_, fun w hw => ?_, fun w hw => ?_⟩⟩, hall⟩
  · have htotal := hbudget.total
    rw [CpoolManager.sumSizes, sum_sizes cfg.maxCapCacheAllHit] at htotal
    omega
  · have hlarge := hfits.1
    rw [CpoolManager.sumSizes, sum_sizes cfg.maxCapCacheAllHit]
    omega
  · by_cases hw' : w.isSmall cfg.maxCapCacheAllHit = true
    · refine ((hall hfits w hw).size_le hw').trans ?_
      rw [toU32_natCast]
      exact Nat.mod_le _ _
    · exact hfits.2 w hw (Bool.eq_false_iff.mpr hw')
  · exact (hafter (hiff.mp hfits) w hw).2

/-- A redistribution keeps the budget exactly if the pools that it finds fit, and it leaves them ready for the next. -/
theorem cacheBudget_update_iff :
    (CacheBudget cfg (m.updateCachePoolSize cfg) ↔ BudgetFits cfg m.pools) ∧
      (BudgetFits cfg m.pools → CpoolManager.AllPools (Ready cfg.maxCapCacheAllHit) (m.updateCachePoolSize cfg)) := by
  by_cases hpos : 0 ≤ cfg.maxMetaCacheSizes.toInt
  · by_cases hsmall : SmallFits cfg.maxCapCacheAllHit cfg.maxMetaCacheSizes.toInt.toNat m.pools
    · obtain ⟨hiff, hready⟩ := cacheBudget_iff_large h hpos hsmall rfl
      exact ⟨hiff.trans ⟨fun hlarge => ⟨hpos, hsmall, hlarge⟩, BudgetFits.large⟩, fun hfits => hready hfits.large⟩
    · exact ⟨iff_of_false (budget_exceeded h hpos hsmall) fun hfits => hsmall hfits.small, fun hfits => absurd hfits.small hsmall⟩
  · have hnot : ¬ CacheBudget cfg (m.updateCachePoolSize cfg) := fun hbudget => by
      have htotal := hbudget.total
      omega
    exact ⟨iff_of_false hnot fun hfits => hpos hfits.total, fun hfits => absurd hfits.total hpos⟩

end

end DiscoClient
