import DiscoClient.Common.CachePool
import DiscoClient.Lib.MapAccum

/-! The manager of the cache pools of all volumes, which share a number of cache items: common/cache.c. -/
namespace DiscoClient

/-- cache_pool_t as the manager sees it; the calls on a pool work on the last field. -/
structure VolumeCachePool (D : Type) where
  volid : BitVec 64
  capacity : BitVec 64
  refCnt : Int
  cache : CachePool D

/-- What dms_client_config says about caching: the number of cache items of all pools, and up to which capacity
a volume is small. Both are int64_t. -/
structure CacheConfig where
  maxMetaCacheSizes : BitVec 64
  maxCapCacheAllHit : BitVec 64
  deriving DecidableEq, Repr

def cachePoolHsize : Nat := 257

namespace VolumeCachePool
variable {D R : Type} (v : VolumeCachePool D)

def lbs : Nat := v.capacity.toNat >>> bitLenDmsLbSize

def incRef : VolumeCachePool D := { v with refCnt := v.refCnt + 1 }

def decRef : VolumeCachePool D := { v with refCnt := v.refCnt - 1 }

/-- A pool as cacheMgr_create_pool makes it. -/
def create (volid capacity : BitVec 64) : VolumeCachePool D :=
  ⟨volid, capacity, 0, CachePool.create (toU32 (capacity.toNat >>> bitLenDmsLbSize))⟩

def call (f : CachePool D → CachePool D × R) : VolumeCachePool D × R :=
  (({ v with cache := (f v.cache).1 } : VolumeCachePool D).decRef, (f v.cache).2)

/-- A small volume's new cache_size; what is too much is kicked. -/
def resizeSmall (size : Nat) : VolumeCachePool D :=
  let cache := { v.cache with cacheSize := size }
  { v with cache := if size < toU32 cache.cacheNum then (cache.kickMetaCache (toS32 (cache.cacheNum - size)) none).1 else cache }

/-- A large volume's new cache_size, which is an int32_t at first; what is too much is kicked. -/
def resizeLarge (cachedNeed : Int) : VolumeCachePool D :=
  let cache := { v.cache with cacheSize := toU32 cachedNeed }
  { v with cache := if cachedNeed < cache.cacheNum then (cache.kickMetaCache (toS32 (cache.cacheNum - cachedNeed)) none).1 else cache }

/-- The body of the loop of _alloc_cachePoolSize_smallVol, with cache_left and total_cache_need. -/
def allocSmallVol (smallVolSize : BitVec 64) (acc : Int × Int) : (Int × Int) × VolumeCachePool D :=
  if smallVolSize.toNat < v.capacity.toNat then ((acc.1, toS64 (acc.2 + v.lbs)), v.incRef.decRef)
  else if acc.1 ≥ v.cache.cacheSize then
    ((toS64 (acc.1 - toU32 v.lbs), acc.2), (v.incRef.resizeSmall (toU32 v.lbs)).decRef)
  else ((0, acc.2), (v.incRef.resizeSmall (toU32 acc.1)).decRef)

/-- cached_need of a large volume. -/
def cachedNeed (maxCitems totalCacheNeed : Int) : Int :=
  toS32 (if maxCitems ≥ totalCacheNeed then v.lbs else toU64 (maxCitems * v.lbs) / toU64 totalCacheNeed)

/-- The body of the loop of _alloc_cachePoolSize_largeVol, with cache_left. -/
def allocLargeVol (maxCitems : Int) (smallVolSize : BitVec 64) (totalCacheNeed cacheLeft : Int) : Int × VolumeCachePool D :=
  if v.capacity.toNat ≤ smallVolSize.toNat then (cacheLeft, v.incRef.decRef)
  else if cacheLeft ≥ v.cachedNeed maxCitems totalCacheNeed then
    (toS32 (cacheLeft - v.cachedNeed maxCitems totalCacheNeed),
      (v.incRef.resizeLarge (v.cachedNeed maxCitems totalCacheNeed)).decRef)
  else (0, (v.incRef.resizeLarge cacheLeft).decRef)

end VolumeCachePool

section
variable {D R : Type} (volid : BitVec 64)

/-- _find_cache_pool_nolock, and what its caller does to the pool that it found and counted. -/
def findCachePoolNolock (k : VolumeCachePool D → VolumeCachePool D × R) :
    List (VolumeCachePool D) → Option (List (VolumeCachePool D) × R)
  | [] => none
  | v :: head =>
    if v.volid = volid then some ((k v.incRef).1 :: head, (k v.incRef).2)
    else (findCachePoolNolock k head).map fun r => (v :: r.1, r.2)

/-- What _rm_cache_pool_tbl does to a list of the table, with the pool that it removes. -/
def rmCachePool : List (VolumeCachePool D) → Option (List (VolumeCachePool D) × VolumeCachePool D)
  | [] => none
  | v :: head => if v.volid = volid then some (head, v.incRef.decRef) else (rmCachePool head).map fun r => (v :: r.1, r.2)

end

/-- What _free_cache_pool does while nobody else changes the count: how often it sleeps, and whether the pool is freed. -/
structure PoolFree where
  sleeps : Nat
  freed : Bool
  deriving DecidableEq, Repr

def freeCachePool {D : Type} (v : VolumeCachePool D) : PoolFree :=
  if v.refCnt = 0 then ⟨0, true⟩ else ⟨CachePool.maxFreeVolRetry, false⟩

/-- cpool_manager_t -/
structure CpoolManager (D : Type) where
  cpoolTbl : List (List (VolumeCachePool D))

namespace CpoolManager
variable {D R : Type} (m : CpoolManager D)

/-- _init_cacheMgr -/
def init : CpoolManager D := ⟨List.replicate cachePoolHsize []⟩

def pools : List (VolumeCachePool D) := m.cpoolTbl.flatten

def head (volid : BitVec 64) : List (VolumeCachePool D) := (m.cpoolTbl[volid.toNat % cachePoolHsize]?).getD []

def setHead (volid : BitVec 64) (head : List (VolumeCachePool D)) : CpoolManager D :=
  ⟨m.cpoolTbl.set (volid.toNat % cachePoolHsize) head⟩

/-- _find_cache_pool, and what its caller does to the pool. -/
def findCachePool (volid : BitVec 64) (k : VolumeCachePool D → VolumeCachePool D × R) : CpoolManager D × Option R :=
  match findCachePoolNolock volid k (m.head volid) with
  | none => (m, none)
  | some (head, r) => (m.setHead volid head, some r)

def callPool (volid : BitVec 64) (f : CachePool D → CachePool D × R) : CpoolManager D × Option R :=
  m.findCachePool volid fun v => v.call f

/-- _cache_kick_allpool: the retries after a pass that met leaves in use go without the criterion. -/
def cacheKickAllpool (mdCmpFn : Option (D → Bool)) : CpoolManager D :=
  ⟨m.cpoolTbl.map fun head => head.map fun v =>
    (v.incRef.call fun p => (CachePool.kickRetry CachePool.maxFreeVolRetry (p.kickMetaCache (-1) mdCmpFn), ())).1⟩

def kickMetaCache (vid : BitVec 64) (count : Int) (mdCmpFn : Option (D → Bool)) : CpoolManager D :=
  if vid = -1 then m.cacheKickAllpool mdCmpFn
  else (m.callPool vid fun p => (CachePool.kickRetry CachePool.maxFreeVolRetry (p.kickMetaCache count mdCmpFn), ())).1

/-- What cache_invalidate is asked for; without a pool table of HBIDs, INVAL_CACHE_HB does nothing. -/
inductive InvalOp (D : Type) where
  | lb (volid : BitVec 64) (start count : Nat)
  | volid (volid : BitVec 64)
  | condChk (mdCmpFn : Option (D → Bool))
  | hb

def cacheInvalidate : InvalOp D → CpoolManager D
  | .lb volid start count => (m.callPool volid fun p => (p.cacheInvalidateVolLB start count, ())).1
  | .volid volid => m.kickMetaCache volid (-1) none
  | .condChk (some mdCmpFn) => m.kickMetaCache (-1) (-1) (some mdCmpFn)
  | .condChk none => m
  | .hb => m

/-- cache_find; none for -ENOENT. -/
def cacheFind (volid : BitVec 64) (start count : Nat) : CpoolManager D × Option (List (Option Nat) × Nat) :=
  m.callPool volid fun p => p.cacheFind start count

/-- cache_put; none for -ENOENT. -/
def cachePut (volid : BitVec 64) (basket : List (Option Nat)) : CpoolManager D × Option Unit :=
  m.callPool volid fun p => (p.cachePut basket, ())

/-- cache_update; none for -ENOENT. -/
def cacheUpdate (volid : BitVec 64) (mem : CachePool.UpdateMem) (start : Nat) (items : List D) :
    CpoolManager D × Option (CacheRet × List (Option D)) :=
  m.callPool volid fun p => p.cacheUpdate mem start items

/-- _alloc_cachePoolSize_smallVol: cache_left and total_cache_need. -/
def allocCachePoolSizeSmallVol (maxCitems : Int) (smallVolSize : BitVec 64) : CpoolManager D × Int × Int :=
  match mapAccum (mapAccum fun acc v => v.allocSmallVol smallVolSize acc) (maxCitems, 0) m.cpoolTbl with
  | (acc, tbl) => (⟨tbl⟩, acc)

def allocCachePoolSizeLargeVol (maxCitems : Int) (smallVolSize : BitVec 64) (totalCacheNeed : Int) : CpoolManager D :=
  ⟨(mapAccum (mapAccum fun left v => v.allocLargeVol maxCitems smallVolSize totalCacheNeed left) (toS32 maxCitems)
    m.cpoolTbl).2⟩

def updateCachePoolSize (cfg : CacheConfig) : CpoolManager D :=
  match m.allocCachePoolSizeSmallVol cfg.maxMetaCacheSizes.toInt cfg.maxCapCacheAllHit with
  | (m, cacheLeft, totalCacheNeed) => m.allocCachePoolSizeLargeVol cacheLeft cfg.maxCapCacheAllHit totalCacheNeed

/-- The table after _add_cache_pool_tbl looked for the ID of a new pool, and whether it has it already. A pool that
was found stays counted. -/
def addToTbl (v : VolumeCachePool D) : CpoolManager D × Bool :=
  match m.findCachePool v.volid fun found => (found, ()) with
  | (m, none) => (m.setHead v.volid (v :: m.head v.volid), false)
  | (m, some _) => (m, true)

/-- cacheMgr_create_pool; mem says whether there is memory for a pool. A pool that is not added is freed again. -/
def createPool (cfg : CacheConfig) (volumeID capacity : BitVec 64) (mem : Bool) : CpoolManager D × CacheRet :=
  if mem then ((m.addToTbl (VolumeCachePool.create volumeID capacity)).1.updateCachePoolSize cfg, .ok)
  else (m, .enomem)

def rmCachePoolTbl (volid : BitVec 64) : CpoolManager D × Option (VolumeCachePool D) :=
  match rmCachePool volid (m.head volid) with
  | none => (m, none)
  | some (head, v) => (m.setHead volid head, some v)

/-- cacheMgr_rel_pool, with what freeing the pool took. -/
def relPool (cfg : CacheConfig) (vid : BitVec 64) : CpoolManager D × Option PoolFree :=
  match (m.kickMetaCache vid (-1) none).rmCachePoolTbl vid with
  | (m, none) => (m, none)
  | (m, some v) => (m.updateCachePoolSize cfg, some (freeCachePool v))

end CpoolManager
end DiscoClient
