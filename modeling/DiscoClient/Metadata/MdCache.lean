import DiscoClient.Common.CachePool
import DiscoClient.Common.Triple

/-! The metadata cache of a volume: metadata is split into one cache item per LB when it is stored. -/
namespace DiscoClient

/-- mcache_dnloc_t -/
structure McacheDnLoc where
  ipaddr : BitVec 32
  port : BitVec 32
  rbid : BitVec 32
  offset : BitVec 32
  deriving DecidableEq, Repr

/-- mcache_item_t, and the number of its allocation. -/
structure McacheItem where
  addr : Nat
  hbid : BitVec 64
  udataDnLoc : List McacheDnLoc
  deriving DecidableEq, Repr

/-- metaD_DNLoc_t: a data node and where it has the LBs of the item. -/
structure MdDnLoc where
  ipaddr : BitVec 32
  port : BitVec 32
  rbidLenOffset : List (BitVec 64)
  deriving DecidableEq, Repr

/-- metaD_item_t, as far as the cache reads it; valid says that mdata_stat is MData_VALID. -/
structure MdataItem where
  valid : Bool
  arrHbid : List (BitVec 64)
  udataDnLoc : List MdDnLoc
  deriving DecidableEq, Repr

/-- The loop of _split_metadata over the triplets of a data node: rbid and offset of LB i. A cache
item that no triplet covers stays as it was cleared. -/
def splitTriplet (i : BitVec 32) : BitVec 32 → List (BitVec 64) → BitVec 32 × BitVec 32
  | _, [] => (0, 0)
  | prevLen, val :: vals =>
    let t := decomposeTriple val
    if i.slt (t.len + prevLen) then (t.rbid, t.offset + i - prevLen)
    else splitTriplet i (prevLen + t.len) vals

def splitDnLoc (i : Nat) (loc : MdDnLoc) : McacheDnLoc :=
  ⟨loc.ipaddr, loc.port, (splitTriplet (BitVec.ofNat 32 i) 0 loc.rbidLenOffset).1,
    (splitTriplet (BitVec.ofNat 32 i) 0 loc.rbidLenOffset).2⟩

/-- _split_metadata, on cache items allocated from number addr on. -/
def splitMetadata (item : MdataItem) (addr : Nat) : List McacheItem :=
  item.arrHbid.zipIdx.map fun e => ⟨addr + e.2, e.1, item.udataDnLoc.map (splitDnLoc e.2)⟩

/-- The cache of a volume, which may have no pool. Cache items are numbered in the order of their
allocation; the last field logs those freed outside of a leaf. -/
structure MdCache where
  pool : Option (CachePool McacheItem)
  nextItem : Nat
  freedItems : List Nat

/-- Which allocations of an update succeed: of cache items, and in cache_update. -/
structure MdUpdateMem where
  chItem : Nat → Bool
  mem : CachePool.UpdateMem

/-- A call of cache_update: its result, and whether the pool then has every item of the call. -/
structure CacheCall where
  ret : CacheRet
  allStored : Bool
  deriving DecidableEq, Repr

namespace MdCache
variable (c : MdCache)

def invalVolumeMDCacheLBID (start count : Nat) : MdCache :=
  { c with pool := c.pool.map fun p => p.cacheInvalidateVolLB start count }

def itemAt (key : Nat) : Option McacheItem :=
  c.pool.bind fun p => (p.tree.lookup key).bind fun id => (p.leaves[id]?).map TreeLeaf.data

/-- _alloc_chItem_arr: how many items it gets before an allocation fails. -/
def allocChItemArr (chItem : Nat → Bool) (numItems : Nat) : Nat := ((List.range numItems).takeWhile chItem).length

/-- cache_update for a volume. -/
def cacheUpdate (mem : CachePool.UpdateMem) (start : Nat) (items : List McacheItem) :
    Option (CachePool McacheItem) × CacheRet × List (Option McacheItem) :=
  match c.pool with
  | none => (none, .enoent, items.map some)
  | some p => (p.cacheUpdate mem start items).map some id

/-- The items that cache_update has freed itself, and those that are left to the caller. -/
def freedSlots (items : List McacheItem) (basket : List (Option McacheItem)) : List Nat :=
  (items.zip basket).filterMap fun e => if e.2.isNone then some e.1.addr else none

def leftSlots (basket : List (Option McacheItem)) : List Nat := basket.filterMap fun slot => slot.map McacheItem.addr

/-- The body of the loop of _update_mdcache. -/
def updateItem (start : Nat) (item : MdataItem) (env : MdUpdateMem) : MdCache × List CacheCall :=
  let numHbids := item.arrHbid.length
  let got := allocChItemArr env.chItem numHbids
  if item.valid = false then (c.invalVolumeMDCacheLBID start numHbids, [])
  else if got < numHbids then
    ({ c.invalVolumeMDCacheLBID start numHbids with
        nextItem := c.nextItem + got
        freedItems := List.range' c.nextItem got ++ c.freedItems }, [])
  else
    let items := splitMetadata item c.nextItem
    match c.cacheUpdate env.mem start items with
    | (pool, ret, basket) =>
      let d : MdCache := ⟨pool, c.nextItem + numHbids, freedSlots items basket ++ c.freedItems⟩
      let call : CacheCall := ⟨ret, (items.zipIdx start).all fun e => d.itemAt e.2 = some e.1⟩
      if ret.isNegative then
        ({ d.invalVolumeMDCacheLBID start numHbids with freedItems := leftSlots basket ++ d.freedItems }, [call])
      else (d, [call])

/-- _update_mdcache, and the calls of cache_update that it makes. -/
def updateMdcache (c : MdCache) (start : Nat) : List (MdataItem × MdUpdateMem) → MdCache × List CacheCall
  | [] => (c, [])
  | (item, env) :: items =>
    let r := c.updateItem start item env
    let rest := updateMdcache r.1 (start + item.arrHbid.length) items
    (rest.1, r.2 ++ rest.2)

/-- update_volume_MDCache of metadata that is there. -/
def updateVolumeMDCache (items : List (MdataItem × MdUpdateMem)) (lbidS lbidLen : Nat)
    (enableMdcache freeMemLow : Bool) : (MdCache × List CacheCall) × CacheRet :=
  if enableMdcache = false then ((c.invalVolumeMDCacheLBID lbidS lbidLen, []), .eperm)
  else if freeMemLow then ((c.invalVolumeMDCacheLBID lbidS lbidLen, []), .enomem)
  else (c.updateMdcache lbidS items, .ok)

end MdCache
end DiscoClient
