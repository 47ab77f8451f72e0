import DiscoClient.Common.CachePool
import DiscoClient.Lib.ChainIndex
import DiscoClient.Lib.GuardedMachine

/-! The table of the HBIDs that a cache pool holds: the parts of common/cache.c under DISCO_ERC_SUPPORT. -/
namespace DiscoClient

def hbidTblSize : Nat := 4096

def hbidTblModVal : Nat := hbidTblSize - 1

/-- The list of hbid_table that an HBID belongs to. -/
def hbidHead (hbid : BitVec 64) : Nat := hbid.toNat &&& hbidTblModVal

/-- hbid_table of cache_pool_t, with a list of LBIDs in each hbid_ht_item_t. -/
abbrev HbidTable : Type := ChainIndex hbidHead Nat

structure HbidMem where
  lbidItem : Bool
  hbidItem : Bool
  deriving DecidableEq, Repr

namespace HbidTable
variable (t : HbidTable)

/-- Whether _insert_hbid_htbl finds an item for an HBID. -/
def hasItem (hbid : BitVec 64) : Bool := (t.chains (hbidHead hbid)).any fun item => item.key = hbid

/-- _insert_hbid_htbl: an HBID that has no item yet needs one, besides the item of the LBID. -/
def insertHbidHtbl (mem : HbidMem) (lbid : Nat) (hbid : BitVec 64) : HbidTable :=
  if mem.lbidItem ∧ (t.hasItem hbid ∨ mem.hbidItem) then t.modify hbid (Chain.add hbid lbid) else t

def removeHbidTbl (lbid : Nat) (hbid : BitVec 64) : HbidTable := t.modify hbid (Chain.remove hbid lbid)

/-- _remove_hbid: the LBIDs that it moves to the caller's list. -/
def removeHbid (hbid : BitVec 64) : List Nat × HbidTable :=
  ((Chain.take hbid (t.chains (hbidHead hbid))).1, t.modify hbid fun c => (Chain.take hbid c).2)

end HbidTable

/-- cache_pool_t with its table. -/
structure ErcPool (D : Type) where
  pool : CachePool D
  hbidTable : HbidTable

namespace ErcPool
variable {D : Type} (hbid : D → BitVec 64) (e : ErcPool D)

def create (cacheSize : Nat) : ErcPool D := ⟨CachePool.create cacheSize, ChainIndex.empty⟩

def removeLeaf (key id : Nat) : ErcPool D :=
  ⟨e.pool.removeLeaf key id,
    match e.pool.leaves[id]? with
    | none => e.hbidTable
    | some leaf => e.hbidTable.removeHbidTbl leaf.blkid (hbid leaf.data)⟩

/-- The loop of __kick_meta_cache. -/
def kickLoop (mdCmpFn : Option (D → Bool)) (count : Int) (total : Nat) :
    List Nat → ErcPool D → Nat → Bool → ErcPool D × Bool
  | [], e, _, notAllClear => (e, notAllClear)
  | id :: ids, e, nr, notAllClear =>
    if (mdCmpFn.any fun f => (e.pool.leaves[id]?).any fun l => !f l.data) then
      kickLoop mdCmpFn count total ids e nr notAllClear
    else
      let pinned := e.pool.leafRefCount id > 0
      let e := e.removeLeaf hbid (e.pool.leafBlkid id) id
      let notAllClear := notAllClear || (pinned && count = -1)
      if count ≠ -1 ∧ nr + 1 ≥ total then (e, notAllClear)
      else kickLoop mdCmpFn count total ids e (nr + 1) notAllClear

def kickMetaCache (count : Int) (mdCmpFn : Option (D → Bool)) : ErcPool D × Bool :=
  if count = -1 ∨ count > e.pool.cacheNum then
    kickLoop hbid mdCmpFn count (toU32 e.pool.cacheNum) e.pool.lruList.reverse e 0 false
  else if count = 0 ∨ count < -1 then (e, false)
  else kickLoop hbid mdCmpFn count count.toNat e.pool.lruList.reverse e 0 false

/-- The body of the loop of cache_invalidate_volLB. -/
def invalidateKey (key : Nat) : ErcPool D :=
  match e.pool.tree.lookup key with
  | none => e
  | some id => e.removeLeaf hbid key id

def cacheInvalidateVolLB (start count : Nat) : ErcPool D :=
  (List.range count).foldl (fun e i => e.invalidateKey hbid (start + i)) e

/-- cache_invalidate_by_HBID on a pool. What _cache_invalidate_lockless drops stays in the table. -/
def cacheInvalidateByHbid (h : BitVec 64) : ErcPool D :=
  ⟨(e.hbidTable.removeHbid h).1.foldl CachePool.invalidateKey e.pool, (e.hbidTable.removeHbid h).2⟩

/-- The body of the loop of cache_update. The leaf that a new one replaces stays in the table. -/
def storeItem (key : Nat) (data : D) (leafMem nodeMem : Bool) (hbidMem : HbidMem) : ErcPool D × CacheRet × Option D :=
  let r := e.pool.storeItem key data leafMem nodeMem
  (⟨r.1, if r.2.1 = .ok then e.hbidTable.insertHbidHtbl hbidMem key (hbid data) else e.hbidTable⟩, r.2)

/-- The loop of cache_update from item i on. -/
def updateLoop (mem : CachePool.UpdateMem) (hbidMem : Nat → HbidMem) (start : Nat) : List D → Nat → ErcPool D → CacheRet →
    ErcPool D × CacheRet × List (Option D)
  | [], _, e, ret => (e, ret, [])
  | data :: items, i, e, _ =>
    let r := e.storeItem hbid (start + i) data (mem.leaf i) (mem.node i) (hbidMem i)
    let rest := updateLoop mem hbidMem start items (i + 1) r.1 r.2.1
    (rest.1, rest.2.1, r.2.2 :: rest.2.2)

/-- The leaves that cache_update removes to make room. -/
def reclaim (count : Nat) : ErcPool D :=
  if e.pool.kickCount count > 0 then (e.kickMetaCache hbid (e.pool.kickCount count) none).1 else e

/-- cache_update on a pool. -/
def cacheUpdate (mem : CachePool.UpdateMem) (hbidMem : Nat → HbidMem) (start : Nat) (items : List D) :
    ErcPool D × CacheRet × List (Option D) :=
  if items.length > e.pool.cacheSize ∨ e.pool.cacheSize = 0 then (e, .e2big, items.map some)
  else updateLoop hbid mem hbidMem start items 0 (e.reclaim hbid items.length) .ok

end ErcPool

inductive ErcEvent (D : Type) where
  | update (start : Nat) (items : List D)
  | evict (count : Int) (mdCmpFn : Option (D → Bool))
  | invalidate (start count : Nat)
  | invalidateHb (h : BitVec 64)

namespace ErcPool
variable {D : Type} (hbid : D → BitVec 64)

def step (e : ErcPool D) : ErcEvent D → ErcPool D
  | .update start items => (e.cacheUpdate hbid ⟨fun _ => true, fun _ => true⟩ (fun _ => ⟨true, true⟩) start items).1
  | .evict count mdCmpFn => (e.kickMetaCache hbid count mdCmpFn).1
  | .invalidate start count => e.cacheInvalidateVolLB hbid start count
  | .invalidateHb h => e.cacheInvalidateByHbid h

def machine : GuardedMachine (ErcPool D) (ErcEvent D) := ⟨fun _ _ => True, step hbid⟩

section Pool
variable (e : ErcPool D)

theorem pool_kickLoop (mdCmpFn : Option (D → Bool)) (count : Int) (total : Nat) (ids : List Nat) (nr : Nat) (flag : Bool) :
    (kickLoop hbid mdCmpFn count total ids e nr flag).1.pool =
      (CachePool.kickLoop mdCmpFn count total ids e.pool nr flag).1 := by
  induction ids generalizing e nr flag with
  | nil => rfl
  | cons id ids ih =>
    rw [kickLoop, CachePool.kickLoop]
    dsimp only
    split_ifs
    · exact ih _ _ _
    · rfl
    · exact ih _ _ _

theorem pool_reclaim (count : Nat) : (e.reclaim hbid count).pool = e.pool.reclaim count := by
  rw [reclaim, CachePool.reclaim, kickMetaCache, CachePool.kickMetaCache]
  split_ifs
  · exact pool_kickLoop _ _ _ _ _ _ _ _
  · rfl
  · exact pool_kickLoop _ _ _ _ _ _ _ _
  · rfl

end Pool
end ErcPool
end DiscoClient
