import DiscoClient.Common.SysDef
import DiscoClient.Lib.OrderedMap

/-! The cache pool of a volume: a radix tree of leaves, an LRU list through the same leaves,
and in each leaf a count of those that use it. -/
namespace DiscoClient

/-- struct tree_leaf; flag_refcnt holds the count and, as its top bit, the delete mark. -/
structure TreeLeaf (D : Type) where
  data : D
  blkid : Nat
  refcnt : Nat
  deleted : Bool
  deriving DecidableEq, Repr

/-- cache_pool_t. Leaves are named in the order of their allocation; the LRU list starts with the most
recent one. The last field logs the calls that free a leaf with its item. -/
structure CachePool (D : Type) where
  cacheSize : Nat
  cacheNum : Int
  tree : OrderedMap Nat
  lruList : List Nat
  leaves : List (TreeLeaf D)
  freedLeaves : List Nat

inductive CacheRet where
  | ok
  | eperm
  | enoent
  | e2big
  | enomem
  deriving DecidableEq, Repr

def CacheRet.isNegative : CacheRet → Bool
  | .ok => false
  | _ => true

namespace CachePool
variable {D : Type} (p : CachePool D)

def create (cacheSize : Nat) : CachePool D := ⟨cacheSize, 0, OrderedMap.empty, [], [], []⟩

def leafRefCount (id : Nat) : Nat := ((p.leaves[id]?).map TreeLeaf.refcnt).getD 0

def leafIsDelete (id : Nat) : Bool := ((p.leaves[id]?).map TreeLeaf.deleted).getD false

def leafBlkid (id : Nat) : Nat := ((p.leaves[id]?).map TreeLeaf.blkid).getD 0

def leafSetDelete (id : Nat) : CachePool D :=
  { p with leaves := p.leaves.modify id fun l => { l with deleted := true } }

def releaseTreeLeaf (id : Nat) : CachePool D :=
  match p.leaves[id]? with
  | none => p
  | some leaf =>
    if leaf.refcnt > 0 then p else { p with freedLeaves := id :: p.freedLeaves }

/-- A leaf that the tree no longer has leaves the LRU list too; it is freed unless it is in use. -/
def dropLeaf (id : Nat) : CachePool D :=
  let q := { p with lruList := p.lruList.erase id, cacheNum := p.cacheNum - 1 }
  if q.leafRefCount id > 0 then q.leafSetDelete id else q.releaseTreeLeaf id

def removeLeaf (key id : Nat) : CachePool D := { p with tree := p.tree.erase key }.dropLeaf id

/-- The loop of __kick_meta_cache over the leaves from the end of the LRU list on. -/
def kickLoop (mdCmpFn : Option (D → Bool)) (count : Int) (total : Nat) :
    List Nat → CachePool D → Nat → Bool → CachePool D × Bool
  | [], p, _, notAllClear => (p, notAllClear)
  | id :: ids, p, nr, notAllClear =>
    if (mdCmpFn.any fun f => (p.leaves[id]?).any fun l => !f l.data) then
      kickLoop mdCmpFn count total ids p nr notAllClear
    else
      let pinned := p.leafRefCount id > 0
      let p := p.removeLeaf (p.leafBlkid id) id
      let notAllClear := notAllClear || (pinned && count = -1)
      if count ≠ -1 ∧ nr + 1 ≥ total then (p, notAllClear)
      else kickLoop mdCmpFn count total ids p (nr + 1) notAllClear

def kickMetaCache (count : Int) (mdCmpFn : Option (D → Bool)) : CachePool D × Bool :=
  if count = -1 ∨ count > p.cacheNum then kickLoop mdCmpFn count (toU32 p.cacheNum) p.lruList.reverse p 0 false
  else if count = 0 ∨ count < -1 then (p, false)
  else kickLoop mdCmpFn count count.toNat p.lruList.reverse p 0 false

def maxFreeVolRetry : Nat := 30

/-- The retries of kick_meta_cache while some leaf was in use. -/
def kickRetry : Nat → CachePool D × Bool → CachePool D
  | 0, r => r.1
  | n + 1, r => if r.2 then kickRetry n (r.1.kickMetaCache (-1) none) else r.1

/-- cache_invalidate of a whole volume. -/
def cacheInvalidateVol : CachePool D := kickRetry maxFreeVolRetry (p.kickMetaCache (-1) none)

/-- The body of the loop of cache_invalidate_volLB. -/
def invalidateKey (key : Nat) : CachePool D :=
  match p.tree.lookup key with
  | none => p
  | some id => p.removeLeaf key id

def cacheInvalidateVolLB (start count : Nat) : CachePool D :=
  (List.range count).foldl (fun p i => p.invalidateKey (start + i)) p

/-- One leaf that cache_find returns: it is counted and becomes the most recent one. -/
def touchLeaf (id : Nat) : CachePool D :=
  { p with
    leaves := p.leaves.modify id fun l => { l with refcnt := l.refcnt + 1 }
    lruList := id :: p.lruList.erase id }

/-- The loop of cache_find, which sorts the leaves in the basket to the places of their keys. -/
def findLoop (start : Nat) : Nat → Nat → CachePool D → List (Option Nat) → Nat →
    CachePool D × List (Option Nat) × Nat
  | 0, _, p, basket, rret => (p, basket, rret)
  | i + 1, retOff, p, basket, rret =>
    match (basket[i]?).join with
    | none => findLoop start i retOff p (basket.set i none) rret
    | some id =>
      let j := p.leafBlkid id
      if start ≤ j ∧ j < retOff ∧ p.leafIsDelete id = false then
        findLoop start i j (p.touchLeaf id) ((basket.set i none).set (j - start) (some id)) (rret + 1)
      else findLoop start i retOff p (basket.set i none) rret

/-- cache_find: the basket of leaves, and how many there are. The end of the range is a uint64_t. -/
def cacheFind (start count : Nat) : CachePool D × List (Option Nat) × Nat :=
  let found := (p.tree.gang start count).map Prod.snd
  if found.length > 0 then
    findLoop start found.length ((start + count) % 2 ^ 64) p (found.map some ++ List.replicate (count - found.length) none) 0
  else (p, List.replicate count none, 0)

/-- The body of the loop of cache_put. -/
def putLeaf : Option Nat → CachePool D
  | none => p
  | some id =>
    let q := { p with leaves := p.leaves.modify id fun l => { l with refcnt := l.refcnt - 1 } }
    if q.leafIsDelete id = false then q
    else if q.leafRefCount id > 0 then q
    else q.releaseTreeLeaf id

def cachePut (basket : List (Option Nat)) : CachePool D := basket.foldl putLeaf p

/-- A new leaf of the tree, at the head of the LRU list. -/
def linkLeaf (key : Nat) (data : D) : CachePool D :=
  { p with
    leaves := p.leaves ++ [⟨data, key, 0, false⟩]
    tree := p.tree.insert key p.leaves.length
    lruList := p.leaves.length :: p.lruList
    cacheNum := p.cacheNum + 1 }

def failLeaf (key : Nat) (data : D) : CachePool D :=
  ({ p with leaves := p.leaves ++ [⟨data, key, 0, false⟩] } : CachePool D).releaseTreeLeaf p.leaves.length

/-- The body of the loop of cache_update: the result, and what is left in the basket. Only a key that the
tree does not have yet can need a new node. -/
def storeItem (key : Nat) (data : D) (leafMem nodeMem : Bool) : CachePool D × CacheRet × Option D :=
  if leafMem then
    match p.tree.lookup key with
    | some old => ((p.linkLeaf key data).dropLeaf old, .ok, some data)
    | none => if nodeMem then (p.linkLeaf key data, .ok, some data) else (p.failLeaf key data, .enomem, some data)
  else (p, .enomem, none)

/-- Which leaf and node allocations of a call of cache_update succeed, by the place of the item. -/
structure UpdateMem where
  leaf : Nat → Bool
  node : Nat → Bool

/-- The loop of cache_update from item i on. -/
def updateLoop (mem : UpdateMem) (start : Nat) : List D → Nat → CachePool D → CacheRet →
    CachePool D × CacheRet × List (Option D)
  | [], _, p, ret => (p, ret, [])
  | data :: items, i, p, _ =>
    match p.storeItem (start + i) data (mem.leaf i) (mem.node i) with
    | (q, ret, left) =>
      match updateLoop mem start items (i + 1) q ret with
      | (r, ret, basket) => (r, ret, left :: basket)

/-- How many leaves cache_update removes first; an int32_t there. -/
def kickCount (count : Nat) : Int :=
  let i := toS32 (p.cacheNum + count - p.cacheSize)
  if i > toS32 p.cacheSize then toS32 p.cacheSize else i

/-- The leaves that cache_update removes to make room. -/
def reclaim (count : Nat) : CachePool D :=
  if p.kickCount count > 0 then (p.kickMetaCache (p.kickCount count) none).1 else p

/-- cache_update on a pool: what it returns, and what is left in the basket. -/
def cacheUpdate (mem : UpdateMem) (start : Nat) (items : List D) : CachePool D × CacheRet × List (Option D) :=
  if items.length > p.cacheSize ∨ p.cacheSize = 0 then (p, .e2big, items.map some)
  else updateLoop mem start items 0 (p.reclaim items.length) .ok

end CachePool
end DiscoClient
