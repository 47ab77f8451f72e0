import DiscoClient.Space.PoolAccounting
import DiscoClient.Space.SmCacheMap

/-! The pool of a volume with its space cache: an allocated chunk is in alloc_chunk_pool and in the cache
until its allocation is flushed. -/
namespace DiscoClient

def AsChunk.Covers (a : AsChunk) (lb : Nat) : Prop := a.lbidS ≤ lb ∧ lb < a.lbidS + a.lbLen

instance (a : AsChunk) (lb : Nat) : Decidable (a.Covers lb) := inferInstanceAs (Decidable (_ ∧ _))

/-- A pool and its cpool. A chunk of alloc_chunk_pool is told from others by the number of allocations before it, which
stands for its address. -/
structure CachedPool where
  pool : SpacePool
  ids : List Nat
  nextId : Nat
  cpool : SmCachePool Nat

namespace CachedPool
variable (s : CachedPool)

/-- fspool_init_pool. -/
def init (volumeID : Nat) : CachedPool := ⟨SpacePool.init volumeID, [], 0, SmCachePool.initCache⟩

/-- alloc_chunk_pool, with the names of its chunks. -/
def allocs : List (Nat × AsChunk) := s.ids.zip s.pool.allocChunkPool

/-- A round of _fspool_alloc_space puts a chunk into alloc_chunk_pool. -/
def takeFrom (chunk : FsChunk) (rest : List FsChunk) (a : AsChunk) : CachedPool :=
  { s with pool := s.pool.takeFrom chunk rest a, ids := s.ids ++ [s.nextId], nextId := s.nextId + 1 }

/-- smcache_add_aschunk for the chunk of a round. -/
def addAschunk (id : Nat) (a : AsChunk) : CachedPool := { s with cpool := s.cpool.addAschunk id a.lbidS a.lbLen }

/-- The rounds of _fspool_alloc_space: a chunk without an item is in alloc_chunk_pool but not in the cache. -/
def rounds : AllocRounds CachedPool where
  pool := pool
  setChunks s chunks := { s with pool := { s.pool with spaceChunkPool := chunks } }
  record := takeFrom
  recordCached s chunk rest a := (s.takeFrom chunk rest a).addAschunk s.nextId a
  keep _ := rfl
  pool_recordCached _ _ _ _ := rfl

def allocSpace (md : SpaceMetadata) (lbS lbLen : Nat) (mem : AllocMem) : CachedPool × SpaceMetadata × AllocRet :=
  allocSpaceOn rounds s md lbS lbLen mem

/-- fspool_remove_allocspace: the list is searched by start LB, the cache cleared by range. -/
def removeAllocspace (lbidS : Nat) : CachedPool :=
  match FirstMatch.split (·.2.lbidS == lbidS) s.allocs with
  | none => s
  | some (before, c, after) =>
    { s with
      pool := s.pool.removeAllocspace lbidS
      ids := (before ++ after).map Prod.fst
      cpool := s.cpool.rmAschunk c.2.lbidS c.2.lbLen }

def Quiet : SpacePool.Event → Prop
  | .alloc _ _ _ | .remove _ => False
  | _ => True

inductive Event where
  | alloc (r : LbRange) (mem : AllocMem)
  | remove (lbidS : Nat)
  | other (e : SpacePool.Event) (quiet : Quiet e)

def step (s : CachedPool) : Event → CachedPool
  | .alloc r mem => if r.len ≤ s.pool.fsSizeRemaining then (s.allocSpace .init r.start r.len mem).1 else s
  | .remove lbidS => s.removeAllocspace lbidS
  | .other e _ => { s with pool := s.pool.step e }

def run (s : CachedPool) (es : List Event) : CachedPool := es.foldl step s

/-- The most recently allocated chunk in alloc_chunk_pool that covers an LB. -/
def newest (lb : Nat) : Option Nat := (s.allocs.reverse.find? fun c => c.2.Covers lb).map Prod.fst

def Agrees : Prop := ∀ lb, s.cpool.chunkOf lb = s.newest lb

/-- Every chunk that a request for remain LBs takes LBs from finds memory for its item. -/
def ItemsFound (mem : AllocMem) : Nat → Nat → List FsChunk → Prop
  | _, _, [] => True
  | k, remain, chunk :: rest =>
    mem.aschunkAt k = true → chunk.IsFree →
      if mem.mdItemAt k then chunk.chunkLen < remain → ItemsFound mem (k + 1) (remain - chunk.chunkLen) rest
      else chunk.taken remain = 0

/-- The chunk that a removal finds first shares no LB with another chunk of alloc_chunk_pool. -/
def RemovesApart (lbidS : Nat) : Prop :=
  ∀ before c after, FirstMatch.split (·.2.lbidS == lbidS) s.allocs = some (before, c, after) →
    ∀ d ∈ before ++ after, ∀ lb, ¬(c.2.Covers lb ∧ d.2.Covers lb)

def Fit (s : CachedPool) : Event → Prop
  | .alloc r mem =>
    r.len ≤ s.pool.fsSizeRemaining → mem.array = true → ItemsFound mem 0 r.len s.pool.spaceChunkPool
  | .remove lbidS => s.RemovesApart lbidS
  | .other _ _ => True

end CachedPool
end DiscoClient
