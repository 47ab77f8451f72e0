import DiscoClient.Space.SpaceChunk
import DiscoClient.Common.Triple
import DiscoClient.Lib.FirstMatch

/-! The pool of preallocated space of a volume: metadata_manager/space_storage_pool.c. Every operation holds
the write side of space_plock (the report of unused space its read side). -/
namespace DiscoClient

/-- metaD_DNLoc_t as aschunk_fill_metadata fills it: one physical location. -/
structure SpaceDnLoc where
  ipaddr : Nat
  port : Nat
  rbidLenOffset : BitVec 64
  deriving DecidableEq, Repr

/-- metaD_item_t as aschunk_fill_metadata fills it. -/
structure SpaceMdItem where
  lbidS : Nat
  numHbids : Nat
  arrHbid : List Nat
  udataDnLoc : List SpaceDnLoc
  deriving DecidableEq, Repr

/-- aschunk_fill_metadata. -/
def AsChunk.fillMetadata (a : AsChunk) : SpaceMdItem where
  lbidS := a.lbidS
  numHbids := a.lbLen
  arrHbid := (List.range a.lbLen).map fun i => (a.hbidS + i) % 2 ^ 64
  udataDnLoc := a.chunkDNLoc.map fun loc =>
    ⟨loc.ipaddr, loc.port,
      composeTriple (BitVec.ofNat 32 loc.rbid) (BitVec.ofNat 32 a.lbLen) (BitVec.ofNat 32 loc.offset)⟩

/-- metadata_t: an item stored behind the end of the array is an overrun. -/
structure SpaceMetadata where
  arrayMetadata : List (Option SpaceMdItem)
  numMDItems : Nat
  overrun : Bool
  deriving DecidableEq, Repr

/-- init_metadata. -/
def SpaceMetadata.init : SpaceMetadata := ⟨[], 0, false⟩

/-- The next item of the array, whose count is a uint16_t. -/
def SpaceMetadata.push (md : SpaceMetadata) (it : SpaceMdItem) : SpaceMetadata where
  arrayMetadata := md.arrayMetadata.set md.numMDItems (some it)
  numMDItems := (md.numMDItems + 1) % 2 ^ 16
  overrun := md.overrun || decide (md.arrayMetadata.length ≤ md.numMDItems)

/-- freespace_pool_t; its counters are of type uint32_t. -/
structure SpacePool where
  volumeID : Nat
  fsSizeRemaining : Nat
  fsSizeRequesting : Nat
  spaceChunkPool : List FsChunk
  allocChunkPool : List AsChunk
  numSpaceChunk : Nat
  numAllocUnit : Nat
  deriving DecidableEq, Repr

/-- Which allocations of _fspool_alloc_space find memory: that of the array, and in each round those of the
allocated chunk and the metadata item. Nothing fails beyond the end of a list. -/
structure AllocMem where
  array : Bool
  aschunk : List Bool
  mdItem : List Bool
  deriving DecidableEq, Repr

namespace AllocMem

def aschunkAt (mem : AllocMem) (k : Nat) : Bool := mem.aschunk[k]?.getD true

def mdItemAt (mem : AllocMem) (k : Nat) : Bool := mem.mdItem[k]?.getD true

end AllocMem

/-- What _fspool_alloc_space returns. -/
inductive AllocRet where
  | ok
  | enoent
  | enomem
  deriving DecidableEq, Repr

/-- spool_invalChunk_resp_t, for a volume that has a pool. -/
inductive SpoolInvalChunkResp where
  | ok
  | noChunk
  | fail
  deriving DecidableEq, Repr

namespace SpacePool

/-- fspool_init_pool. -/
def init (volumeID : Nat) : SpacePool := ⟨volumeID, 0, 0, [], [], 0, 0⟩

/-- _fspool_add_fschunk. -/
def addFschunk (pool : SpacePool) (chunk : FsChunk) : SpacePool :=
  { pool with
    spaceChunkPool := pool.spaceChunkPool ++ [chunk]
    fsSizeRemaining := toU32 (pool.fsSizeRemaining + chunk.chunkLen)
    numSpaceChunk := toU32 (pool.numSpaceChunk + 1) }

/-- fspool_inval_fschunk: the chunk found first is invalidated and its unused HBID reported. -/
def invalFschunk (pool : SpacePool) (chunkID : Nat) : SpacePool × SpoolInvalChunkResp × Nat :=
  match FirstMatch.split (·.chunkID == chunkID) pool.spaceChunkPool with
  | none => (pool, .noChunk, 0)
  | some (before, chunk, after) =>
    match chunk.invalidateChunk with
    | (chunk', .ok) =>
      let t := chunk'.reportUnuse
      ({ pool with
          spaceChunkPool := before ++ t.1 :: after
          fsSizeRemaining := toU32 (pool.fsSizeRemaining - chunk.chunkLen) },
        if t.2.isSome then .ok else .fail, t.2.getD 0)
    | (chunk', _) => ({ pool with spaceChunkPool := before ++ chunk' :: after }, .fail, 0)

/-- What a round of _fspool_alloc_space does to the pool: the allocated chunk is recorded, and the chunk
it was taken from goes with its last LB. -/
def takeFrom (pool : SpacePool) (chunk : FsChunk) (rest : List FsChunk) (a : AsChunk) : SpacePool :=
  { pool with
    allocChunkPool := pool.allocChunkPool ++ [a]
    numAllocUnit := toU32 (pool.numAllocUnit + 1)
    fsSizeRemaining := toU32 (pool.fsSizeRemaining - a.lbLen)
    spaceChunkPool := if chunk.chunkLen = 0 then rest else chunk :: rest
    numSpaceChunk := if chunk.chunkLen = 0 then toU32 (pool.numSpaceChunk - 1) else pool.numSpaceChunk }

end SpacePool

/-- What the rounds of _fspool_alloc_space work on: a pool, or a pool with its cache. -/
structure AllocRounds (S : Type) where
  pool : S → SpacePool
  setChunks : S → List FsChunk → S
  /-- The allocated chunk goes into alloc_chunk_pool, and without an item nowhere else. -/
  record : S → FsChunk → List FsChunk → AsChunk → S
  recordCached : S → FsChunk → List FsChunk → AsChunk → S
  keep : ∀ s, setChunks s (pool s).spaceChunkPool = s
  pool_recordCached : ∀ s chunk rest a, pool (recordCached s chunk rest a) = (pool s).takeFrom chunk rest a

section
variable {S : Type} (r : AllocRounds S)

/-- The rounds of _fspool_alloc_space from round k on; each but the last uses its chunk up. -/
def allocRounds (mem : AllocMem) : Nat → S → SpaceMetadata → Nat → Nat → Nat → S × SpaceMetadata × AllocRet
  | 0, s, md, _, _, _ => (s, md, .enoent)
  | fuel + 1, s, md, k, lbS, remain =>
    match (r.pool s).spaceChunkPool with
    | [] => (s, md, .enoent)
    | chunk :: rest =>
      match chunk.allocSpace lbS remain (mem.aschunkAt k) with
      | (chunk', none) => (r.setChunks s (chunk' :: rest), md, .enomem)
      | (chunk', some a) =>
        if mem.mdItemAt k then
          let s' := r.recordCached s chunk' rest a.commitChunk
          let md' := md.push a.fillMetadata
          let remain' := toU32 (remain - a.lbLen)
          if 0 < remain' then allocRounds mem fuel s' md' (k + 1) ((lbS + a.lbLen) % 2 ^ 64) remain'
          else (s', md', .ok)
        else (r.record s chunk' rest a, md, .enomem)

/-- _fspool_alloc_space: a new array for the items, whose count goes on. -/
def allocSpaceOn (s : S) (md : SpaceMetadata) (lbS lbLen : Nat) (mem : AllocMem) : S × SpaceMetadata × AllocRet :=
  if mem.array then
    allocRounds r mem ((r.pool s).spaceChunkPool.length + 1) s { md with arrayMetadata := List.replicate lbLen none } 0 lbS
      lbLen
  else (s, { md with arrayMetadata := [] }, .enomem)

end

namespace SpacePool

def rounds : AllocRounds SpacePool :=
  ⟨id, fun pool chunks => { pool with spaceChunkPool := chunks }, takeFrom, takeFrom, fun _ => rfl, fun _ _ _ _ => rfl⟩

def allocSpace (pool : SpacePool) (md : SpaceMetadata) (lbS lbLen : Nat) (mem : AllocMem) :
    SpacePool × SpaceMetadata × AllocRet :=
  allocSpaceOn rounds pool md lbS lbLen mem

/-- fspool_update_fsSizeRequesting. -/
def updateFsSizeRequesting (pool : SpacePool) (doInc : Bool) : SpacePool :=
  { pool with
    fsSizeRequesting :=
      if doInc then toU32 (pool.fsSizeRequesting + 1) else toU32 (pool.fsSizeRequesting - 1) }

/-- The loop of _fspool_cleanup_pool_fschunk. -/
def cleanupLoop (num : Nat) : List FsChunk → List FsChunk × Nat
  | [] => ([], num)
  | chunk :: rest =>
    match chunk.cleanupChunk with
    | (_, true) => cleanupLoop (toU32 (num - 1)) rest
    | (chunk', false) => let r := cleanupLoop num rest; (chunk' :: r.1, r.2)

/-- _fspool_cleanup_pool_fschunk. -/
def cleanupPoolFschunk (pool : SpacePool) : SpacePool :=
  let r := cleanupLoop pool.numSpaceChunk pool.spaceChunkPool
  { pool with spaceChunkPool := r.1, numSpaceChunk := r.2 }

/-- The loop of _fspool_inval_pool_fschunk. -/
def invalLoop (remaining : Nat) : List FsChunk → List FsChunk × Nat
  | [] => ([], remaining)
  | chunk :: rest =>
    match chunk.invalidateChunk with
    | (chunk', .ok) => let r := invalLoop (toU32 (remaining - chunk.chunkLen)) rest; (chunk' :: r.1, r.2)
    | (chunk', _) => let r := invalLoop remaining rest; (chunk' :: r.1, r.2)

/-- _fspool_inval_pool_fschunk. -/
def invalPoolFschunk (pool : SpacePool) : SpacePool :=
  let r := invalLoop pool.fsSizeRemaining pool.spaceChunkPool
  { pool with spaceChunkPool := r.1, fsSizeRemaining := r.2 }

/-- _fspool_report_chunk_unuse: the chunks and the HBIDs that are reported. -/
def reportChunkUnuse (pool : SpacePool) : SpacePool × List (Nat × Nat) :=
  ({ pool with spaceChunkPool := pool.spaceChunkPool.map fun chunk => chunk.reportUnuse.1 },
    pool.spaceChunkPool.filterMap fun chunk => chunk.reportUnuse.2.map fun hbid => (chunk.chunkID, hbid))

/-- _fspool_report_chunk_alloc: the items that are flushed. -/
def reportChunkAlloc (pool : SpacePool) : SpacePool × List SpaceMdItem :=
  ({ pool with allocChunkPool := pool.allocChunkPool.map fun a => a.flushChunk.1 },
    pool.allocChunkPool.filterMap fun a => if a.flushChunk.2 then some a.fillMetadata else none)

/-- fspool_remove_allocspace. -/
def removeAllocspace (pool : SpacePool) (lbidS : Nat) : SpacePool :=
  match FirstMatch.split (·.lbidS == lbidS) pool.allocChunkPool with
  | none => pool
  | some (before, _, after) =>
    { pool with allocChunkPool := before ++ after, numAllocUnit := toU32 (pool.numAllocUnit - 1) }

end SpacePool
end DiscoClient
