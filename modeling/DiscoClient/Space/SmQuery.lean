import DiscoClient.Lib.Runs
import DiscoClient.Metadata.TripletMerge
import DiscoClient.Space.SmCacheMap
import DiscoClient.Space.SpaceChunk

/-! Queries of the space cache: the chunks of a range are put together to metadata. The caller sees to it that no chunk
is freed, so the cache holds the chunks themselves. -/
namespace DiscoClient

namespace AsChunk

/-- What _get_contlen_aschunk compares of two chunks: the number of their replicas, and the data node of each. -/
def dataNodes (a : AsChunk) : List (BitVec 32 × BitVec 32) :=
  a.chunkDNLoc.map fun loc => (BitVec.ofNat 32 loc.ipaddr, BitVec.ofNat 32 loc.port)

/-- HBID of an LB of a chunk, a uint64_t. -/
def hbidAt (a : AsChunk) (lb : Nat) : BitVec 64 := BitVec.ofNat 64 a.hbidS + (BitVec.ofNat 64 lb - BitVec.ofNat 64 a.lbidS)

/-- Offset of an LB of a chunk at a replica, an int32_t. -/
def offsetAt (a : AsChunk) (loc : McacheDnloc) (lb : Nat) : BitVec 32 :=
  BitVec.ofNat 32 loc.offset + (BitVec.ofNat 64 lb - BitVec.ofNat 64 a.lbidS).setWidth 32

end AsChunk

/-- _get_contlen_aschunk of a chunk and those after it. -/
def getContlenAschunk (src : AsChunk) (chunks : List AsChunk) : Nat :=
  1 + (chunks.takeWhile fun dest => dest.dataNodes == src.dataNodes).length

/-- _smcache_create_MDItem: the data nodes of the first chunk, with a triplet for each LB. -/
def smcacheCreateMDItem (startLB : Nat) (head : AsChunk) (chunks : List AsChunk) : MdataItem where
  valid := true
  arrHbid := chunks.zipIdx.map fun e => e.1.hbidAt (startLB + e.2)
  udataDnLoc := head.chunkDNLoc.zipIdx.map fun d => ⟨BitVec.ofNat 32 d.1.ipaddr, BitVec.ofNat 32 d.1.port,
    chunks.zipIdx.map fun e => ((e.1.chunkDNLoc[d.2]?).map fun loc =>
      composeTriple (BitVec.ofNat 32 loc.rbid) 1 (e.1.offsetAt loc (startLB + e.2))).getD 0⟩

/-- The loop of _smcache_create_metadata, from item cnUsed on; an allocation fails if alloc says so. -/
def smcacheCreateMetadataLoop (alloc : Nat → Bool) : Nat → Nat → Nat → List AsChunk → Option (List MdataItem)
  | 0, _, _, _ => some []
  | _, _, _, [] => some []
  | fuel + 1, cnUsed, startLB, head :: chunks =>
    let cnCont := getContlenAschunk head chunks
    if alloc cnUsed then
      (smcacheCreateMetadataLoop alloc fuel (cnUsed + 1) (startLB + cnCont) ((head :: chunks).drop cnCont)).map
        (smcacheCreateMDItem startLB head ((head :: chunks).take cnCont) :: ·)
    else none

def smcacheCreateMetadata (mem : CreateMem) (startLB : Nat) (chunks : List AsChunk) : Option (List MdataItem) :=
  if mem.array then smcacheCreateMetadataLoop mem.mdItem chunks.length 0 startLB chunks else none

/-- The body of the loop of _smcache_merge_triplet over the metadata items, which has the text of merge_lr_triplet. -/
def smcacheMergeTriplet (item : MdataItem) : MdataItem := mergeLrTripletInPlace item

/-- _get_chitstat_max_seglen: how far the chunks go on being there, or not. -/
def getChitstatMaxSeglen (first : Option AsChunk) (rest : List (Option AsChunk)) : Nat :=
  1 + (rest.takeWhile fun chunk => chunk.isSome == first.isSome).length

namespace SmCachePool

/-- The while loop of smcache_query_MData: ret_bk and the buckets it filled. A bucket is counted before its
metadata is made; if that fails, the segment is tried again. -/
def queryLoop : Nat → Nat → List (Option AsChunk) → List CreateMem → Nat → Option (Nat × List Metadata)
  | _, _, [], _, retBk => some (retBk, [])
  | 0, _, _, _, _ => none
  | fuel + 1, lbStart, first :: rest, mems, retBk =>
    let segLen := getChitstatMaxSeglen first rest
    let next (items : List MdataItem) (mems : List CreateMem) : Option (Nat × List Metadata) :=
      (queryLoop fuel (lbStart + segLen) ((first :: rest).drop segLen) mems (retBk + 1)).map
        fun out => (out.1, ⟨BitVec.ofNat 64 lbStart, segLen, items⟩ :: out.2)
    if first.isSome then
      match smcacheCreateMetadata (mems.headD ⟨true, fun _ => true⟩) lbStart (((first :: rest).take segLen).filterMap id) with
      | none => queryLoop fuel lbStart (first :: rest) mems.tail (retBk + 1)
      | some items => next (items.map smcacheMergeTriplet) mems.tail
    else next [] mems

/-- smcache_query_MData: its result and the buckets it filled, if it returns after as many turns of its loop as there is
fuel. -/
def queryMData (cpool : SmCachePool AsChunk) (lbS lbLen : Nat) (mems : List CreateMem) (fuel : Nat) :
    Option (Nat × List Metadata) :=
  if (cpool.findAschunk lbS lbLen).2 = 0 then some (1, [⟨BitVec.ofNat 64 lbS, lbLen, []⟩])
  else queryLoop fuel lbS (cpool.findAschunk lbS lbLen).1 mems 0

end SmCachePool

/-! ### Memory and the segments -/

/-- There is memory for the array, and for one item for each run of LBs on the same data nodes. -/
def CreateMem.Suffices (mem : CreateMem) (chunks : List AsChunk) : Prop :=
  mem.array = true ∧ ∀ j < (Runs.runs AsChunk.dataNodes chunks).length, mem.mdItem j = true

def hitRuns (chunks : List (Option AsChunk)) : List (List AsChunk) :=
  ((Runs.runs Option.isSome chunks).map fun r => r.filterMap id).filter fun r => r ≠ []

end DiscoClient
