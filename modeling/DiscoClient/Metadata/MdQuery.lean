import DiscoClient.Metadata.MdCache

/-! Queries of the metadata cache of a volume: the cache items of a range are put together to metadata. -/
namespace DiscoClient

/-- The loop of getContTripletLength: how many triplets continue the first one, and their length. -/
def contTripletLoop (rbid offset : BitVec 32) : List (BitVec 64) → Nat → BitVec 32 → Nat × BitVec 32
  | [], retLen, accumLen => (retLen, accumLen)
  | val :: vals, retLen, accumLen =>
    let t := decomposeTriple val
    if t.rbid ≠ rbid then (retLen, accumLen)
    else if offset + accumLen ≠ t.offset then (retLen, accumLen)
    else contTripletLoop rbid offset vals (retLen + 1) (accumLen + t.len)

def getContTripletLength (val : BitVec 64) (vals : List (BitVec 64)) : Nat × BitVec 32 :=
  if vals = [] then (1, 0)
  else contTripletLoop (decomposeTriple val).rbid (decomposeTriple val).offset vals 1 (decomposeTriple val).len

/-- The while loop of merge_lr_triplet over the triplets of a data node. It stores the merged ones in
the same array, at places that it has read before. -/
def mergeTripletLoop : Nat → List (BitVec 64) → List (BitVec 64)
  | 0, _ => []
  | _, [] => []
  | fuel + 1, val :: vals =>
    let t := decomposeTriple val
    match getContTripletLength val vals with
    | (contLen, accumLen) =>
      (if contLen > 1 then composeTriple t.rbid accumLen t.offset else val) ::
        mergeTripletLoop fuel ((val :: vals).drop contLen)

/-- The body of the loop of merge_lr_triplet over the metadata items. -/
def mergeLrTriplet (item : MdataItem) : MdataItem :=
  if item.valid then
    { item with udataDnLoc := item.udataDnLoc.map fun loc =>
        { loc with rbidLenOffset := mergeTripletLoop loc.rbidLenOffset.length loc.rbidLenOffset } }
  else item

def sameDN (src dest : McacheItem) : Bool :=
  src.udataDnLoc.map (fun loc => (loc.ipaddr, loc.port)) == dest.udataDnLoc.map fun loc => (loc.ipaddr, loc.port)

def getContLenForSameDN (src : McacheItem) (items : List McacheItem) : Nat :=
  1 + (items.takeWhile (sameDN src)).length

/-- _create_MDItem: the data nodes of the first cache item, with a triplet for each LB. -/
def createMDItem (head : McacheItem) (items : List McacheItem) : MdataItem where
  valid := true
  arrHbid := items.map McacheItem.hbid
  udataDnLoc := head.udataDnLoc.zipIdx.map fun e => ⟨e.1.ipaddr, e.1.port,
    items.map fun item => ((item.udataDnLoc[e.2]?).map fun loc => composeTriple loc.rbid 1 loc.offset).getD 0⟩

/-- The loop of _create_metadata, from item cnUsed on; an allocation fails if alloc says so. -/
def createMetadataLoop (alloc : Nat → Bool) : Nat → Nat → List McacheItem → Option (List MdataItem)
  | 0, _, _ => some []
  | _, _, [] => some []
  | fuel + 1, cnUsed, head :: items =>
    let cnCont := getContLenForSameDN head items
    if alloc cnUsed then
      (createMetadataLoop alloc fuel (cnUsed + 1) ((head :: items).drop cnCont)).map
        (createMDItem head ((head :: items).take cnCont) :: ·)
    else none

/-- Which allocations of a call of _create_metadata succeed. -/
structure CreateMem where
  array : Bool
  mdItem : Nat → Bool

def createMetadata (mem : CreateMem) (items : List McacheItem) : Option (List MdataItem) :=
  if mem.array then createMetadataLoop mem.mdItem items.length 0 items else none

/-- metadata_t: the range that the volume was asked for, and the items. -/
structure Metadata where
  lbidStart : BitVec 64
  lbidLen : Nat
  items : List MdataItem
  deriving DecidableEq, Repr

namespace MdCache

/-- _get_max_seg_len: how far the cache items go on being there, or not. -/
def getMaxSegLen (first : Option McacheItem) (rest : List (Option McacheItem)) : Nat :=
  1 + (rest.takeWhile fun item => item.isSome == first.isSome).length

/-- The while loop of query_volume_MDCache. The LBID is kept in an int32_t; a segment for which
_create_metadata fails is tried again. -/
def queryLoop : Nat → BitVec 32 → List (Option McacheItem) → List CreateMem → Option (List Metadata)
  | _, _, [], _ => some []
  | 0, _, _, _ => none
  | fuel + 1, lstartLb, first :: rest, mems =>
    let segLen := getMaxSegLen first rest
    let next (items : List MdataItem) (mems : List CreateMem) : Option (List Metadata) :=
      (queryLoop fuel (lstartLb + BitVec.ofNat 32 segLen) ((first :: rest).drop segLen) mems).map
        (⟨lstartLb.signExtend 64, segLen, items⟩ :: ·)
    if first.isSome then
      match createMetadata (mems.headD ⟨true, fun _ => true⟩) (((first :: rest).take segLen).filterMap id) with
      | none => queryLoop fuel lstartLb (first :: rest) mems.tail
      | some items => next (items.map mergeLrTriplet) mems.tail
    else next [] mems

variable (c : MdCache)

/-- cache_find for a volume: the basket, and the result, which is -ENOENT without a pool. -/
def cacheFind (start count : Nat) : MdCache × List (Option Nat) × Int :=
  match c.pool with
  | none => (c, List.replicate count none, -2)
  | some p =>
    match p.cacheFind start count with
    | (q, basket, ret) => ({ c with pool := some q }, basket, ret)

def cachePut (basket : List (Option Nat)) : MdCache := { c with pool := c.pool.map fun p => p.cachePut basket }

def leafItem (id : Nat) : Option McacheItem := c.pool.bind fun p => (p.leaves[id]?).map TreeLeaf.data

/-- query_volume_MDCache: the metadata it returns, if it does after as many turns of its loop as there is fuel. -/
def queryVolumeMDCache (lbidS lbidLen : Nat) (queryCache : Bool) (mems : List CreateMem) (fuel : Nat) :
    Option (MdCache × List Metadata) :=
  if queryCache = false then some (c, [⟨BitVec.ofNat 64 lbidS, lbidLen, []⟩])
  else
    match c.cacheFind lbidS lbidLen with
    | (d, basket, ret) =>
      (queryLoop fuel (BitVec.ofNat 32 lbidS) (basket.map fun slot => slot.bind d.leafItem) mems).map
        fun mds => (if ret > 0 then d.cachePut basket else d, mds)

end MdCache
end DiscoClient
