import DiscoClient.Common.SysDef
import DiscoClient.Lib.Slices

/-! The payload of a write request, which lies in chunks of 128 KB, and the data vectors
that a data node request takes from it. -/
namespace DiscoClient

def maxSizeKernelMemChunk : Nat := 128 * 1024
def bitLenMemChunk : Nat := 17
def dmsLbSize : Nat := 4096
def maxLbPerMemChunk : Nat := maxSizeKernelMemChunk / dmsLbSize
def maxNumMemChunkBuff : Nat := maxSectsPerRq * 512 / maxSizeKernelMemChunk + 1

/-- The loop of _ioReq_alloc_wiobuff from chunk cnt on, with room entries left in the array: the sizes it
stores. None when the pool gives no chunk, or past the end of the array. -/
def allocWiobuffLoop (pool : Nat → Bool) : Nat → Nat → Nat → Option (List Nat)
  | _, _, 0 => some []
  | 0, _, _ + 1 => none
  | room + 1, cnt, n + 1 =>
    let chunkLb := if n + 1 ≥ maxLbPerMemChunk then maxLbPerMemChunk else n + 1
    if pool cnt then
      (allocWiobuffLoop pool room (cnt + 1) (n + 1 - chunkLb)).map ((chunkLb <<< bitLenDmsLbSize) :: ·)
    else none

/-- _ioReq_alloc_wiobuff; the length is an int32_t there. -/
def ioReqAllocWiobuff (pool : Nat → Bool) (lbidLen : Nat) : Option (List Nat) :=
  allocWiobuffLoop pool maxNumMemChunkBuff 0 (if lbidLen < 2 ^ 31 then lbidLen else 0)

structure IoPayload (β : Type) where
  lbidLen : Nat
  chunks : List (List β)
  chunkItemSize : List Nat
  lbidLen_lt : lbidLen < 2 ^ 31
  allocated : ∃ pool, ioReqAllocWiobuff pool lbidLen = some chunkItemSize
  length_chunks : chunks.length = chunkItemSize.length
  chunk_size : ∀ chunk ∈ chunks, chunk.length = maxSizeKernelMemChunk

structure IoVec where
  chunk : Nat
  off : Nat
  len : Nat
  deriving DecidableEq, Repr

namespace IoPayload
variable {β : Type} (d : IoPayload β)

def blocks : List (List β) := List.zipWith (fun chunk size => chunk.take size) d.chunks d.chunkItemSize

def bytes : List β := d.blocks.flatten

def vecBytes (v : IoVec) : List β := slice ((d.chunks[v.chunk]?).getD []) v.off v.len

/-- _get_data_buffer_loc; none for a chunk that the payload does not have. -/
def getDataBufferLoc (payloadOffset len : Nat) : Option IoVec :=
  let chunkIndex := (payloadOffset >>> bitLenMemChunk) % 2 ^ 32
  let chunkStart := (chunkIndex <<< bitLenMemChunk) % 2 ^ 32
  (d.chunkItemSize[chunkIndex]?).map fun size =>
    ⟨chunkIndex, payloadOffset - chunkStart,
      if chunkStart + size ≥ (payloadOffset + len) % 2 ^ 64 then len else toU32 (chunkStart + size - payloadOffset)⟩

/-- The loop of init_DNUDReq_Write, with room entries left in UDataSeg. -/
def uDataSegLoop : Nat → Nat → Nat → Option (List IoVec)
  | _, _, 0 => some []
  | 0, _, _ + 1 => none
  | room + 1, dataOff, dnlen + 1 =>
    (d.getDataBufferLoc dataOff ((dnlen + 1) % 2 ^ 32)).bind fun v =>
      (uDataSegLoop room ((dataOff + v.len) % 2 ^ 64) ((dnlen + 1 + 2 ^ 64 - v.len) % 2 ^ 64)).map (v :: ·)

end IoPayload

structure WriteItem where
  lbidS : Nat
  numHbids : Nat
  numDnLoc : Nat
  deriving DecidableEq, Repr

/-- DNUData_Req_t of a write, as submit_DNUData_Write_Request queues it. -/
structure DnWriteReq where
  dnLocIdx : Nat
  numHbids : Nat
  dnPayloadOffset : Nat
  uDataSeg : List IoVec
  deriving DecidableEq, Repr

/-- What the system answers: whether there is a payload request, the bucket of each data node request, and
whether there is one. -/
structure SubmitEnv where
  plReqMem : Bool
  bkIdx : Nat → Int
  dnReqMem : Nat → Bool

namespace IoPayload
variable {β : Type} (d : IoPayload β)

/-- DNUDReq_init_Req and init_DNUDReq_Write; num_hbids is a uint16_t of the request. -/
def initDnUdReqWrite (item : WriteItem) (dnLocIdx payloadOffset : Nat) : Option DnWriteReq :=
  let numHbids := item.numHbids % 2 ^ 16
  (d.uDataSegLoop maxLbsPerIor payloadOffset (numHbids <<< bitLenDmsLbSize)).map fun segs =>
    ⟨dnLocIdx, numHbids, payloadOffset, segs⟩

/-- The loop of _gen_submit_DNWriteReq, from location i on with left ones to come. -/
def genSubmitDnWriteReq (item : WriteItem) (payloadOffset : Nat) (sys : SubmitEnv) :
    Nat → Nat → Option (List DnWriteReq)
  | 0, _ => some []
  | left + 1, i =>
    if sys.bkIdx i > i then some []
    else if sys.dnReqMem i then
      (d.initDnUdReqWrite item i payloadOffset).bind fun r =>
        (genSubmitDnWriteReq item payloadOffset sys left (i + 1)).map (r :: ·)
    else genSubmitDnWriteReq item payloadOffset sys left (i + 1)

def submitWritePlReq (item : WriteItem) (payloadOff : Nat) (sys : SubmitEnv) : Option (List DnWriteReq) :=
  if sys.plReqMem then d.genSubmitDnWriteReq item payloadOff sys item.numDnLoc 0 else some []

/-- PLMgr_write_payload from item i on: the data node requests of each item. -/
def plMgrWritePayload (sys : Nat → SubmitEnv) : Nat → Nat → List WriteItem → Option (List (List DnWriteReq))
  | _, _, [] => some []
  | i, plOffset, item :: items =>
    (d.submitWritePlReq item plOffset (sys i)).bind fun rs =>
      (plMgrWritePayload sys (i + 1) ((plOffset + (item.numHbids <<< bitLenDmsLbSize) % 2 ^ 32) % 2 ^ 64) items).map
        (rs :: ·)

end IoPayload

private theorem allocWiobuffLoop_sizes {pool : Nat → Bool} (room : Nat) {cnt n : Nat} {sizes : List Nat}
    (h : allocWiobuffLoop pool room cnt n = some sizes) :
    sizes.length ≤ room ∧ ∀ k, sizes[k]? = if k * 32 < n then some (min 32 (n - k * 32) * 4096) else none := by
  induction room generalizing cnt n sizes with
  | zero =>
    cases n with
    | zero =>
      obtain rfl : [] = sizes := by simpa [allocWiobuffLoop] using h
      exact ⟨le_rfl, fun k => by simp⟩
    | succ n => cases h
  | succ room ih =>
    cases n with
    | zero =>
      obtain rfl : [] = sizes := by simpa [allocWiobuffLoop] using h
      exact ⟨by simp, fun k => by simp⟩
    | succ n =>
      have hmin : (if n + 1 ≥ maxLbPerMemChunk then maxLbPerMemChunk else n + 1) = min 32 (n + 1) := by
        rw [show maxLbPerMemChunk = 32 from rfl]
        split_ifs with hge
        · rw [Nat.min_eq_left hge]
        · rw [Nat.min_eq_right (by omega)]
      rw [allocWiobuffLoop, hmin] at h
      obtain ⟨-, hp⟩ | ⟨-, hp⟩ := ite_eq_iff.mp h
      · obtain ⟨rest, hrest, rfl⟩ := Option.map_eq_some_iff.mp hp
        obtain ⟨hlen, hget⟩ := ih hrest
        refine ⟨Nat.succ_le_succ hlen, fun k => ?_⟩
        cases k with
        | zero => simp [bitLenDmsLbSize, Nat.shiftLeft_eq]
        | succ k =>
          rw [List.getElem?_cons_succ, hget k]
          by_cases hk : (k + 1) * 32 < n + 1
          · rw [if_pos hk, if_pos (by omega)]
            congr 3
            omega
          · rw [if_neg hk, if_neg (by omega)]
      · cases hp

namespace IoPayload
variable {β : Type} (d : IoPayload β)

theorem chunkItemSize_spec : d.chunkItemSize.length ≤ 2 ∧
    ∀ k, d.chunkItemSize[k]? = if k * 32 < d.lbidLen then some (min 32 (d.lbidLen - k * 32) * 4096) else none := by
  obtain ⟨pool, h⟩ := d.allocated
  rw [ioReqAllocWiobuff, if_pos d.lbidLen_lt] at h
  exact allocWiobuffLoop_sizes _ h

end IoPayload
end DiscoClient
