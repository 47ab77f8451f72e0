import DiscoClient.Common.InetAddr
import DiscoClient.Common.Triple
import DiscoClient.Lib.Memory
import DiscoClient.Metadata.MetadataItem
import Mathlib.Algebra.BigOperators.Group.List.Basic

/-! The report of allocated chunks to the name node: discoNN_client/NN_FSReq_ProcFunc.c and
discoC_NN_protocol.c, and its walk: discoNN_simulator/discoNNSrv_protocol.c and discoNNSrv_simulator.c. -/
namespace DiscoClient
open Wire Memory

/-- metaD_DNLoc_t of an allocated chunk: a report reads the first of its triplets. -/
structure FsDnLoc where
  ipaddr : BitVec 32
  port : BitVec 32
  rbidLenOffset0 : BitVec 64
  udataStatus : UDataState
  deriving DecidableEq, Repr

/-- metaD_item_t of an allocated chunk. -/
structure FsMdItem where
  spaceChunkID : BitVec 64
  numHbids : BitVec 32
  lbidS : BitVec 64
  hbid0 : BitVec 64
  udataDnLoc : List FsDnLoc
  deriving DecidableEq, Repr

/-- The bytes that fsReq_gen_reportMD_DNLoc writes. -/
def reportMDDNLoc (ipaddr port rbid offset : BitVec 32) : List (BitVec 8) :=
  let str := (DottedIp.ofAddr ipaddr).str
  beU16 (BitVec.ofNat 16 str.length) ++ (str ++ (beU32 port ++ (beU32 rbid ++ beU32 offset)))

def FsDnLoc.bytes (l : FsDnLoc) : List (BitVec 8) :=
  reportMDDNLoc l.ipaddr l.port (decomposeTriple l.rbidLenOffset0).rbid (decomposeTriple l.rbidLenOffset0).offset

/-- The bytes that fsReq_gen_reportMD_ChunkInfo writes. -/
def reportMDChunkInfo (chunkID : BitVec 64) (chunkLen : BitVec 32) (lbidS hbidS : BitVec 64) (numReplica : BitVec 16) :
    List (BitVec 8) :=
  beU64 chunkID ++ (beU32 chunkLen ++ (beU64 lbidS ++ (beU64 hbidS ++ beU16 numReplica)))

/-- sizeof(CN2NN_fsReportMD_chunk_t). -/
def sizeofReportChunk : Nat := 30

/-- sizeof(CN2NN_fsReportMD_hder_t). -/
def sizeofReportHder : Nat := 38

def FsMdItem.reported (it : FsMdItem) : List FsDnLoc := it.udataDnLoc.filter (·.udataStatus == .writeOk)

/-- The loop of _gen_ReportMD_MDItem over the replicas: the memory, pktsize and numReplica. -/
def genReportDns (mem : Nat → BitVec 8) (pktBuff pktsize numReplica : Nat) :
    List FsDnLoc → (Nat → BitVec 8) × Nat × Nat
  | [] => (mem, pktsize, numReplica)
  | l :: ls =>
    if l.udataStatus ≠ .writeOk then genReportDns mem pktBuff pktsize numReplica ls
    else genReportDns (write mem (pktBuff + pktsize) l.bytes) pktBuff (pktsize + l.bytes.length) (numReplica + 1) ls

/-- _gen_ReportMD_MDItem: the memory and the bytes it returns, which are those of the chunk's record alone. -/
def genReportMDMDItem (mem : Nat → BitVec 8) (pktBuff : Nat) (it : FsMdItem) : (Nat → BitVec 8) × Nat :=
  let dns := genReportDns mem pktBuff sizeofReportChunk 0 it.udataDnLoc
  let chunk := reportMDChunkInfo it.spaceChunkID it.numHbids it.lbidS it.hbid0 (BitVec.ofNat 16 dns.2.2)
  (write dns.1 pktBuff chunk, chunk.length)

/-- _gen_ReportMD_body: the memory, pkt_size and numItems_all. -/
def genReportMDBody (mem : Nat → BitVec 8) (buf pktSize numItems : Nat) :
    List FsMdItem → (Nat → BitVec 8) × Nat × Nat
  | [] => (mem, pktSize, numItems)
  | it :: its =>
    let r := genReportMDMDItem mem (buf + pktSize) it
    genReportMDBody r.1 buf (pktSize + r.2) (numItems + 1) its

/-- The bytes that fsReq_gen_reportMD_header writes. -/
def reportMDHeader (opcode : BitVec 16) (reqID volID : BitVec 64) (numItems : BitVec 32) : List (BitVec 8) :=
  beU64 magicNum ++ (beU16 opcode ++ (beU64 reqID ++ (beU64 volID ++ (beU32 numItems ++ beU64 magicNum))))

/-- fsReq_send_ReportMData: the memory of the packet, and its length, which is that of the header alone. -/
def fsReqSendReportMData (opcode : BitVec 16) (reqID volumeID : BitVec 32) (items : List FsMdItem)
    (mem : Nat → BitVec 8) : (Nat → BitVec 8) × Nat :=
  let body := genReportMDBody mem sizeofReportHder 0 0 items
  let hder := reportMDHeader opcode (reqID.setWidth 64) (volumeID.setWidth 64) (BitVec.ofNat 32 body.2.2)
  (write body.1 0 hder, hder.length)

/-! ### The name node's side -/

def ntohInPlace (mem : Nat → BitVec 8) (off w : Nat) : Nat → BitVec 8 := write mem off (read mem off w).reverse

/-- CN2NN_fsReportMD_chunk_t in host order. -/
structure ReportedChunk where
  chunkID : BitVec 64
  length : BitVec 32
  lbidS : BitVec 64
  hbidS : BitVec 64
  numReplica : BitVec 16
  deriving DecidableEq, Repr

/-- _NNClient_FSDNLoc_ntoh: the bytes of a location. -/
def fsDNLocNtoh (mem : Nat → BitVec 8) (ptr : Nat) : Nat := 2 + (loadU16 mem ptr).toNat + 4 + 4 + 4

/-- The loop of NNClient_FSReportReq_ntoh over the replicas: pkt_size is set anew by each. -/
def fsReportDns (mem : Nat → BitVec 8) (ptr pktSize : Nat) : Nat → Nat
  | 0 => pktSize
  | n + 1 => fsReportDns mem (ptr + fsDNLocNtoh mem ptr) (fsDNLocNtoh mem ptr) n

def chunkNtoh (mem : Nat → BitVec 8) (ptr : Nat) : Nat → BitVec 8 :=
  ntohInPlace (ntohInPlace (ntohInPlace (ntohInPlace (ntohInPlace mem ptr 8) (ptr + 8) 4) (ptr + 12) 8) (ptr + 20) 8)
    (ptr + 28) 2

/-- NNClient_FSReportReq_ntoh: the chunk, the memory and the bytes it returns. -/
def fsReportReqNtoh (mem : Nat → BitVec 8) (ptr : Nat) : ReportedChunk × (Nat → BitVec 8) × Nat :=
  let chunk : ReportedChunk := ⟨loadU64 mem ptr, loadU32 mem (ptr + 8), loadU64 mem (ptr + 12), loadU64 mem (ptr + 20),
    loadU16 mem (ptr + 28)⟩
  let mem := chunkNtoh mem ptr
  (chunk, mem, fsReportDns mem (ptr + sizeofReportChunk) sizeofReportChunk chunk.numReplica.toNat)

/-- The loop of _NNSrv_rcv_ReportAlloc over the chunks: those it visits, and where it ends. -/
def rcvReportChunks (mem : Nat → BitVec 8) (ptr : Nat) : Nat → List ReportedChunk × Nat
  | 0 => ([], ptr)
  | n + 1 =>
    let r := fsReportReqNtoh mem ptr
    let rest := rcvReportChunks r.2.1 (ptr + r.2.2) n
    (r.1 :: rest.1, rest.2)

/-- _NNSrv_rcv_ReportAlloc: the number of chunks is that of the header. -/
def rcvReportAlloc (mem : Nat → BitVec 8) : List ReportedChunk × Nat :=
  rcvReportChunks mem sizeofReportHder (loadU32 mem 26).toNat

/-! ### What a report should be -/

def FsMdItem.chunk (it : FsMdItem) : ReportedChunk :=
  ⟨it.spaceChunkID, it.numHbids, it.lbidS, it.hbid0, BitVec.ofNat 16 it.reported.length⟩

def FsMdItem.bytes (it : FsMdItem) : List (BitVec 8) :=
  reportMDChunkInfo it.spaceChunkID it.numHbids it.lbidS it.hbid0 (BitVec.ofNat 16 it.reported.length) ++
    it.reported.flatMap FsDnLoc.bytes

/-- The body of the packet is the chunks' records, its length that of the header and the records, and the
name node's walk visits exactly the chunks and ends there. -/
structure ReportsChunks (items : List FsMdItem) (mem : Nat → BitVec 8) (len : Nat) : Prop where
  body : Holds mem sizeofReportHder (items.flatMap FsMdItem.bytes)
  length : len = sizeofReportHder + (items.map fun it => sizeofReportChunk + (it.reported.map (·.bytes.length)).sum).sum
  walk : rcvReportAlloc mem = (items.map FsMdItem.chunk, len)

theorem length_reportMDHeader (opcode : BitVec 16) (reqID volID : BitVec 64) (numItems : BitVec 32) :
    (reportMDHeader opcode reqID volID numItems).length = sizeofReportHder := by
  simp only [reportMDHeader, List.length_append, length_u16, length_u32, length_u64, sizeofReportHder]

/-- The packet reports its chunks as it should exactly when there is none. -/
theorem space_report_iff (opcode : BitVec 16) (reqID volumeID : BitVec 32) (items : List FsMdItem)
    (mem : Nat → BitVec 8) :
    ReportsChunks items (fsReqSendReportMData opcode reqID volumeID items mem).1
        (fsReqSendReportMData opcode reqID volumeID items mem).2 ↔ items = [] := by
  have hlen : (fsReqSendReportMData opcode reqID volumeID items mem).2 = sizeofReportHder :=
    length_reportMDHeader _ _ _ _
  constructor
  · intro h
    have hsum := h.length
    rw [hlen] at hsum
    cases items with
    | nil => rfl
    | cons it its =>
      simp only [List.map_cons, List.sum_cons, sizeofReportHder, sizeofReportChunk] at hsum
      omega
  · rintro rfl
    have hmem : (fsReqSendReportMData opcode reqID volumeID [] mem).1 =
        write mem 0 (reportMDHeader opcode (reqID.setWidth 64) (volumeID.setWidth 64) 0#32) := rfl
    refine ⟨rfl, hlen, ?_⟩
    have hholds := holds_write mem 0 (reportMDHeader opcode (reqID.setWidth 64) (volumeID.setWidth 64) 0#32)
    rw [reportMDHeader, holds_append, holds_append, holds_append, holds_append, holds_append] at hholds
    simp only [length_u16, length_u64] at hholds
    rw [rcvReportAlloc, hmem, reportMDHeader, hholds.2.2.2.2.1.loadU32, hlen]
    rfl

def chunksToReport : List FsMdItem :=
  [⟨1#64, 1#32, 5#64, 71#64, [⟨inetAddr 10 0 0 1, 20100#32, 1048576#64, .writeOk⟩]⟩,
    ⟨2#64, 1#32, 6#64, 72#64, [⟨inetAddr 10 0 0 1, 20100#32, 1048577#64, .writeOk⟩]⟩]

def pktChunks : (Nat → BitVec 8) × Nat := fsReqSendReportMData 10#16 4#32 3#32 chunksToReport fun _ => 0#8

/-- The packet should have 142 bytes but has the length of its header; the second chunk's record stands
where the location of the first one was, and the walk goes on inside of the first record. -/
theorem space_report_overwritten :
    pktChunks.2 = 38 ∧ (chunksToReport.flatMap FsMdItem.bytes).length = 104 ∧
    read pktChunks.1 (38 + 30) 8 = beU64 2#64 ∧ (fsReportReqNtoh pktChunks.1 38).2.2 = 14 ∧
    ¬ ReportsChunks chunksToReport pktChunks.1 pktChunks.2 := by
  have hlen : pktChunks.2 = 38 := by decide +kernel
  refine ⟨hlen, by decide +kernel, by decide +kernel, by decide +kernel, fun h => ?_⟩
  have hsum := h.length
  rw [hlen] at hsum
  exact absurd hsum (by decide +kernel)

end DiscoClient
