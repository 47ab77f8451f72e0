import DiscoClient.Common.InetAddr
import DiscoClient.Lib.Blocks
import DiscoClient.Lib.Wire
import DiscoClient.Metadata.MetadataItem
import DiscoClient.NnClient.OvwBitmap

/-! The response to an acquire-metadata request, as the client parses it:
discoNN_client/discoC_NN_protocol.c and discoC_NNAck_acquireMD.c. A result none stands for an access outside
of the memory that is there. -/
namespace DiscoClient
open Wire

/-- mdata_stat, as name nodes send it and the client stores it. -/
def MDataState.code : MDataState → BitVec 16
  | .valid => 0
  | .invalid => 1
  | .validLessReplica => 2

/-- metaD_DNLoc_t, as far as a response fills it. -/
structure NnDnLoc where
  ipaddr : BitVec 32
  port : BitVec 32
  rbidLenOffset : List (BitVec 64)
  deriving DecidableEq, Repr

/-- metaD_item_t, as far as a response fills it. -/
structure NnMdItem where
  lbidS : Nat
  arrHBID : List (BitVec 64)
  udataDnLoc : List NnDnLoc
  mdataStat : BitVec 16
  trueMD : Bool
  deriving DecidableEq, Repr

/-- CN2NN_getMDResp_fcpkt_t. -/
structure FcPkt where
  rateSlowStart : BitVec 32
  rateSlowStartMaxReqs : BitVec 32
  rateAlloc : BitVec 32
  rateAllocMaxReqs : BitVec 32
  rateAgeTime : BitVec 32
  deriving DecidableEq, Repr

/-- The loop of NNAck_DNLoc_ntoh_order: ipv4addr is the buffer that all strings of an item are read into. -/
def dnLocLoop : Nat → List (BitVec 8) → List (BitVec 8) → Nat → Option (List NnDnLoc × Nat)
  | 0, _, _, itemSize => some ([], itemSize)
  | n + 1, ipv4addr, curptr, itemSize => do
    let (strlen, curptr) ← readU16 curptr
    let (str, curptr) ← readBytes strlen.toNat curptr
    guard (strlen.toNat ≤ ipv4addrNmLen)
    let ipv4addr := overwrite ipv4addr 0 str
    let ipaddr ← ccmaInetNtoa ipv4addr
    let (port, curptr) ← readU32 curptr
    let (numRlo, curptr) ← readU16 curptr
    guard (numRlo.toNat ≤ maxLbsPerIor)
    let (rlo, curptr) ← readU64s numRlo.toNat curptr
    let (locs, size) ← dnLocLoop n ipv4addr curptr (itemSize + 2 + strlen.toNat + 4 + 2 + 8 * numRlo.toNat)
    return (⟨ipaddr, port, rlo⟩ :: locs, size)

/-- NNAck_DNLoc_ntoh_order: the locations and the bytes they take. -/
def nnAckDNLocNtohOrder (numDnLoc : Nat) (memBuff : List (BitVec 8)) : Option (List NnDnLoc × Nat) :=
  if numDnLoc ≤ maxNumReplica then dnLocLoop numDnLoc (List.replicate ipv4addrNmLen 0#8) memBuff 0 else none

/-- NNProto_getMDResp_MDItem_ntoh: an item and the bytes it takes. -/
def getMDRespMDItemNtoh (startLB : Nat) (memBuff : List (BitVec 8)) : Option (NnMdItem × Nat) := do
  let (lenHbids, curptr) ← readU16 memBuff
  guard (lenHbids.toNat ≤ maxLbsPerIor)
  let (hbids, curptr) ← readU64s lenHbids.toNat curptr
  let (lenDN, curptr) ← readU16 curptr
  let (dnLocs, dnLocPktSize) ← nnAckDNLocNtohOrder lenDN.toNat curptr
  let (stat, _) ← readU16 (curptr.drop dnLocPktSize)
  return (⟨startLB, hbids, dnLocs, stat, false⟩, 2 + 8 * lenHbids.toNat + 2 + dnLocPktSize + 2)

/-- NNProto_getMDResp_FlowCtrl_ntoh. -/
def getMDRespFlowCtrlNtoh (memBuff : List (BitVec 8)) : Option (FcPkt × List (BitVec 8)) := do
  let (slowStart, curptr) ← readU32 memBuff
  let (slowStartMaxReqs, curptr) ← readU32 curptr
  let (alloc, curptr) ← readU32 curptr
  let (allocMaxReqs, curptr) ← readU32 curptr
  let (ageTime, curptr) ← readU32 curptr
  return (⟨slowStart, slowStartMaxReqs, alloc, allocMaxReqs, ageTime⟩, curptr)

/-- NNMData_Req_t, as far as parsing reads it; rrEnabled is dms_RR_enabled of the configuration. -/
structure AcquireReq where
  reqOPCode : MdOpcode
  lbidStart : Nat
  volReplica : Nat
  rrEnabled : Bool
  deriving DecidableEq, Repr

namespace AcquireReq

/-- NNMDReq_check_alloc. -/
def checkAlloc (req : AcquireReq) : Bool :=
  req.reqOPCode == .allocMDataNoOld || req.reqOPCode == .allocMDataAndGetOld

/-- _nnack_update_MDItem_state: the state that an item gets. -/
def updateMDItemState (req : AcquireReq) (mdstat : BitVec 16) (numDnLoc lrIndex : Nat) : BitVec 16 :=
  if mdstat ≠ MDataState.valid.code then mdstat
  else if numDnLoc < req.volReplica ∧ req.rrEnabled then
    if req.checkAlloc then
      if lrIndex = 0 then MDataState.validLessReplica.code else mdstat
    else MDataState.validLessReplica.code
  else mdstat

/-- What _do_normal_parse does to an item that it has read. -/
def finishMDItem (req : AcquireReq) (lrIndex : Nat) (item : NnMdItem) : NnMdItem :=
  { item with
    trueMD := req.reqOPCode == .queryTrueMDataReadIo
    mdataStat := req.updateMDItemState item.mdataStat item.udataDnLoc.length lrIndex }

/-- nnReq_setOVW_fn on an item of an allocation; a failure is only logged. -/
def setOvw (req : AcquireReq) (item : NnMdItem) (vol : VolumeOvw) : VolumeOvw :=
  if item.mdataStat ≠ MDataState.invalid.code ∧ req.checkAlloc then
    (vol.setVolOvwRange item.lbidS true item.arrHBID.length).getD vol
  else vol

end AcquireReq

structure MdItems where
  arrayMetadata : List NnMdItem
  numInvalMDItems : Nat
  ovw : VolumeOvw
  curptr : List (BitVec 8)
  deriving DecidableEq, Repr

/-- The loop of _do_normal_parse over the items, from the i-th one on. -/
def parseMDItems (req : AcquireReq) : Nat → Nat → Nat → List (BitVec 8) → Nat → VolumeOvw → Option MdItems
  | 0, _, _, curptr, numInval, ovw => some ⟨[], numInval, ovw, curptr⟩
  | n + 1, i, startLB, curptr, numInval, ovw => do
    let (item, ptrShift) ← getMDRespMDItemNtoh startLB curptr
    let item := req.finishMDItem i item
    let numInval := if item.mdataStat = MDataState.invalid.code then numInval + 1 else numInval
    let rest ← parseMDItems req n (i + 1) (startLB + item.arrHBID.length) (curptr.drop ptrShift) numInval
      (req.setOvw item ovw)
    return { rest with arrayMetadata := item :: rest.arrayMetadata }

/-- The metadata, the flow-control values, the bitmap of the volume, and the bytes behind what was parsed.
-/
structure MdAnswer where
  arrayMetadata : List NnMdItem
  numInvalMDItems : Nat
  fcItem : FcPkt
  ovw : VolumeOvw
  curptr : List (BitVec 8)
  deriving DecidableEq, Repr

inductive NormalParse where
  | nodev
  | parsed (answer : MdAnswer)
  deriving DecidableEq, Repr

/-- sizeof(CN2NN_getMDResp_mdhder_t). -/
def sizeofMdhder : Nat := 10

/-- _nnack_alloc_MDArray: whether the items are parsed. -/
def nnackAllocMDArray (pktLen : Nat) (numLrs : BitVec 16) : Bool := !(pktLen ≤ sizeofMdhder || numLrs == 0)

/-- _do_normal_parse; totallen is an int16_t that _nnack_alloc_MDArray takes for a uint32_t. -/
def doNormalParse (req : AcquireReq) (ovw : VolumeOvw) (mem : List (BitVec 8)) (numLrs : BitVec 16) (totallen : Int) :
    Option NormalParse :=
  if nnackAllocMDArray (toU32 totallen) numLrs then do
    let items ← parseMDItems req numLrs.toNat 0 req.lbidStart mem 0 ovw
    let (fcItem, curptr) ← getMDRespFlowCtrlNtoh items.curptr
    return .parsed ⟨items.arrayMetadata, items.numInvalMDItems, fcItem, items.ovw, curptr⟩
  else some .nodev

/-- resp_data_size after NNProto_MDRespheader_ntoh: an int16_t, less the 8 bytes of the request ID. -/
def respDataSize (size : BitVec 16) : Int := toS16 (toS16 size.toNat - 8)

/-- parse_namenode_response for the request of the response: the header of the metadata, then the items. -/
def parseNamenodeResponse (req : AcquireReq) (ovw : VolumeOvw) (mem : List (BitVec 8)) (size : BitVec 16) :
    Option NormalParse := do
  let (_, curptr) ← readU64 mem
  let (numLrs, curptr) ← readU16 curptr
  doNormalParse req ovw curptr numLrs (respDataSize size)

end DiscoClient
