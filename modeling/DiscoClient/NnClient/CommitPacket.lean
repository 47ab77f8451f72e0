import DiscoClient.Common.InetAddr
import DiscoClient.Lib.Memory
import DiscoClient.Metadata.MetadataItem
import Mathlib.Algebra.BigOperators.Group.List.Basic

/-! Report packets to the name node, and how the client walks one: discoNN_client/discoC_NN_protocol.c.
Addresses count from the packet buffer on. -/
namespace DiscoClient
open Wire Memory

/-- metaD_DNLoc_t, as far as a report reads it. -/
structure CiDnLoc where
  ipaddr : BitVec 32
  port : BitVec 32
  rbidLenOffset : List (BitVec 64)
  udataStatus : UDataState
  phyLocs_le : rbidLenOffset.length ≤ maxLbsPerIor

/-- metaD_item_t, as far as a report reads it. -/
structure CiMdItem where
  lbidS : BitVec 64
  arrHBID : List (BitVec 64)
  udataDnLoc : List CiDnLoc
  hbids_le : arrHBID.length ≤ maxLbsPerIor
  dnLoc_le : udataDnLoc.length ≤ maxNumReplica

/-- metadata_t: num_MD_items is a uint16_t. -/
structure CiMetadata where
  items : List CiMdItem
  items_lt : items.length < 2 ^ 16

/-- MData_chk_UDStatus_readfail. -/
def CiDnLoc.readfail (l : CiDnLoc) : Bool := l.udataStatus == .diskFailure

/-- MData_chk_UDStatus_writefail. -/
def CiDnLoc.writefail (l : CiDnLoc) : Bool := !(l.udataStatus == .writeOk)

def dnIpaddrNameLen : Nat := 20

def MdOpcode.code : MdOpcode → BitVec 16
  | .queryMDataReadIo => 0
  | .queryTrueMDataReadIo => 1
  | .allocMDataAndGetOld => 2
  | .allocMDataNoOld => 3
  | .queryMDataWriteIo => 4
  | .reportReadIoResult => 5
  | .reportWriteIoResultDeprecated => 6
  | .reportWriteIoResult => 7
  | .updateHeartbeat => 8

structure PktBuf where
  mem : Nat → BitVec 8
  ptr : Nat
  size : Nat

/-- A memcpy to local_ptr, after which local_ptr and pkt_size move on. -/
def PktBuf.put (b : PktBuf) (d : List (BitVec 8)) : PktBuf :=
  ⟨write b.mem b.ptr d, b.ptr + d.length, b.size + d.length⟩

def PktBuf.putU64s (b : PktBuf) : List (BitVec 64) → PktBuf
  | [] => b
  | x :: xs => (b.put (beU64 x)).putU64s xs

/-- The record of a data node, as pack_failLHO_pkt and pack_SuccessLHO_pkt write it. -/
def PktBuf.putDnLoc (b : PktBuf) (l : CiDnLoc) : PktBuf :=
  (((b.put (ccmaInetAton l.ipaddr dnIpaddrNameLen)).put (beU32 l.port)).put
    (beU32 (BitVec.ofNat 32 l.rbidLenOffset.length))).putU64s l.rbidLenOffset

/-! ### What a report holds -/

structure ShownDnLoc where
  ipv4addr : List (BitVec 8)
  port : BitVec 32
  triples : List (BitVec 64)
  deriving DecidableEq, Repr

structure ShownLho where
  lbidStart : BitVec 64
  hbids : List (BitVec 64)
  dns : List ShownDnLoc
  deriving DecidableEq, Repr

structure ShownPkt where
  magicNum1 : BitVec 64
  rw : BitVec 16
  volid : BitVec 64
  reqId : BitVec 64
  lhos : List ShownLho
  magicNum2 : BitVec 64
  deriving DecidableEq, Repr

def CiDnLoc.shown (ipLen : Nat) (l : CiDnLoc) : ShownDnLoc := ⟨ccmaInetAton l.ipaddr ipLen, l.port, l.rbidLenOffset⟩

def CiMdItem.shown (ipLen : Nat) (reported : CiDnLoc → Bool) (it : CiMdItem) : ShownLho :=
  ⟨it.lbidS, it.arrHBID, (it.udataDnLoc.filter reported).map (CiDnLoc.shown ipLen)⟩

def ShownDnLoc.bytes (d : ShownDnLoc) : List (BitVec 8) :=
  d.ipv4addr ++ (beU32 d.port ++ (beU32 (BitVec.ofNat 32 d.triples.length) ++ d.triples.flatMap beU64))

def ShownLho.head (l : ShownLho) : List (BitVec 8) :=
  beU64 l.lbidStart ++ (beU32 (BitVec.ofNat 32 l.hbids.length) ++ (l.hbids.flatMap beU64 ++
    beU32 (BitVec.ofNat 32 l.dns.length)))

def ShownLho.bytes (l : ShownLho) : List (BitVec 8) := l.head ++ l.dns.flatMap ShownDnLoc.bytes

def ShownPkt.head (p : ShownPkt) : List (BitVec 8) :=
  beU64 p.magicNum1 ++ (beU16 p.rw ++ (beU64 p.volid ++ (beU64 p.reqId ++ beU32 (BitVec.ofNat 32 p.lhos.length))))

def ShownPkt.bytes (p : ShownPkt) : List (BitVec 8) := p.head ++ (p.lhos.flatMap ShownLho.bytes ++ beU64 p.magicNum2)

/-! ### Walking a report -/

/-- A count at an address: an int32_t that bounds a loop. -/
def loadCount (m : Nat → BitVec 8) (off : Nat) : Nat := (loadU32 m off).toInt.toNat

/-- print_CommitDNLoc_in_pkt with change_DNLoc_HostByteOrder, for an address field of ipLen bytes: the record and the
bytes it takes. -/
def printCommitDNLocInPkt (ipLen : Nat) (m : Nat → BitVec 8) (buf : Nat) : ShownDnLoc × Nat :=
  let numOfLocation := loadCount m (buf + ipLen + 4)
  (⟨read m buf ipLen, loadU32 m (buf + ipLen), loadU64s m (buf + ipLen + 8) numOfLocation⟩,
    ipLen + 8 + 8 * numOfLocation)

def showDns (ipLen : Nat) (m : Nat → BitVec 8) : Nat → Nat → List ShownDnLoc × Nat
  | 0, index => ([], index)
  | n + 1, index =>
    let dn := printCommitDNLocInPkt ipLen m index
    let rest := showDns ipLen m n (index + dn.2)
    (dn.1 :: rest.1, rest.2)

def showLho (ipLen : Nat) (m : Nat → BitVec 8) (index : Nat) : ShownLho × Nat :=
  let lbidCnt := loadCount m (index + 8)
  let numOfDNs := loadCount m (index + 12 + 8 * lbidCnt)
  let dns := showDns ipLen m numOfDNs (index + 16 + 8 * lbidCnt)
  (⟨loadU64 m index, loadU64s m (index + 12) lbidCnt, dns.1⟩, dns.2)

def showLhos (ipLen : Nat) (m : Nat → BitVec 8) : Nat → Nat → List ShownLho × Nat
  | 0, index => ([], index)
  | n + 1, index =>
    let lho := showLho ipLen m index
    let rest := showLhos ipLen m n lho.2
    (lho.1 :: rest.1, rest.2)

def walkCiPkt (ipLen : Nat) (m : Nat → BitVec 8) : ShownPkt × Nat :=
  let lhos := showLhos ipLen m (loadCount m 26) 30
  (⟨loadU64 m 0, loadU16 m 8, loadU64 m 10, loadU64 m 18, lhos.1, loadU64 m lhos.2⟩, lhos.2 + 8)

/-- NNProto_show_ciMDReq_WriteIO_pkt, at a log level that is printed: the address field of CN2NN_ciMDReq_dnLoc_pkt_t has
IPV4ADDR_NM_LEN bytes. -/
def showCiMDReqWriteIOPkt (m : Nat → BitVec 8) : ShownPkt × Nat := walkCiPkt ipv4addrNmLen m

end DiscoClient
