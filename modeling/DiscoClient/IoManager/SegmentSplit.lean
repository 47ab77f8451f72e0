import DiscoClient.Common.SysDef
import Mathlib.Data.BitVec

/-! Splitting of an IO request into segment requests: discoC_IORequest.c, over query_volume_MDCache of
metadata_cache.c. Every allocation succeeds. -/
namespace DiscoClient

/-- LBA_FEA_*: overwritten state and alignment of one LB. -/
inductive LbaFea where
  | init
  | fw4KAlign
  | fwNon4KAlign
  | ovw4KAlign
  | ovwNon4KAlign
  | endMark
  deriving DecidableEq, Repr

/-- What splitting reads of a volume. -/
structure SplitVolume where
  volId : Nat
  nnIpAddr : Nat
  sectsShift : Nat
  mcacheEnable : Bool
  ovwGet : Nat → Bool
  cached : Nat → Bool

structure SplitIoReq where
  drive : SplitVolume
  iodir : IoDir
  kernSect : Nat
  nrKsects : Nat
  usrIoAddr : UserIoAddr
  isMdcacheOn : Bool
  maskLbAlign : Nat → Nat
  ciUserRemainLB : Nat
  ciMdsRemainLB : Nat

/-- ioReq_init_request, in 64-bit arithmetic; the number of LBs is stored in 32 bits. -/
def ioReqInitRequest (drv : SplitVolume) (dir : IoDir) (mask : Nat → Nat) (sectS sectLen : Nat) :
    SplitIoReq :=
  let kernSect := (sectS + drv.sectsShift) % 2^64
  let lbidStart := kernSect >>> bitLenDmsLbSects
  let lastLb := ((kernSect + sectLen + (2^64 - 1)) % 2^64) >>> bitLenDmsLbSects
  let lbidLen := ((lastLb + (2^64 - lbidStart) + 1) % 2^64) % 2^32
  { drive := drv
    iodir := dir
    kernSect := kernSect
    nrKsects := sectLen
    usrIoAddr := ⟨drv.nnIpAddr, 0, drv.volId, lbidLen, lbidStart⟩
    isMdcacheOn := drv.mcacheEnable
    maskLbAlign := mask
    ciUserRemainLB := lbidLen
    ciMdsRemainLB := lbidLen }

/-- A segment request as ioSReq_init_request and ioSReq_set_request leave it. The mask
pointer is an index into the mask of the IO request. -/
structure IoSegReq where
  lbidStart : Nat
  lbidLen : Nat
  payloadOffset : Nat
  lbSectMask : Nat
  ovwStat : Bool
  chStat : Bool
  is4KAlign : Bool
  deriving DecidableEq, Repr

/-- One entry of the array query_volume_MDCache fills; a hit has metadata items. -/
structure CachedMd where
  lbidStart : Nat
  lbidLen : Nat
  hit : Bool
  deriving DecidableEq, Repr

/-- Loop of _get_max_seg_len. -/
def getMaxSegLenLoop (mdCh : Bool) : List Bool → Nat → Nat
  | [], cnt => cnt
  | md :: rest, cnt =>
    if !md && mdCh then cnt
    else if md && !mdCh then cnt
    else getMaxSegLenLoop mdCh rest (cnt + 1)

/-- _get_max_seg_len: how many LBs share the hit or miss of the first one. -/
def getMaxSegLen (md : List Bool) : Nat × Bool :=
  (getMaxSegLenLoop (md.headD false) md.tail 1, md.headD false)

/-- Loop of query_volume_MDCache. The running start LB is a signed 32-bit variable; it
is stored into a 64-bit field. The fuel bounds the number of rounds. -/
def queryLoop : Nat → List Bool → BitVec 32 → List CachedMd
  | 0, _, _ => []
  | fuel + 1, md, lstartLb =>
    if md.isEmpty then []
    else
      let (segLen, mdataCh) := getMaxSegLen md
      ⟨(lstartLb.signExtend 64).toNat, segLen, mdataCh⟩ ::
        queryLoop fuel (md.drop segLen) (lstartLb + BitVec.ofNat 32 segLen)

def queryVolumeMDCache (cached : Nat → Bool) (lbidS lbidLen : Nat) (queryCache : Bool) : List CachedMd :=
  if queryCache then
    queryLoop lbidLen ((List.range lbidLen).map fun i => cached (lbidS + i)) (BitVec.ofNat 32 lbidS)
  else [⟨lbidS, lbidLen, false⟩]

/-- Loop of _ioReq_gen_ioSReq_mdcache_state. -/
def genSegLoop (ovwStat is4KAlign : Bool) : List CachedMd → Nat → Nat → List IoSegReq
  | [], _, _ => []
  | md :: rest, plOffset, lmsk =>
    ⟨md.lbidStart, md.lbidLen, plOffset, lmsk, ovwStat, md.hit, is4KAlign⟩ ::
      genSegLoop ovwStat is4KAlign rest (plOffset + (md.lbidLen <<< bitLenDmsLbSize)) (lmsk + md.lbidLen)

/-- _ioReq_gen_ioSReq_mdcache_state: the segments, and the payload bytes they shift by. -/
def ioReqGenIoSReqMdcacheState (r : SplitIoReq) (beginning len : Nat) (type : LbaFea)
    (payloadOffset maskPtr : Nat) : List IoSegReq × Nat :=
  let queryMdcache :=
    if r.isMdcacheOn = false then false
    else if type = .fw4KAlign ∨ type = .fwNon4KAlign then false
    else true
  let items := queryVolumeMDCache r.drive.cached beginning len queryMdcache
  let ovwStat := decide (type = .ovw4KAlign ∨ type = .ovwNon4KAlign)
  let is4KAlign := decide (type = .ovw4KAlign ∨ type = .fw4KAlign)
  (genSegLoop ovwStat is4KAlign items payloadOffset maskPtr, (len <<< bitLenDmsLbSize) % 2^32)

def chkMaxLenAllocMD (ioRw : IoDir) (splitType : LbaFea) (len : Nat) : Bool :=
  if ioRw = .read then false
  else if splitType = .ovwNon4KAlign ∨ splitType = .fwNon4KAlign then true
  else if splitType = .ovw4KAlign ∨ splitType = .ovwNon4KAlign then false
  else if len < maxLbsPerAllocMdReq then false
  else true

/-- Loop of find_cont_len. -/
def findContLenLoop (first : LbaFea) (ioRw : IoDir) : List LbaFea → Nat → Nat
  | [], len => len
  | g :: rest, len =>
    if first = .fwNon4KAlign ∨ first = .ovwNon4KAlign then len
    else if first ≠ g then len
    else if chkMaxLenAllocMD ioRw g (len + 1) then len + 1
    else findContLenLoop first ioRw rest (len + 1)

/-- find_cont_len, on the part of the array that starts at the group. -/
def findContLen (group : List LbaFea) (maxLen : Nat) (ioRw : IoDir) : Nat :=
  findContLenLoop (group.headD .init) ioRw (group.tail.take (maxLen - 1)) 1

/-- The state _ioReq_get_LBOVW_state gives the i-th LB; a read counts as overwritten. -/
def lbOvwState (r : SplitIoReq) (i : Nat) : LbaFea :=
  let isOvw := if r.iodir = .write then r.drive.ovwGet (r.usrIoAddr.lbidStart + i) else true
  if isOvw ∧ r.maskLbAlign i = 0xff then .ovw4KAlign
  else if isOvw ∧ r.maskLbAlign i ≠ 0xff then .ovwNon4KAlign
  else if !isOvw ∧ r.maskLbAlign i = 0xff then .fw4KAlign
  else .fwNon4KAlign

def ioReqGetLbOvwState (r : SplitIoReq) : List LbaFea :=
  (List.range r.usrIoAddr.lbidLen).map (lbOvwState r) ++ [.endMark]

/-- Loop of _ioReq_gen_ioSReq_ovw; the fuel bounds the number of rounds. -/
def genOvwLoop (r : SplitIoReq) (grouping : List LbaFea) :
    Nat → Nat → Nat → Nat → List IoSegReq → Option (List IoSegReq)
  | 0, _, _, _, segs => some segs
  | fuel + 1, i, payloadOffset, maskPtr, segs =>
    let len := findContLen (grouping.drop i) (r.usrIoAddr.lbidLen - i) r.iodir
    let (new, ret) := ioReqGenIoSReqMdcacheState r (r.usrIoAddr.lbidStart + i) len
      ((grouping.drop i).headD .init) payloadOffset maskPtr
    if ret = 0 then none
    else if i + len < r.usrIoAddr.lbidLen then
      genOvwLoop r grouping fuel (i + len) (payloadOffset + ret) (maskPtr + len) (segs ++ new)
    else some (segs ++ new)

/-- _ioReq_gen_ioSReq_ovw: the list of segment requests, or none for -EFAULT. -/
def ioReqGenIoSReqOvw (r : SplitIoReq) : Option (List IoSegReq) :=
  genOvwLoop r (ioReqGetLbOvwState r) r.usrIoAddr.lbidLen 0 0 0 []

end DiscoClient
