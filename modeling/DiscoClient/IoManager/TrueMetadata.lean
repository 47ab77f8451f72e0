import DiscoClient.IoManager.SegRequest

/-! A read segment whose items report an HBID mismatch: ioSReq_queryTrueMD, its leaf requests, one for each
LB, and the commit to the user by the bitmap of LBs. LBs are counted from the start of the segment. -/
namespace DiscoClient

inductive TrueItemStatus where
  | outstanding
  | ended
  | unsync
  deriving DecidableEq, Repr

/-- A metadata item: its LBs, MDATA_FEA_UDataCIUser, and its payload request. -/
structure TrueItem where
  start : Nat
  len : Nat
  ciUser : Bool
  status : TrueItemStatus
  deriving DecidableEq, Repr

def TrueItem.has (it : TrueItem) (lb : Nat) : Bool := decide (it.start ≤ lb ∧ lb < it.start + it.len)

/-- The segment with IOSegR_FEA_TrueProc, the bits of userLB_state, the leaf requests in
its pool, and what has happened to the leaf requests of each LB. -/
structure TrueRead where
  seg : SegReq
  items : List TrueItem
  trueProc : Bool
  userLbState : Nat → Bool
  leafPool : List Nat
  created : Nat → Nat
  submitted : Nat → Nat
  leafDone : Nat → Bool

namespace TrueRead

/-- _ioSReq_taretLB_gotData: the item of the LB has its data. -/
def targetLbGotData (s : TrueRead) (lb : Nat) : Bool := (s.items.find? (·.has lb)).any (·.ciUser)

def lbsNoData (s : TrueRead) (lbS lbLen : Nat) : List Nat :=
  (List.range' lbS lbLen).filter fun lb => !s.targetLbGotData lb

/-- _ioSReq_set_LBStat. -/
def setLbStat (s : TrueRead) (lbS lbLen : Nat) : TrueRead :=
  if s.trueProc then s
  else
    { s with
      trueProc := true
      userLbState := fun lb => s.userLbState lb || decide (lb ∈ s.lbsNoData lbS lbLen) }

/-- _ioSReq_gen_leafIOSReq. -/
def genLeafIoSReq (s : TrueRead) (lbS lbLen : Nat) : TrueRead :=
  { s with
    leafPool := s.leafPool ++ s.lbsNoData lbS lbLen
    created := fun lb => s.created lb + (s.lbsNoData lbS lbLen).count lb }

/-- _ioSReq_submit_all_leafR: every leaf request of the pool is submitted. -/
def submitAllLeafR (s : TrueRead) : TrueRead :=
  { s with submitted := fun lb => s.submitted lb + s.leafPool.count lb }

/-- _ioSReq_queryTrue_gut. -/
def queryTrueGut (s : TrueRead) (lbS lbLen : Nat) : TrueRead :=
  let s := s.setLbStat lbS lbLen
  if s.lbsNoData lbS lbLen = [] then s else (s.genLeafIoSReq lbS lbLen).submitAllLeafR

/-- ioSReq_queryTrueMD for item k: a round of its loop and what follows up to the transition back. In a
state that does not handle the event the caller goes on looping. -/
def queryTrueMD (s : TrueRead) (k : Nat) : TrueRead :=
  match s.items[k]? with
  | none => s
  | some it =>
    let (stat, action) := ioSegReqUpdateState s.seg.stat .mdudUnsync
    let s := { s with seg := { s.seg with stat := stat } }
    if action = .doATrueMDProc then
      ({ s with items := s.items.set k { it with status := .unsync } }).queryTrueGut it.start it.len
    else s

/-- The end of ioSReq_queryTrueMD. -/
def aTrueMDDone (s : TrueRead) : TrueRead :=
  { s with seg := { s.seg with stat := (ioSegReqUpdateState s.seg.stat .aTrueMDDone).1 } }

/-- Loop of _ioSReq_chk_ciUser_trueMD: the bit of the first LB is tested in every round. -/
def testClearLoop (bitOff : Nat) : Nat → (Nat → Bool) → Nat → Bool × Nat × (Nat → Bool)
  | 0, bits, numBitClear => (true, numBitClear, bits)
  | left + 1, bits, numBitClear =>
    if bits bitOff then testClearLoop bitOff left (Function.update bits bitOff false) (numBitClear + 1)
    else (false, numBitClear, bits)

/-- _ioSReq_chk_ciUser_trueMD. -/
def chkCiUserTrueMD (s : TrueRead) (lbS lbLen : Nat) : TrueRead × Bool :=
  let (ciUser, numBitClear, bits) := testClearLoop lbS lbLen s.userLbState 0
  ({ s with
      userLbState := bits
      seg := { s.seg with ciUserRemain := s.seg.ciUserRemain - numBitClear } },
    ciUser && (List.range (8 * numBytesMaxLb)).all fun i => !bits i)

/-- _ioSReq_chk_ciUser. -/
def chkCiUser (s : TrueRead) (lbS lbLen : Nat) : TrueRead × Bool :=
  if s.trueProc = false then
    let remain := s.seg.ciUserRemain - lbLen
    ({ s with seg := { s.seg with ciUserRemain := remain } }, decide (remain = 0))
  else s.chkCiUserTrueMD lbS lbLen

/-- ioSReq_ReadPL_endfn. -/
def readPLEndfn (s : TrueRead) (lbS lbLen : Nat) (ioRes : Bool) (numFailDn : Nat) : TrueRead :=
  let s := { s with seg := s.seg.readEnded ioRes numFailDn }
  let (s, ciUser) := s.chkCiUser lbS lbLen
  let s := { s with seg := { s.seg with ciMdsRemain := s.seg.ciMdsRemain - lbLen } }
  if ciUser then { s with seg := s.seg.readAllDone } else s

def itemEnd (s : TrueRead) (k : Nat) (ioRes : Bool) (numFailDn : Nat) : TrueRead :=
  match s.items[k]? with
  | none => s
  | some it =>
    ({ s with items := s.items.set k { it with status := .ended, ciUser := ioRes } }).readPLEndfn
      it.start it.len ioRes numFailDn

/-- _cb_ioSleafR_ReadPL_endfn. -/
def leafEnd (s : TrueRead) (lb : Nat) (ioRes : Bool) : TrueRead :=
  ({ s with leafPool := s.leafPool.erase lb, leafDone := Function.update s.leafDone lb true }).readPLEndfn
    lb 1 ioRes 0

def init (lens : List Nat) : TrueRead :=
  { seg := { SegReq.start lens.sum .read true true with stat := .rUD, acquiring := false }
    items := lens.mapIdx fun k len => ⟨(lens.take k).sum, len, false, .outstanding⟩
    trueProc := false
    userLbState := fun _ => false
    leafPool := []
    created := fun _ => 0
    submitted := fun _ => 0
    leafDone := fun _ => false }

end TrueRead

inductive TrueReadEvent where
  | itemEnd (k : Nat) (ioRes : Bool) (numFailDn : Nat)
  | mismatch (k : Nat)
  | aTrueMDDone
  | leafEnd (lb : Nat) (ioRes : Bool)
  deriving DecidableEq, Repr

def trueReadMachine : GuardedMachine TrueRead TrueReadEvent where
  enabled
    | s, .itemEnd k _ _ => ∃ it, s.items[k]? = some it ∧ it.status = .outstanding
    | s, .mismatch k => ∃ it, s.items[k]? = some it ∧ it.status = .outstanding
    | s, .aTrueMDDone => s.seg.stat = .aTrueMDProc
    | s, .leafEnd lb _ => lb ∈ s.leafPool
  step
    | s, .itemEnd k ioRes numFailDn => s.itemEnd k ioRes numFailDn
    | s, .mismatch k => s.queryTrueMD k
    | s, .aTrueMDDone => s.aTrueMDDone
    | s, .leafEnd lb ioRes => s.leafEnd lb ioRes

instance (s : TrueRead) : ∀ e, Decidable (trueReadMachine.enabled s e)
  | .itemEnd k _ _ => decidable_of_iff ((s.items[k]?).any (·.status = .outstanding) = true)
      (by simp [trueReadMachine, Option.any_eq_true])
  | .mismatch k => decidable_of_iff ((s.items[k]?).any (·.status = .outstanding) = true)
      (by simp [trueReadMachine, Option.any_eq_true])
  | .aTrueMDDone => inferInstanceAs (Decidable (_ = _))
  | .leafEnd lb _ => inferInstanceAs (Decidable (lb ∈ s.leafPool))

end DiscoClient
