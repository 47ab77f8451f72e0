import DiscoClient.Metadata.MetadataItem

/-! Whether a read still has a replica worth waiting for: MData_check_ciUserStatus. -/
namespace DiscoClient.MdItem

def numStatus (md : MdItem) (st : UDataState) : Nat :=
  (List.range md.numDnLoc).countP fun i => decide (md.udataStatus i = st)

/-- _DNReadAck_check_wait: whether to keep waiting, and the result for the user. -/
def dnReadAckCheckWait (md : MdItem) (numMDErr numDiskErr numDnNa : Nat) : Bool × Bool :=
  if numMDErr = md.numDnLoc then (false, true)
  else if numDiskErr = md.numDnLoc then (false, false)
  else if numDnNa = md.numDnLoc then (true, false)
  else if numMDErr + numDiskErr = md.numDnLoc then (false, true)
  else if numMDErr + numDnNa = md.numDnLoc then (true, false)
  else if numDiskErr + numDnNa = md.numDnLoc then (true, false)
  else if numMDErr + numDiskErr + numDnNa = md.numDnLoc then (true, false)
  else (true, false)

/-- MData_check_ciUserStatus. The counts are of the whole array: the loop only stops early
when it has found data. -/
def checkCiUserStatus (md : MdItem) : Bool × Bool :=
  if (List.range md.numDnLoc).any fun i => decide (md.udataStatus i = .readOk) then (false, true)
  else md.dnReadAckCheckWait (md.numStatus .mdErr) (md.numStatus .diskFailure) (md.numStatus .readNa)

end DiscoClient.MdItem
