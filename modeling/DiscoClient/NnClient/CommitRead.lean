import DiscoClient.NnClient.CommitWalk

/-! The report of failed reads: discoNN_client/discoC_NN_protocol.c. -/
namespace DiscoClient
open Wire Memory List

/-- The loop of pack_failLHO_pkt over the data nodes: the packet and num_failDN. -/
def failDnLoop (b : PktBuf) (numFailDN : Nat) : List CiDnLoc → PktBuf × Nat
  | [] => (b, numFailDN)
  | l :: ls => if l.readfail = false then failDnLoop b numFailDN ls else failDnLoop (b.putDnLoc l) (numFailDN + 1) ls

structure Packed where
  mem : Nat → BitVec 8
  size : Nat
  num : Nat

/-- pack_failLHO_pkt at msgBuf: the records of the failed data nodes go behind the place of the item's head, which is
filled in when there are any. -/
def packFailLHOPkt (mem : Nat → BitVec 8) (msgBuf : Nat) (it : CiMdItem) : Packed :=
  let reserved := 8 + 4 + 8 * it.arrHBID.length + 4
  let dns := failDnLoop ⟨mem, msgBuf + reserved, reserved⟩ 0 it.udataDnLoc
  if 0 < dns.2 then
    let head := ((((⟨dns.1.mem, msgBuf, 0⟩ : PktBuf).put (beU64 it.lbidS)).put
      (beU32 (BitVec.ofNat 32 it.arrHBID.length))).putU64s it.arrHBID).put (beU32 (BitVec.ofNat 32 dns.2))
    ⟨head.mem, dns.1.size, dns.2⟩
  else ⟨dns.1.mem, 0, dns.2⟩

/-- The loop of pack_MData_failLHO over the items. -/
def packFailLoop (mem : Nat → BitVec 8) (localPtr pktSize numMdItem : Nat) : List CiMdItem → Packed
  | [] => ⟨mem, pktSize, numMdItem⟩
  | it :: its =>
    let r := packFailLHOPkt mem localPtr it
    if 0 < r.num then packFailLoop r.mem (localPtr + r.size) (pktSize + r.size) (numMdItem + 1) its
    else packFailLoop r.mem localPtr pktSize numMdItem its

/-- NNProto_gen_ciMDReq_ReadIO_pkt: the memory of the packet, and its length. -/
def genCiMDReqReadIOPkt (volumeID nnReqID : BitVec 32) (md : CiMetadata) (mem : Nat → BitVec 8) :
    (Nat → BitVec 8) × Nat :=
  let r := packFailLoop mem 30 0 0 md.items
  if 0 < r.num then
    let hder := beU64 magicNum ++ (beU16 MdOpcode.reportReadIoResult.code ++ (beU64 (volumeID.setWidth 64) ++
      (beU64 (nnReqID.setWidth 64) ++ beU32 (BitVec.ofNat 32 r.num))))
    (write (write r.mem 0 hder) (30 + r.size) (beU64 magicNum), 30 + r.size + 8)
  else (r.mem, 0)

def CiMdItem.failed (it : CiMdItem) : Bool := it.udataDnLoc.any CiDnLoc.readfail

def readReport (volumeID nnReqID : BitVec 32) (md : CiMetadata) : ShownPkt :=
  ⟨magicNum, MdOpcode.reportReadIoResult.code, volumeID.setWidth 64, nnReqID.setWidth 64,
    (md.items.filter CiMdItem.failed).map (CiMdItem.shown dnIpaddrNameLen CiDnLoc.readfail), magicNum⟩

theorem failDnLoop_eq (locs : List CiDnLoc) (b : PktBuf) (n : Nat) :
    failDnLoop b n locs =
      (b.put (((locs.filter CiDnLoc.readfail).map (CiDnLoc.shown dnIpaddrNameLen)).flatMap ShownDnLoc.bytes),
        n + (locs.filter CiDnLoc.readfail).length) := by
  induction locs generalizing b n with
  | nil => rw [failDnLoop, filter_nil, map_nil, flatMap_nil, PktBuf.put_nil]; rfl
  | cons l ls ih =>
    cases hfail : l.readfail with
    | false => rw [failDnLoop, if_pos hfail, ih, filter_cons_of_neg (by simp [hfail])]
    | true =>
      rw [failDnLoop, if_neg (by simp [hfail]), ih, PktBuf.putDnLoc_eq, PktBuf.put_put, filter_cons_of_pos hfail,
        map_cons, flatMap_cons, length_cons, Nat.add_right_comm n, Nat.add_assoc n]

theorem CiMdItem.failed_iff (it : CiMdItem) :
    it.failed = true ↔ 0 < (it.udataDnLoc.filter CiDnLoc.readfail).length := by
  rw [failed, any_eq_true, length_filter_pos_iff]

theorem packFailLHOPkt_eq (mem : Nat → BitVec 8) (msgBuf : Nat) (it : CiMdItem) :
    packFailLHOPkt mem msgBuf it =
      if it.failed then
        ⟨write mem msgBuf (it.shown dnIpaddrNameLen CiDnLoc.readfail).bytes,
          (it.shown dnIpaddrNameLen CiDnLoc.readfail).bytes.length, (it.udataDnLoc.filter CiDnLoc.readfail).length⟩
      else ⟨mem, 0, 0⟩ := by
  have hdns := failDnLoop_eq it.udataDnLoc
    ⟨mem, msgBuf + (8 + 4 + 8 * it.arrHBID.length + 4), 8 + 4 + 8 * it.arrHBID.length + 4⟩ 0
  rw [Nat.zero_add] at hdns
  by_cases hfail : it.failed = true
  · have hpos := it.failed_iff.mp hfail
    have hhead : (it.shown dnIpaddrNameLen CiDnLoc.readfail).head.length = 8 + 4 + 8 * it.arrHBID.length + 4 := by
      rw [ShownLho.length_head]
      change 16 + 8 * it.arrHBID.length = _
      omega
    have hnum : (it.shown dnIpaddrNameLen CiDnLoc.readfail).dns.length = (it.udataDnLoc.filter CiDnLoc.readfail).length :=
      length_map _
    rw [if_pos hfail, packFailLHOPkt]
    simp only [hdns, hpos, if_true, PktBuf.putU64s_eq, PktBuf.put_put]
    rw [ShownLho.bytes, length_append, ← write_before, hhead]
    simp only [PktBuf.put, append_assoc, ShownLho.head, hnum]
    rfl
  · have hnil : it.udataDnLoc.filter CiDnLoc.readfail = [] :=
      length_eq_zero_iff.mp (Nat.eq_zero_of_not_pos (it.failed_iff.not.mp hfail))
    rw [if_neg hfail, packFailLHOPkt]
    simp only [hdns, hnil, length_nil, lt_irrefl, if_false, map_nil, flatMap_nil, PktBuf.put_nil]

theorem packFailLoop_eq (items : List CiMdItem) (mem : Nat → BitVec 8) (ptr size num : Nat) :
    packFailLoop mem ptr size num items =
      ⟨write mem ptr (((items.filter CiMdItem.failed).map (CiMdItem.shown dnIpaddrNameLen CiDnLoc.readfail)).flatMap
          ShownLho.bytes),
        size + (((items.filter CiMdItem.failed).map (CiMdItem.shown dnIpaddrNameLen CiDnLoc.readfail)).flatMap
          ShownLho.bytes).length,
        num + (items.filter CiMdItem.failed).length⟩ := by
  induction items generalizing mem ptr size num with
  | nil => rw [packFailLoop, filter_nil, map_nil, flatMap_nil, write_nil]; rfl
  | cons it its ih =>
    cases hfail : it.failed with
    | false =>
      rw [packFailLoop, packFailLHOPkt_eq, hfail, filter_cons_of_neg (by simp [hfail])]
      exact ih mem ptr size num
    | true =>
      have hpos := it.failed_iff.mp hfail
      rw [packFailLoop, packFailLHOPkt_eq, hfail, filter_cons_of_pos hfail, map_cons, flatMap_cons,
        length_append, length_cons, ← write_append]
      simp only [if_true, hpos, ih, Nat.add_assoc, Nat.add_comm 1]

/-- Nothing is written and the length is 0 if no data node failed; otherwise exactly the bytes of the report
are written, their number is returned, and a walk by the declared counts finds the report and ends there. -/
theorem read_report_packet (volumeID nnReqID : BitVec 32) (md : CiMetadata) (mem : Nat → BitVec 8) :
    if md.items.any CiMdItem.failed then
      genCiMDReqReadIOPkt volumeID nnReqID md mem =
        (write mem 0 (readReport volumeID nnReqID md).bytes, (readReport volumeID nnReqID md).bytes.length) ∧
      walkCiPkt dnIpaddrNameLen (genCiMDReqReadIOPkt volumeID nnReqID md mem).1 =
        (readReport volumeID nnReqID md, (genCiMDReqReadIOPkt volumeID nnReqID md mem).2)
    else genCiMDReqReadIOPkt volumeID nnReqID md mem = (mem, 0) := by
  have hloop := packFailLoop_eq md.items mem 30 0 0
  rw [Nat.zero_add, Nat.zero_add] at hloop
  split
  · next hany =>
    have hgen : genCiMDReqReadIOPkt volumeID nnReqID md mem =
        (write mem 0 (readReport volumeID nnReqID md).bytes, (readReport volumeID nnReqID md).bytes.length) := by
      have hpos : 0 < (md.items.filter CiMdItem.failed).length := by
        rw [length_filter_pos_iff]
        exact any_eq_true.mp hany
      rw [← (readReport volumeID nnReqID md).write_bytes, (readReport volumeID nnReqID md).length_bytes,
        genCiMDReqReadIOPkt, ShownPkt.head]
      simp only [hloop, hpos, if_true, readReport, length_map]
    refine ⟨hgen, ?_⟩
    rw [hgen]
    refine walkCiPkt_holds ?_ ?_ (holds_write mem 0 _)
    · have hitems := md.items_lt
      have hfilter := length_filter_le CiMdItem.failed md.items
      rw [readReport, length_map]
      omega
    · exact forall_mem_map.mpr fun it _ => it.shown_ok (by decide) _
  · next hnone =>
    have hnil : md.items.filter CiMdItem.failed = [] := by
      rw [filter_eq_nil_iff]
      exact fun it hit hfail => hnone (any_eq_true.mpr ⟨it, hit, hfail⟩)
    rw [genCiMDReqReadIOPkt]
    simp only [hloop, hnil, length_nil, lt_irrefl, if_false, map_nil, flatMap_nil, write_nil]

end DiscoClient
