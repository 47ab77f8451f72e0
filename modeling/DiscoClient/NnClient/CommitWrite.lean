import DiscoClient.NnClient.CommitWalk
import Mathlib.Algebra.Order.BigOperators.Group.List

/-! The report of a write, and the walk over it: discoNN_client/discoC_NN_protocol.c. -/
namespace DiscoClient
open Wire Memory List

/-- The loop of pack_SuccessLHO_pkt over the data nodes: the packet and numOfDNs. -/
def successDnLoop (b : PktBuf) (numOfDNs : Nat) : List CiDnLoc → PktBuf × Nat
  | [] => (b, numOfDNs)
  | l :: ls => if l.writefail then successDnLoop b numOfDNs ls else successDnLoop (b.putDnLoc l) (numOfDNs + 1) ls

/-- One item of pack_SuccessLHO_pkt: the place of the number of data nodes is filled in behind their records. -/
def packSuccessItem (b : PktBuf) (it : CiMdItem) : PktBuf :=
  let b := ((b.put (beU64 it.lbidS)).put (beU32 (BitVec.ofNat 32 it.arrHBID.length))).putU64s it.arrHBID
  let dns := successDnLoop ⟨b.mem, b.ptr + 4, b.size + 4⟩ 0 it.udataDnLoc
  { dns.1 with mem := write dns.1.mem b.ptr (beU32 (BitVec.ofNat 32 dns.2)) }

/-- The loop of pack_SuccessLHO_pkt over the items: the packet and num_MDItem. -/
def packSuccessLoop (b : PktBuf) (numMDItem : Nat) : List CiMdItem → PktBuf × Nat
  | [] => (b, numMDItem)
  | it :: its => packSuccessLoop (packSuccessItem b it) (numMDItem + 1) its

/-- NNProto_gen_ciMDReq_WriteIO_pkt: the memory of the packet, and its length. -/
def genCiMDReqWriteIOPkt (volumeID nnReqID : BitVec 32) (md : CiMetadata) (mem : Nat → BitVec 8) :
    (Nat → BitVec 8) × Nat :=
  let r := packSuccessLoop ⟨mem, 30, 0⟩ 0 md.items
  let hder := beU64 magicNum ++ (beU16 MdOpcode.reportWriteIoResult.code ++ (beU64 (volumeID.setWidth 64) ++
    (beU64 (nnReqID.setWidth 64) ++ beU32 (BitVec.ofNat 32 r.2))))
  (write (write r.1.mem 0 hder) (30 + r.1.size) (beU64 magicNum), 30 + r.1.size + 8)

def CiDnLoc.written (l : CiDnLoc) : Bool := !l.writefail

def writeReport (ipLen : Nat) (volumeID nnReqID : BitVec 32) (md : CiMetadata) : ShownPkt :=
  ⟨magicNum, MdOpcode.reportWriteIoResult.code, volumeID.setWidth 64, nnReqID.setWidth 64,
    md.items.map (CiMdItem.shown ipLen CiDnLoc.written), magicNum⟩

theorem successDnLoop_eq (locs : List CiDnLoc) (b : PktBuf) (n : Nat) :
    successDnLoop b n locs =
      (b.put (((locs.filter CiDnLoc.written).map (CiDnLoc.shown dnIpaddrNameLen)).flatMap ShownDnLoc.bytes),
        n + (locs.filter CiDnLoc.written).length) := by
  induction locs generalizing b n with
  | nil => rw [successDnLoop, filter_nil, map_nil, flatMap_nil, PktBuf.put_nil]; rfl
  | cons l ls ih =>
    cases hfail : l.writefail with
    | true => rw [successDnLoop, if_pos hfail, ih, filter_cons_of_neg (by simp [CiDnLoc.written, hfail])]
    | false =>
      rw [successDnLoop, if_neg (by simp [hfail]), ih, PktBuf.putDnLoc_eq, PktBuf.put_put,
        filter_cons_of_pos (by simp [CiDnLoc.written, hfail]), map_cons, flatMap_cons, length_cons,
        Nat.add_right_comm n, Nat.add_assoc n]

theorem packSuccessItem_eq (b : PktBuf) (it : CiMdItem) :
    packSuccessItem b it = b.put (it.shown dnIpaddrNameLen CiDnLoc.written).bytes := by
  -- a number that is left out at first and written when its records stand
  have hfill (b : PktBuf) (x : BitVec 32) (d : List (BitVec 8)) :
      { (⟨b.mem, b.ptr + 4, b.size + 4⟩ : PktBuf).put d with
        mem := write (write b.mem (b.ptr + 4) d) b.ptr (beU32 x) } = b.put (beU32 x ++ d) := by
    have hmem : write (write b.mem (b.ptr + (beU32 x).length) d) b.ptr (beU32 x) = write b.mem b.ptr (beU32 x ++ d) :=
      write_before
    rw [length_u32] at hmem
    simp only [PktBuf.put, hmem, length_append, length_u32, Nat.add_assoc]
  have hnum : (it.shown dnIpaddrNameLen CiDnLoc.written).dns.length = (it.udataDnLoc.filter CiDnLoc.written).length :=
    length_map _
  rw [packSuccessItem, PktBuf.putU64s_eq, PktBuf.put_put, PktBuf.put_put]
  simp only [successDnLoop_eq, Nat.zero_add]
  refine (hfill _ _ _).trans ?_
  rw [PktBuf.put_put, ShownLho.bytes, ShownLho.head, hnum]
  simp only [append_assoc]
  rfl

theorem packSuccessLoop_eq (items : List CiMdItem) (b : PktBuf) (n : Nat) :
    packSuccessLoop b n items =
      (b.put ((items.map (CiMdItem.shown dnIpaddrNameLen CiDnLoc.written)).flatMap ShownLho.bytes),
        n + items.length) := by
  induction items generalizing b n with
  | nil => rw [packSuccessLoop, map_nil, flatMap_nil, PktBuf.put_nil]; rfl
  | cons it its ih =>
    rw [packSuccessLoop, ih, packSuccessItem_eq, PktBuf.put_put, map_cons, flatMap_cons, length_cons,
      Nat.add_right_comm n, Nat.add_assoc n]

theorem genCiMDReqWriteIOPkt_eq (volumeID nnReqID : BitVec 32) (md : CiMetadata) (mem : Nat → BitVec 8) :
    genCiMDReqWriteIOPkt volumeID nnReqID md mem =
      (write mem 0 (writeReport dnIpaddrNameLen volumeID nnReqID md).bytes,
        (writeReport dnIpaddrNameLen volumeID nnReqID md).bytes.length) := by
  rw [← ShownPkt.write_bytes, ShownPkt.length_bytes, genCiMDReqWriteIOPkt, ShownPkt.head]
  simp only [packSuccessLoop_eq, writeReport, length_map, PktBuf.put, Nat.zero_add]

def ShownLho.walked (ipLen : Nat) (l : ShownLho) : Nat :=
  16 + 8 * l.hbids.length + (l.dns.map fun d => ipLen + 8 + 8 * d.triples.length).sum

theorem printCommitDNLocInPkt_size (ipLen : Nat) (m : Nat → BitVec 8) (buf : Nat) :
    (printCommitDNLocInPkt ipLen m buf).2 = ipLen + 8 + 8 * (printCommitDNLocInPkt ipLen m buf).1.triples.length := by
  rw [printCommitDNLocInPkt, length_loadU64s]

theorem showDns_index (ipLen : Nat) (m : Nat → BitVec 8) (n index : Nat) :
    (showDns ipLen m n index).2 =
      index + ((showDns ipLen m n index).1.map fun d => ipLen + 8 + 8 * d.triples.length).sum := by
  induction n generalizing index with
  | zero => rfl
  | succ n ih =>
    rw [showDns, ih, map_cons, sum_cons, ← printCommitDNLocInPkt_size, Nat.add_assoc]

theorem showLho_eq (ipLen : Nat) (m : Nat → BitVec 8) (index : Nat) :
    ∃ cnt num, showLho ipLen m index = (⟨loadU64 m index, loadU64s m (index + 12) cnt,
      (showDns ipLen m num (index + 16 + 8 * cnt)).1⟩, (showDns ipLen m num (index + 16 + 8 * cnt)).2) :=
  ⟨_, _, rfl⟩

theorem showLho_index (ipLen : Nat) (m : Nat → BitVec 8) (index : Nat) :
    (showLho ipLen m index).2 = index + (showLho ipLen m index).1.walked ipLen := by
  obtain ⟨cnt, num, heq⟩ := showLho_eq ipLen m index
  rw [heq, ShownLho.walked, length_loadU64s, showDns_index, Nat.add_assoc index, Nat.add_assoc index]

theorem showLhos_index (ipLen : Nat) (m : Nat → BitVec 8) (n index : Nat) :
    (showLhos ipLen m n index).2 = index + ((showLhos ipLen m n index).1.map (ShownLho.walked ipLen)).sum := by
  induction n generalizing index with
  | zero => rfl
  | succ n ih => rw [showLhos, ih, map_cons, sum_cons, ← Nat.add_assoc, ← showLho_index]

theorem walkCiPkt_eq (ipLen : Nat) (m : Nat → BitVec 8) :
    ∃ num, walkCiPkt ipLen m = (⟨loadU64 m 0, loadU16 m 8, loadU64 m 10, loadU64 m 18, (showLhos ipLen m num 30).1,
      loadU64 m (showLhos ipLen m num 30).2⟩, (showLhos ipLen m num 30).2 + 8) :=
  ⟨_, rfl⟩

theorem walkCiPkt_index (ipLen : Nat) (m : Nat → BitVec 8) :
    (walkCiPkt ipLen m).2 = 30 + ((walkCiPkt ipLen m).1.lhos.map (ShownLho.walked ipLen)).sum + 8 := by
  obtain ⟨num, heq⟩ := walkCiPkt_eq ipLen m
  rw [heq, showLhos_index]

theorem ShownLho.length_bytes {ipLen : Nat} {l : ShownLho} (h : l.Ok ipLen) : l.bytes.length = l.walked ipLen := by
  have hdns : (l.dns.flatMap ShownDnLoc.bytes).length = (l.dns.map fun d => ipLen + 8 + 8 * d.triples.length).sum := by
    rw [length_flatMap]
    congr 1
    exact map_congr_left fun d hd => ShownDnLoc.length_bytes (h.2.2 d hd)
  rw [bytes, length_append, l.length_head, hdns, walked]

/-- An item whose address fields have DN_IPADDR_NAME_LEN bytes is four bytes longer per data node than a walk with
IPV4ADDR_NM_LEN takes it to be. -/
theorem CiMdItem.walked_gap (it : CiMdItem) :
    (it.shown dnIpaddrNameLen CiDnLoc.written).walked dnIpaddrNameLen =
      (it.shown ipv4addrNmLen CiDnLoc.written).walked ipv4addrNmLen +
        4 * (it.udataDnLoc.filter CiDnLoc.written).length := by
  have hgap : dnIpaddrNameLen = ipv4addrNmLen + 4 := rfl
  have hsum (ls : List CiDnLoc) :
      ((ls.map (CiDnLoc.shown dnIpaddrNameLen)).map fun d => dnIpaddrNameLen + 8 + 8 * d.triples.length).sum =
        ((ls.map (CiDnLoc.shown ipv4addrNmLen)).map fun d => ipv4addrNmLen + 8 + 8 * d.triples.length).sum +
          4 * ls.length := by
    induction ls with
    | nil => rfl
    | cons l ls ih =>
      simp only [map_cons, sum_cons, ih, CiDnLoc.shown, length_cons]
      omega
  simp only [ShownLho.walked, CiMdItem.shown, hsum]
  omega

def reportedDns (items : List CiMdItem) : Nat := (items.map fun it => (it.udataDnLoc.filter CiDnLoc.written).length).sum

theorem walked_sum_gap (items : List CiMdItem) :
    ((items.map (CiMdItem.shown dnIpaddrNameLen CiDnLoc.written)).map (ShownLho.walked dnIpaddrNameLen)).sum =
      ((items.map (CiMdItem.shown ipv4addrNmLen CiDnLoc.written)).map (ShownLho.walked ipv4addrNmLen)).sum +
        4 * reportedDns items := by
  induction items with
  | nil => rfl
  | cons it its ih =>
    have hone := it.walked_gap
    simp only [reportedDns] at ih
    simp only [map_cons, sum_cons, ih, hone, reportedDns]
    omega

theorem length_writeReport (volumeID nnReqID : BitVec 32) (md : CiMetadata) :
    (writeReport dnIpaddrNameLen volumeID nnReqID md).bytes.length =
      30 + ((md.items.map (CiMdItem.shown dnIpaddrNameLen CiDnLoc.written)).map
        (ShownLho.walked dnIpaddrNameLen)).sum + 8 := by
  rw [ShownPkt.length_bytes, writeReport, length_flatMap]
  congr 3
  refine map_congr_left fun l hl => ?_
  obtain ⟨it, -, rfl⟩ := mem_map.mp hl
  exact ShownLho.length_bytes (it.shown_ok (by decide) _)

theorem reportedDns_eq_zero_iff (items : List CiMdItem) :
    reportedDns items = 0 ↔ ∀ it ∈ items, ∀ l ∈ it.udataDnLoc, l.udataStatus ≠ .writeOk := by
  have hwritten (l : CiDnLoc) : l.written = true ↔ l.udataStatus = .writeOk := by
    rw [CiDnLoc.written, CiDnLoc.writefail, Bool.not_not, beq_iff_eq]
  rw [reportedDns, List.sum_eq_zero_iff, forall_mem_map]
  refine forall₂_congr fun it _ => ?_
  rw [length_eq_zero_iff, filter_eq_nil_iff]
  exact forall₂_congr fun l _ => (hwritten l).not

theorem writeReport_width {md : CiMetadata} (h : ∀ it ∈ md.items, ∀ l ∈ it.udataDnLoc, l.udataStatus ≠ .writeOk)
    (volumeID nnReqID : BitVec 32) :
    writeReport dnIpaddrNameLen volumeID nnReqID md = writeReport ipv4addrNmLen volumeID nnReqID md := by
  have hitems : md.items.map (CiMdItem.shown dnIpaddrNameLen CiDnLoc.written) =
      md.items.map (CiMdItem.shown ipv4addrNmLen CiDnLoc.written) := by
    refine map_congr_left fun it hit => ?_
    have hnil : it.udataDnLoc.filter CiDnLoc.written = [] := by
      rw [filter_eq_nil_iff]
      intro l hl hw
      rw [CiDnLoc.written, CiDnLoc.writefail, Bool.not_not, beq_iff_eq] at hw
      exact h it hit l hl hw
    rw [CiMdItem.shown, CiMdItem.shown, hnil, map_nil, map_nil]
  rw [writeReport, hitems, writeReport]

/-- The client's own walk over a report of a write reads what was reported and ends at the length of the packet exactly
when no data node is reported. -/
theorem write_report_walk_iff (volumeID nnReqID : BitVec 32) (md : CiMetadata) (mem : Nat → BitVec 8) :
    showCiMDReqWriteIOPkt (genCiMDReqWriteIOPkt volumeID nnReqID md mem).1 =
      (writeReport ipv4addrNmLen volumeID nnReqID md, (genCiMDReqWriteIOPkt volumeID nnReqID md mem).2) ↔
    ∀ it ∈ md.items, ∀ l ∈ it.udataDnLoc, l.udataStatus ≠ .writeOk := by
  rw [genCiMDReqWriteIOPkt_eq, showCiMDReqWriteIOPkt]
  constructor
  · intro hwalk
    have hend := walkCiPkt_index ipv4addrNmLen (write mem 0 (writeReport dnIpaddrNameLen volumeID nnReqID md).bytes)
    rw [hwalk, length_writeReport, walked_sum_gap] at hend
    rw [← reportedDns_eq_zero_iff]
    simp only [writeReport] at hend
    omega
  · intro hnone
    rw [writeReport_width hnone]
    refine walkCiPkt_holds ?_ ?_ (holds_write mem 0 _)
    · have hitems := md.items_lt
      rw [writeReport, length_map]
      omega
    · exact forall_mem_map.mpr fun it _ => it.shown_ok (by decide) _

theorem one_phyLoc_le : [2097152#64].length ≤ maxLbsPerIor := by decide
theorem one_hbid_le : [71#64].length ≤ maxLbsPerIor := by decide

def dnEnding (status : UDataState) : CiDnLoc := ⟨inetAddr 10 0 0 1, 20100#32, [2097152#64], status, one_phyLoc_le⟩

theorem one_dnLoc_le (l : CiDnLoc) : [l].length ≤ maxNumReplica := by simp [maxNumReplica]

def itemEnding (status : UDataState) : CiMdItem :=
  ⟨5#64, [71#64], [dnEnding status], one_hbid_le, one_dnLoc_le (dnEnding status)⟩

theorem one_item_lt (it : CiMdItem) : [it].length < 2 ^ 16 := by simp

def mdEnding (status : UDataState) : CiMetadata := ⟨[itemEnding status], one_item_lt (itemEnding status)⟩

theorem write_report_walk_failed :
    showCiMDReqWriteIOPkt (genCiMDReqWriteIOPkt 3#32 4#32 (mdEnding .writeFail) fun _ => 0#8).1 =
      (writeReport ipv4addrNmLen 3#32 4#32 (mdEnding .writeFail),
        (genCiMDReqWriteIOPkt 3#32 4#32 (mdEnding .writeFail) fun _ => 0#8).2) :=
  (write_report_walk_iff 3#32 4#32 (mdEnding .writeFail) fun _ => 0#8).mpr
    (forall_mem_singleton.mpr (forall_mem_singleton.mpr (by decide)))

def pktWritten : (Nat → BitVec 8) × Nat := genCiMDReqWriteIOPkt 3#32 4#32 (mdEnding .writeOk) fun _ => 0#8

/-- The packet has 98 bytes. At 54 the walk takes the last four bytes of the address field for the port, and
the port for the number of triplets. -/
theorem write_report_walk_off :
    pktWritten.2 = 98 ∧ loadU32 pktWritten.1 (54 + ipv4addrNmLen) = 0#32 ∧
    loadCount pktWritten.1 (54 + ipv4addrNmLen + 4) = 20100 ∧
    showCiMDReqWriteIOPkt pktWritten.1 ≠ (writeReport ipv4addrNmLen 3#32 4#32 (mdEnding .writeOk), pktWritten.2) := by
  have hlen : pktWritten.2 = 98 := by decide +kernel
  refine ⟨hlen, by decide +kernel, by decide +kernel, fun hwalk => ?_⟩
  have hend := walkCiPkt_index ipv4addrNmLen pktWritten.1
  have hread : ((writeReport ipv4addrNmLen 3#32 4#32 (mdEnding .writeOk)).lhos.map
      (ShownLho.walked ipv4addrNmLen)).sum = 56 := by
    decide +kernel
  rw [showCiMDReqWriteIOPkt] at hwalk
  rw [hwalk, hlen, hread] at hend
  exact absurd hend (by decide)

end DiscoClient
