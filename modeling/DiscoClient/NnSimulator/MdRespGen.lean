import DiscoClient.NnClient.MdRespRoundTrip

/-! The response to an acquire-metadata request, as the name-node simulator encodes it:
discoNN_simulator/discoNNSrv_protocol.c and discoNNSrv_simulator.c. -/
namespace DiscoClient
open Wire List

/-- gen_MDReq_DNLoc. The loop over the triplets copies eight bytes from the 16-bit tmp_s, which still holds
num_rlo: behind it come six bytes that lie there on the stack. -/
def genMDReqDNLoc (stack : Nat → BitVec 48) (ipaddr : List (BitVec 8)) (port : BitVec 32) (phyRlo : List (BitVec 64)) :
    List (BitVec 8) :=
  beU16 (BitVec.ofNat 16 ipaddr.length) ++ (ipaddr ++ (beU32 port ++ (beU16 (BitVec.ofNat 16 phyRlo.length) ++
    (List.range phyRlo.length).flatMap fun i => beU16 (BitVec.ofNat 16 phyRlo.length) ++ beBytes 6 (stack i).toNat)))

/-- The loop of _gen_MDReq_Metadata over the replicas. -/
def genMDReqDNLocs (stack : Nat → Nat → BitVec 48) : Nat → List SentDnLoc → List (BitVec 8)
  | _, [] => []
  | j, l :: ls => genMDReqDNLoc (stack j) l.ip.str l.port l.rlo ++ genMDReqDNLocs stack (j + 1) ls

/-- An item, from its number of HBIDs (which gen_MDReq_MDBody1 writes) to its state. -/
def genMDReqItem (stack : Nat → Nat → BitVec 48) (s : SentMdItem) : List (BitVec 8) :=
  beU16 (BitVec.ofNat 16 s.hbids.length) ++ (s.hbids.flatMap beU64 ++
    (beU16 (BitVec.ofNat 16 s.dnLocs.length) ++ (genMDReqDNLocs stack 0 s.dnLocs ++ beU16 s.stat)))

def genMDReqItems (stack : Nat → Nat → Nat → BitVec 48) : Nat → List SentMdItem → List (BitVec 8)
  | _, [] => []
  | i, s :: ss => genMDReqItem (stack i) s ++ genMDReqItems stack (i + 1) ss

/-- _gen_MDReq_Metadata for any number of items: the header, the items and the flow-control values. -/
def genMDReqMetadata (stack : Nat → Nat → Nat → BitVec 48) (items : List SentMdItem) (fc : FcPkt) : List (BitVec 8) :=
  beU64 0 ++ (beU16 (BitVec.ofNat 16 items.length) ++ (genMDReqItems stack 0 items ++ fc.bytes))

/-! ### What the encoder's bytes say -/

def copiedRlo (numRlo : Nat) (x : BitVec 48) : BitVec 64 :=
  BitVec.ofNat 64 ((BitVec.ofNat 16 numRlo).toNat * 2 ^ 48 + x.toNat)

def copiedRlos (stack : Nat → BitVec 48) (numRlo : Nat) : List (BitVec 64) :=
  (List.range numRlo).map fun i => copiedRlo numRlo (stack i)

theorem length_copiedRlos (stack : Nat → BitVec 48) (numRlo : Nat) : (copiedRlos stack numRlo).length = numRlo := by
  rw [copiedRlos, length_map, length_range]

theorem length_copiedRlos_le (stack : Nat → BitVec 48) (l : SentDnLoc) :
    (copiedRlos stack l.rlo.length).length ≤ maxLbsPerIor := by
  rw [length_copiedRlos]
  exact l.rlo_length_le

def SentDnLoc.copied (stack : Nat → BitVec 48) (l : SentDnLoc) : SentDnLoc :=
  ⟨l.ip, l.port, copiedRlos stack l.rlo.length, length_copiedRlos_le stack l⟩

def copiedDnLocs (stack : Nat → Nat → BitVec 48) : Nat → List SentDnLoc → List SentDnLoc
  | _, [] => []
  | j, l :: ls => l.copied (stack j) :: copiedDnLocs stack (j + 1) ls

theorem length_copiedDnLocs (stack : Nat → Nat → BitVec 48) (j : Nat) (locs : List SentDnLoc) :
    (copiedDnLocs stack j locs).length = locs.length := by
  induction locs generalizing j with
  | nil => rfl
  | cons l ls ih => rw [copiedDnLocs, length_cons, ih, length_cons]

theorem length_copiedDnLocs_le (stack : Nat → Nat → BitVec 48) (s : SentMdItem) :
    (copiedDnLocs stack 0 s.dnLocs).length ≤ maxNumReplica := by
  rw [length_copiedDnLocs]
  exact s.dnLocs_length_le

def SentMdItem.copied (stack : Nat → Nat → BitVec 48) (s : SentMdItem) : SentMdItem :=
  ⟨s.hbids, copiedDnLocs stack 0 s.dnLocs, s.stat, s.hbids_length_le, length_copiedDnLocs_le stack s⟩

def copiedItems (stack : Nat → Nat → Nat → BitVec 48) : Nat → List SentMdItem → List SentMdItem
  | _, [] => []
  | i, s :: ss => s.copied (stack i) :: copiedItems stack (i + 1) ss

theorem u64_copiedRlo (numRlo : Nat) (x : BitVec 48) :
    beU16 (BitVec.ofNat 16 numRlo) ++ beBytes 6 x.toNat = beU64 (copiedRlo numRlo x) := by
  have hlt : (BitVec.ofNat 16 numRlo).toNat * 2 ^ 48 + x.toNat < 2 ^ 64 := by
    have hn := (BitVec.ofNat 16 numRlo).isLt
    have hx := x.isLt
    omega
  have hval : (copiedRlo numRlo x).toNat = (BitVec.ofNat 16 numRlo).toNat * 2 ^ 48 + x.toNat :=
    (BitVec.toNat_ofNat _ _).trans (Nat.mod_eq_of_lt hlt)
  rw [beU16, beBytes_append x.isLt, beU64, hval]
  rfl

theorem genMDReqDNLoc_eq (stack : Nat → BitVec 48) (l : SentDnLoc) :
    genMDReqDNLoc stack l.ip.str l.port l.rlo = (l.copied stack).bytes := by
  have hrlos : ((List.range l.rlo.length).flatMap fun i =>
      beU16 (BitVec.ofNat 16 l.rlo.length) ++ beBytes 6 (stack i).toNat) = (copiedRlos stack l.rlo.length).flatMap beU64 := by
    rw [copiedRlos, flatMap_map]
    simp only [u64_copiedRlo]
  rw [genMDReqDNLoc, hrlos, SentDnLoc.bytes, SentDnLoc.copied, length_copiedRlos]

theorem genMDReqDNLocs_eq (stack : Nat → Nat → BitVec 48) (j : Nat) (locs : List SentDnLoc) :
    genMDReqDNLocs stack j locs = (copiedDnLocs stack j locs).flatMap SentDnLoc.bytes := by
  induction locs generalizing j with
  | nil => rfl
  | cons l ls ih => rw [genMDReqDNLocs, genMDReqDNLoc_eq, ih, copiedDnLocs, flatMap_cons]

theorem genMDReqItems_eq (stack : Nat → Nat → Nat → BitVec 48) (i : Nat) (items : List SentMdItem) :
    genMDReqItems stack i items = (copiedItems stack i items).flatMap SentMdItem.bytes := by
  induction items generalizing i with
  | nil => rfl
  | cons s ss ih =>
    rw [genMDReqItems, genMDReqItem, genMDReqDNLocs_eq, ih, copiedItems, flatMap_cons, SentMdItem.bytes,
      SentMdItem.copied, length_copiedDnLocs]

theorem SentMdItem.length_bytes_copied (stack : Nat → Nat → BitVec 48) (s : SentMdItem) :
    (s.copied stack).bytes.length = s.bytes.length := by
  have hlocs (locs : List SentDnLoc) (j : Nat) :
      ((copiedDnLocs stack j locs).flatMap SentDnLoc.bytes).length = (locs.flatMap SentDnLoc.bytes).length := by
    induction locs generalizing j with
    | nil => rfl
    | cons l ls ih =>
      rw [copiedDnLocs, flatMap_cons, flatMap_cons, length_append, length_append, ih,
        SentDnLoc.length_bytes, SentDnLoc.length_bytes, SentDnLoc.copied, length_copiedRlos]
  simp only [bytes, copied, length_append, length_u16, hlocs]

theorem length_copiedItems (stack : Nat → Nat → Nat → BitVec 48) (i : Nat) (items : List SentMdItem) :
    (copiedItems stack i items).length = items.length := by
  induction items generalizing i with
  | nil => rfl
  | cons s ss ih => rw [copiedItems, length_cons, ih, length_cons]

theorem length_flatMap_bytes_copiedItems (stack : Nat → Nat → Nat → BitVec 48) (i : Nat) (items : List SentMdItem) :
    ((copiedItems stack i items).flatMap SentMdItem.bytes).length = (items.flatMap SentMdItem.bytes).length := by
  induction items generalizing i with
  | nil => rfl
  | cons s ss ih =>
    rw [copiedItems, flatMap_cons, flatMap_cons, length_append, length_append, ih,
      SentMdItem.length_bytes_copied]

theorem lbsOf_copiedItems (stack : Nat → Nat → Nat → BitVec 48) (i : Nat) (items : List SentMdItem) :
    lbsOf (copiedItems stack i items) = lbsOf items := by
  induction items generalizing i with
  | nil => rfl
  | cons s ss ih =>
    simp only [lbsOf] at ih
    simp only [copiedItems, lbsOf, map_cons, sum_cons, ih, SentMdItem.copied]

theorem copiedItems_ne_nil (stack : Nat → Nat → Nat → BitVec 48) (r : SentMdResp) :
    copiedItems stack 0 r.items ≠ [] :=
  ne_nil_of_length_pos (by
    rw [length_copiedItems]
    exact length_pos_of_ne_nil r.items_ne_nil)

theorem copiedItems_size_lt (stack : Nat → Nat → Nat → BitVec 48) (r : SentMdResp) :
    (mdRespBytes 0 (copiedItems stack 0 r.items) r.fc).length + 8 < 2 ^ 16 := by
  have hsize := r.size_lt
  simp only [mdRespBytes, length_append, length_u16, length_u64, length_flatMap_bytes_copiedItems] at hsize ⊢
  exact hsize

def SentMdResp.copied (stack : Nat → Nat → Nat → BitVec 48) (r : SentMdResp) : SentMdResp :=
  ⟨0, copiedItems stack 0 r.items, r.fc, copiedItems_ne_nil stack r, copiedItems_size_lt stack r⟩

theorem genMDReqMetadata_eq (stack : Nat → Nat → Nat → BitVec 48) (r : SentMdResp) :
    genMDReqMetadata stack r.items r.fc = (r.copied stack).bytes := by
  rw [genMDReqMetadata, genMDReqItems_eq, SentMdResp.bytes, mdRespBytes, SentMdResp.copied, length_copiedItems]

theorem parseNamenodeResponse_simulated {req : AcquireReq} (r : SentMdResp) (ovw : VolumeOvw)
    (hovw : req.checkAlloc = true → ovw.ovwInit = true ∧ req.lbidStart + lbsOf r.items ≤ 8 * ovw.ovwMemory.length)
    (stack : Nat → Nat → Nat → BitVec 48) :
    ∃ answer, parseNamenodeResponse req ovw (genMDReqMetadata stack r.items r.fc)
        (BitVec.ofNat 16 ((genMDReqMetadata stack r.items r.fc).length + 8)) = some (.parsed answer) ∧
      answer.arrayMetadata = mdItemsFrom req SentMdItem.parsed 0 req.lbidStart (copiedItems stack 0 r.items) ∧
      answer.curptr = [] := by
  obtain ⟨mem, hparse, -⟩ := parseNamenodeResponse_bytes (r.copied stack) ovw (by
    rw [SentMdResp.copied, lbsOf_copiedItems]
    exact hovw)
  rw [SentMdResp.size, ← genMDReqMetadata_eq] at hparse
  exact ⟨_, hparse, rfl, rfl⟩

end DiscoClient
