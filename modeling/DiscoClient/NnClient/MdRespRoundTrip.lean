import DiscoClient.NnClient.MdRespDecode
import Mathlib.Algebra.BigOperators.Group.List.Basic

namespace DiscoClient
open Bitmap Wire List

def SentMdItem.item (startLB : Nat) (s : SentMdItem) : NnMdItem :=
  ⟨startLB, s.hbids, s.dnLocs.map SentDnLoc.loc, s.stat, false⟩

/-- The items of a response, each from the LB on where the one before ends; one is the way to see an item.
-/
def mdItemsFrom (req : AcquireReq) (one : Nat → SentMdItem → NnMdItem) :
    Nat → Nat → List SentMdItem → List NnMdItem
  | _, _, [] => []
  | i, startLB, s :: ss =>
    req.finishMDItem i (one startLB s) :: mdItemsFrom req one (i + 1) (startLB + s.hbids.length) ss

def allocWrites (req : AcquireReq) (items : List NnMdItem) (lb : Nat) : Option Bool :=
  if req.checkAlloc ∧ ∃ it ∈ items,
      it.mdataStat ≠ MDataState.invalid.code ∧ it.lbidS ≤ lb ∧ lb < it.lbidS + it.arrHBID.length
  then some true else none

def lbsOf (items : List SentMdItem) : Nat := (items.map (·.hbids.length)).sum

def invalOf (items : List SentMdItem) : Nat := items.countP (·.stat == MDataState.invalid.code)

variable {req : AcquireReq} {ovw : VolumeOvw}

theorem AcquireReq.updateMDItemState_eq_invalid (mdstat : BitVec 16) (numDnLoc lrIndex : Nat) :
    req.updateMDItemState mdstat numDnLoc lrIndex = MDataState.invalid.code ↔ mdstat = MDataState.invalid.code := by
  have hless : MDataState.validLessReplica.code ≠ MDataState.invalid.code := by decide
  have hvalid : MDataState.valid.code ≠ MDataState.invalid.code := by decide
  simp only [updateMDItemState]
  grind

theorem count_inval (s : SentMdItem) (ss : List SentMdItem) (i startLB n : Nat) :
    (if (req.finishMDItem i (s.parsed startLB)).mdataStat = MDataState.invalid.code then n + 1 else n) + invalOf ss =
      n + invalOf (s :: ss) := by
  have hstat : (req.finishMDItem i (s.parsed startLB)).mdataStat = MDataState.invalid.code ↔
      s.stat = MDataState.invalid.code := req.updateMDItemState_eq_invalid _ _ _
  rw [if_congr hstat rfl rfl, invalOf, invalOf, countP_cons]
  simp only [beq_iff_eq]
  split <;> omega

theorem allocWrites_cons (it : NnMdItem) (items : List NnMdItem) (lb : Nat) :
    allocWrites req (it :: items) lb = (allocWrites req items lb).or (allocWrites req [it] lb) := by
  simp only [allocWrites, set_or_set, mem_cons, not_mem_nil, or_false, or_and_right, exists_or, and_or_left,
    exists_eq_left]

theorem AcquireReq.setOvw_spec (ovw : VolumeOvw) (item : NnMdItem)
    (hovw : req.checkAlloc = true →
      ovw.ovwInit = true ∧ item.lbidS + item.arrHBID.length ≤ 8 * ovw.ovwMemory.length) :
    ∃ mem, req.setOvw item ovw = { ovw with ovwMemory := mem } ∧ Wrote ovw.ovwMemory (allocWrites req [item]) mem := by
  by_cases hset : item.mdataStat ≠ MDataState.invalid.code ∧ req.checkAlloc = true
  · obtain ⟨hinit, hfits⟩ := hovw hset.2
    obtain ⟨mem, hrange, hw⟩ := ovw.setVolOvwRange_spec true item.arrHBID.length item.lbidS hinit hfits
    refine ⟨mem, by rw [setOvw, if_pos hset, hrange]; rfl, hw.congr fun lb => ?_⟩
    simp only [allocWrites, runWrites, mem_singleton, exists_eq_left, hset.1, hset.2, ne_eq, not_false_eq_true,
      true_and]
  · refine ⟨ovw.ovwMemory, by rw [setOvw, if_neg hset], (Wrote.refl _).congr fun lb => (if_neg ?_).symm⟩
    rintro ⟨halloc, it, hit, hvalid, -⟩
    rw [mem_singleton.mp hit] at hvalid
    exact hset ⟨hvalid, halloc⟩

theorem parseMDItems_bytes (req : AcquireReq) (items : List SentMdItem) (i startLB numInval : Nat)
    (rest : List (BitVec 8)) (ovw : VolumeOvw)
    (hovw : req.checkAlloc = true → ovw.ovwInit = true ∧ startLB + lbsOf items ≤ 8 * ovw.ovwMemory.length) :
    ∃ mem, parseMDItems req items.length i startLB (items.flatMap SentMdItem.bytes ++ rest) numInval ovw =
      some ⟨mdItemsFrom req SentMdItem.parsed i startLB items, numInval + invalOf items, { ovw with ovwMemory := mem },
        rest⟩ ∧
      Wrote ovw.ovwMemory (allocWrites req (mdItemsFrom req SentMdItem.parsed i startLB items)) mem := by
  induction items generalizing i startLB numInval ovw with
  | nil => exact ⟨_, rfl, (Wrote.refl _).congr fun lb => (if_neg (by simp [mdItemsFrom])).symm⟩
  | cons s ss ih =>
    have hlbs : lbsOf (s :: ss) = s.hbids.length + lbsOf ss := by simp only [lbsOf, map_cons, sum_cons]
    obtain ⟨mem, hset, hfirst⟩ := req.setOvw_spec ovw (req.finishMDItem i (s.parsed startLB)) fun halloc => by
      obtain ⟨hinit, hfits⟩ := hovw halloc
      refine ⟨hinit, ?_⟩
      change startLB + s.hbids.length ≤ _
      omega
    have hovw' : req.checkAlloc = true →
        ovw.ovwInit = true ∧ startLB + s.hbids.length + lbsOf ss ≤ 8 * mem.length := fun halloc => by
      obtain ⟨hinit, hfits⟩ := hovw halloc
      rw [hfirst.length_eq]
      exact ⟨hinit, by omega⟩
    obtain ⟨mem', hrun, hrest⟩ := ih (i + 1) (startLB + s.hbids.length)
      (if (req.finishMDItem i (s.parsed startLB)).mdataStat = MDataState.invalid.code then numInval + 1 else numInval)
      { ovw with ovwMemory := mem } hovw'
    refine ⟨mem', ?_, (hfirst.trans hrest).congr fun lb => (allocWrites_cons _ _ lb).symm⟩
    rw [length_cons, parseMDItems, flatMap_cons, append_assoc, getMDRespMDItemNtoh_bytes]
    simp only [Option.bind_eq_bind, Option.bind_some, hset, drop_left]
    rw [count_inval] at hrun
    change (parseMDItems req ss.length (i + 1) (startLB + s.hbids.length) _ _ _).bind _ = _
    rw [hrun]
    rfl

namespace SentMdResp

def bytes (r : SentMdResp) : List (BitVec 8) := mdRespBytes r.mdId r.items r.fc

def size (r : SentMdResp) : BitVec 16 := BitVec.ofNat 16 (r.bytes.length + 8)

end SentMdResp

theorem SentMdItem.length_bytes_ge (s : SentMdItem) : 6 ≤ s.bytes.length := by
  simp only [bytes, length_append, length_u16]
  omega

theorem length_le_flatMap_bytes (items : List SentMdItem) :
    6 * items.length ≤ (items.flatMap SentMdItem.bytes).length := by
  induction items with
  | nil => exact Nat.zero_le _
  | cons s ss ih =>
    have hone := s.length_bytes_ge
    rw [length_cons, flatMap_cons, length_append]
    omega

theorem getMDRespFlowCtrlNtoh_bytes (fc : FcPkt) (rest : List (BitVec 8)) :
    getMDRespFlowCtrlNtoh (fc.bytes ++ rest) = some (fc, rest) := by
  rw [getMDRespFlowCtrlNtoh, FcPkt.bytes]
  simp only [append_assoc, readU32_append, Option.bind_eq_bind, Option.bind_some]
  rfl

/-- The check of the packet's size lets every well-formed response pass, whatever the sign of its 16-bit size. -/
theorem SentMdResp.alloc_ok (r : SentMdResp) :
    nnackAllocMDArray (toU32 (respDataSize r.size)) (BitVec.ofNat 16 r.items.length) = true := by
  have hsize := r.size_lt
  have hitems := length_le_flatMap_bytes r.items
  have hpos : 0 < r.items.length := length_pos_of_ne_nil r.items_ne_nil
  have hlen : (mdRespBytes r.mdId r.items r.fc).length = 30 + (r.items.flatMap SentMdItem.bytes).length := by
    simp only [mdRespBytes, FcPkt.bytes, length_append, length_u16, length_u32, length_u64]
    omega
  have hnum : BitVec.ofNat 16 r.items.length ≠ 0 := fun h => by
    have h := congrArg BitVec.toNat h
    rw [toNat_ofNat_16 (by omega)] at h
    exact hpos.ne' h
  have hpkt : sizeofMdhder < toU32 (respDataSize r.size) := by
    rw [respDataSize, SentMdResp.size, SentMdResp.bytes, toNat_ofNat_16 hsize, sizeofMdhder, toU32, toS16, toS16]
    omega
  simp only [nnackAllocMDArray, Bool.not_eq_true', Bool.or_eq_false_iff, decide_eq_false_iff_not, not_le, hpkt, true_and,
    beq_eq_false_iff_ne, ne_eq, hnum, not_false_eq_true]

theorem parseNamenodeResponse_bytes (r : SentMdResp) (ovw : VolumeOvw)
    (hovw : req.checkAlloc = true → ovw.ovwInit = true ∧ req.lbidStart + lbsOf r.items ≤ 8 * ovw.ovwMemory.length) :
    ∃ mem, parseNamenodeResponse req ovw r.bytes r.size =
      some (.parsed ⟨mdItemsFrom req SentMdItem.parsed 0 req.lbidStart r.items, invalOf r.items, r.fc,
        { ovw with ovwMemory := mem }, []⟩) ∧
      Wrote ovw.ovwMemory (allocWrites req (mdItemsFrom req SentMdItem.parsed 0 req.lbidStart r.items)) mem := by
  have hsize := r.size_lt
  have hitems := length_le_flatMap_bytes r.items
  have hnum : r.items.length < 2 ^ 16 := by
    simp only [mdRespBytes, length_append] at hsize
    omega
  obtain ⟨mem, hparse, hw⟩ := parseMDItems_bytes req r.items 0 req.lbidStart 0 r.fc.bytes ovw hovw
  refine ⟨mem, ?_, hw⟩
  have hfc := getMDRespFlowCtrlNtoh_bytes r.fc []
  rw [append_nil] at hfc
  rw [parseNamenodeResponse, SentMdResp.bytes, mdRespBytes]
  simp only [readU64_append, readU16_append, Option.bind_eq_bind, Option.bind_some, doNormalParse, r.alloc_ok, if_true,
    toNat_ofNat_16 hnum, hparse, hfc, Nat.zero_add]
  rfl

/-! ### Which responses are decoded as they were sent -/

/-- The last value of every address is read as it was sent: digits that longer strings left behind it change
it by a multiple of 256 at most. -/
def IpsKept : List (List (BitVec 8)) → List SentDnLoc → Prop
  | _, [] => True
  | earlier, l :: ls =>
    decNat (l.ip.d.str ++ staleDigits earlier l.ip.str.length) % 2 ^ 8 = decNat l.ip.d.str ∧
      IpsKept (earlier ++ [l.ip.str]) ls

/-- The items in order with their first LBs, HBIDs and data nodes, the number of invalid ones, no byte left,
and the bits of the valid items' LBs set if the request allocates. -/
structure DecodedAsSent (req : AcquireReq) (r : SentMdResp) (ovw : VolumeOvw) (answer : MdAnswer) : Prop where
  items : answer.arrayMetadata = mdItemsFrom req SentMdItem.item 0 req.lbidStart r.items
  inval : answer.numInvalMDItems = invalOf r.items
  flow : answer.fcItem = r.fc
  consumed : answer.curptr = []
  ovw : ∀ lb, answer.ovw.ovwGet lb = (allocWrites req answer.arrayMetadata lb).getD (ovw.ovwGet lb)

theorem parsedDnLocs_eq_iff (earlier : List (List (BitVec 8))) (locs : List SentDnLoc) :
    parsedDnLocs earlier locs = locs.map SentDnLoc.loc ↔ IpsKept earlier locs := by
  induction locs generalizing earlier with
  | nil => exact ⟨fun _ => trivial, fun _ => rfl⟩
  | cons l ls ih =>
    have hd : decNat l.ip.d.str % 2 ^ 8 = decNat l.ip.d.str := Nat.mod_eq_of_lt l.ip.d.value_lt
    rw [parsedDnLocs, map_cons, List.cons.injEq, ih, IpsKept, SentDnLoc.parsed, SentDnLoc.loc, DottedIp.addr,
      NnDnLoc.mk.injEq, inetAddr_inj_last, hd]
    simp only [and_true]

theorem mdItemsFrom_eq_iff (req : AcquireReq) (items : List SentMdItem) (i startLB : Nat) :
    mdItemsFrom req SentMdItem.parsed i startLB items = mdItemsFrom req SentMdItem.item i startLB items ↔
      ∀ s ∈ items, IpsKept [] s.dnLocs := by
  induction items generalizing i startLB with
  | nil => simp [mdItemsFrom]
  | cons s ss ih =>
    have hone : req.finishMDItem i (s.parsed startLB) = req.finishMDItem i (s.item startLB) ↔ IpsKept [] s.dnLocs := by
      rw [← parsedDnLocs_eq_iff]
      constructor
      · exact fun h => congrArg NnMdItem.udataDnLoc h
      · intro h
        rw [SentMdItem.parsed, h, SentMdItem.item]
    rw [mdItemsFrom, mdItemsFrom, cons_eq_cons, hone, ih, forall_mem_cons]

theorem VolumeOvw.ovwGet_of_wrote {ovw : VolumeOvw} {f : Nat → Option Bool} {mem : List (BitVec 8)}
    (hw : Wrote ovw.ovwMemory f mem) (hf : ovw.ovwInit = false → ∀ lb, f lb = none) (lb : Nat) :
    ({ ovw with ovwMemory := mem } : VolumeOvw).ovwGet lb = (f lb).getD (ovw.ovwGet lb) := by
  cases hinit : ovw.ovwInit with
  | false =>
    rw [hf hinit, Option.getD_none, ovwGet, ovwGet, hinit]
    rfl
  | true =>
    rw [ovwGet_eq hinit, ← hw.bit_eq]
    exact ovwGet_eq rfl

/-- A well-formed response is decoded as it was sent exactly when no data node's address takes up digits that an
earlier and longer address of its item left in the string buffer. -/
theorem md_response_decoded_iff (req : AcquireReq) (r : SentMdResp) (ovw : VolumeOvw)
    (hovw : req.checkAlloc = true → ovw.ovwInit = true ∧ req.lbidStart + lbsOf r.items ≤ 8 * ovw.ovwMemory.length) :
    (∃ answer, parseNamenodeResponse req ovw r.bytes r.size = some (.parsed answer) ∧
      DecodedAsSent req r ovw answer) ↔ ∀ s ∈ r.items, IpsKept [] s.dnLocs := by
  obtain ⟨mem, hparse, hw⟩ := parseNamenodeResponse_bytes r ovw hovw
  have hinit : ovw.ovwInit = false →
      ∀ lb, allocWrites req (mdItemsFrom req SentMdItem.parsed 0 req.lbidStart r.items) lb = none :=
    fun hinit lb => if_neg fun h => by simp [(hovw h.1).1] at hinit
  rw [← mdItemsFrom_eq_iff req r.items 0 req.lbidStart, hparse]
  constructor
  · rintro ⟨answer, heq, hdec⟩
    rw [Option.some_inj, NormalParse.parsed.injEq] at heq
    rw [← hdec.items, ← heq]
  · intro hitems
    exact ⟨_, rfl, hitems, rfl, rfl, rfl, VolumeOvw.ovwGet_of_wrote hw hinit⟩

def dnWithTriplet (ip : DottedIp) (port : BitVec 32) (t : BitVec 64) : SentDnLoc :=
  ⟨ip, port, [t], Nat.le_of_ble_eq_true rfl⟩

def itemOnTwo (ip ip' : DottedIp) (stat : BitVec 16) : SentMdItem :=
  ⟨[71#64, 72#64], [dnWithTriplet ip 20100#32 2097152#64, dnWithTriplet ip' 20100#32 2097154#64], stat,
    Nat.le_of_ble_eq_true rfl, Nat.le_of_ble_eq_true rfl⟩

def fcOneToFive : FcPkt := ⟨1#32, 2#32, 3#32, 4#32, 5#32⟩

def itemsGrowing : List SentMdItem :=
  [itemOnTwo (.ofBytes 10 0 0 1) (.ofBytes 10 0 0 12) 0#16, itemOnTwo (.ofBytes 10 0 0 7) (.ofBytes 10 0 0 8) 1#16]

theorem itemsGrowing_size_lt : (mdRespBytes 9#64 itemsGrowing fcOneToFive).length + 8 < 2 ^ 16 := by decide +kernel

def respGrowing : SentMdResp := ⟨9#64, itemsGrowing, fcOneToFive, List.cons_ne_nil _ _, itemsGrowing_size_lt⟩

def allocAtFive : AcquireReq := ⟨.allocMDataAndGetOld, 5, 3, true⟩

theorem md_response_decoded_growing :
    ∃ answer, parseNamenodeResponse allocAtFive ⟨true, [0#8, 255#8]⟩ respGrowing.bytes respGrowing.size =
      some (.parsed answer) ∧ DecodedAsSent allocAtFive respGrowing ⟨true, [0#8, 255#8]⟩ answer :=
  (md_response_decoded_iff allocAtFive respGrowing ⟨true, [0#8, 255#8]⟩ fun _ => ⟨rfl, by decide⟩).mpr
    (forall_mem_cons.mpr ⟨⟨by decide, by decide, trivial⟩,
      forall_mem_singleton.mpr ⟨by decide, by decide, trivial⟩⟩)

def itemsShrinking : List SentMdItem := [itemOnTwo (.ofBytes 192 168 100 200) (.ofBytes 10 0 0 1) 0#16]

theorem itemsShrinking_size_lt : (mdRespBytes 9#64 itemsShrinking fcOneToFive).length + 8 < 2 ^ 16 := by decide +kernel

def respShrinking : SentMdResp := ⟨9#64, itemsShrinking, fcOneToFive, List.cons_ne_nil _ _, itemsShrinking_size_lt⟩

def readAtFive : AcquireReq := ⟨.queryMDataReadIo, 5, 2, false⟩

/-- Behind 10.0.0.1 the buffer still holds 100.200: the last value is read as 1100, which is 76 modulo 256.
-/
def answerShrinking : MdAnswer :=
  ⟨[⟨5, [71#64, 72#64], [⟨inetAddr 192 168 100 200, 20100#32, [2097152#64]⟩,
    ⟨inetAddr 10 0 0 76, 20100#32, [2097154#64]⟩], 0#16, false⟩], 0, fcOneToFive, ⟨true, []⟩, []⟩

theorem md_response_digits_left :
    parseNamenodeResponse readAtFive ⟨true, []⟩ respShrinking.bytes respShrinking.size =
      some (.parsed answerShrinking) ∧
    ¬ DecodedAsSent readAtFive respShrinking ⟨true, []⟩ answerShrinking := by
  refine ⟨by decide +kernel, fun h => ?_⟩
  exact absurd h.items (by decide +kernel)

end DiscoClient
