import DiscoClient.NnSimulator.MdRespGen

namespace DiscoClient
open Wire List

def stackOf (x : BitVec 48) : Nat → Nat → Nat → BitVec 48 := fun _ _ _ => x

theorem copiedRlos_inj {n : Nat} (h : copiedRlos (fun _ => 0#48) n = copiedRlos (fun _ => 1#48) n) : n = 0 := by
  by_contra hn
  obtain ⟨k, rfl⟩ := Nat.exists_eq_succ_of_ne_zero hn
  have hfirst := congrArg (·[0]?) h
  simp only [copiedRlos, List.getElem?_map, List.getElem?_range (Nat.succ_pos k), Option.map_some, Option.some_inj,
    copiedRlo] at hfirst
  have hval := congrArg BitVec.toNat hfirst
  simp only [BitVec.toNat_ofNat] at hval
  omega

theorem rlo_nil_of_parsedDnLocs {locs : List SentDnLoc} (earlier : List (List (BitVec 8))) (j : Nat)
    (h : parsedDnLocs earlier (copiedDnLocs (fun _ _ => 0#48) j locs) =
      parsedDnLocs earlier (copiedDnLocs (fun _ _ => 1#48) j locs)) : ∀ l ∈ locs, l.rlo = [] := by
  induction locs generalizing earlier j with
  | nil => exact forall_mem_nil _
  | cons l ls ih =>
    obtain ⟨hhead, htail⟩ := cons_eq_cons.mp h
    refine forall_mem_cons.mpr ⟨length_eq_zero_iff.mp (copiedRlos_inj ?_), ih _ _ htail⟩
    exact congrArg NnDnLoc.rbidLenOffset hhead

theorem rlo_nil_of_mdItemsFrom {req : AcquireReq} {items : List SentMdItem} (i startLB : Nat)
    (h : mdItemsFrom req SentMdItem.parsed i startLB (copiedItems (stackOf 0#48) i items) =
      mdItemsFrom req SentMdItem.parsed i startLB (copiedItems (stackOf 1#48) i items)) :
    ∀ s ∈ items, ∀ l ∈ s.dnLocs, l.rlo = [] := by
  induction items generalizing i startLB with
  | nil => exact forall_mem_nil _
  | cons s ss ih =>
    obtain ⟨hhead, htail⟩ := cons_eq_cons.mp h
    exact forall_mem_cons.mpr ⟨rlo_nil_of_parsedDnLocs [] 0 (congrArg NnMdItem.udataDnLoc hhead), ih _ _ htail⟩

theorem copiedDnLocs_of_nil (stack : Nat → Nat → BitVec 48) {locs : List SentDnLoc} (h : ∀ l ∈ locs, l.rlo = [])
    (j : Nat) : copiedDnLocs stack j locs = locs := by
  induction locs generalizing j with
  | nil => rfl
  | cons l ls ih =>
    obtain ⟨hl, hls⟩ := forall_mem_cons.mp h
    have hcopied : l.copied (stack j) = l := by
      obtain ⟨ip, port, rlo, hrlo⟩ := l
      obtain rfl : rlo = [] := hl
      rfl
    rw [copiedDnLocs, hcopied, ih hls]

theorem copiedItems_of_nil (stack : Nat → Nat → Nat → BitVec 48) {items : List SentMdItem}
    (h : ∀ s ∈ items, ∀ l ∈ s.dnLocs, l.rlo = []) (i : Nat) : copiedItems stack i items = items := by
  induction items generalizing i with
  | nil => rfl
  | cons s ss ih =>
    obtain ⟨hs, hss⟩ := forall_mem_cons.mp h
    have hcopied : s.copied (stack i) = s := by
      obtain ⟨hbids, dnLocs, stat, hhbids, hdnLocs⟩ := s
      simp only [SentMdItem.copied, copiedDnLocs_of_nil _ hs]
    rw [copiedItems, hcopied, ih hss]

/-- Whatever is on the stack, the client reads the data nodes, ports, HBIDs and triplets of the simulator's items and
all of its bytes, exactly when no data node has a triplet and no address takes up digits of an earlier one. -/
theorem simulator_decoded_iff (req : AcquireReq) (r : SentMdResp) (ovw : VolumeOvw)
    (hovw : req.checkAlloc = true → ovw.ovwInit = true ∧ req.lbidStart + lbsOf r.items ≤ 8 * ovw.ovwMemory.length) :
    (∀ stack, ∃ answer, parseNamenodeResponse req ovw (genMDReqMetadata stack r.items r.fc)
        (BitVec.ofNat 16 ((genMDReqMetadata stack r.items r.fc).length + 8)) = some (.parsed answer) ∧
      answer.arrayMetadata = mdItemsFrom req SentMdItem.item 0 req.lbidStart r.items ∧ answer.curptr = []) ↔
    (∀ s ∈ r.items, ∀ l ∈ s.dnLocs, l.rlo = []) ∧ ∀ s ∈ r.items, IpsKept [] s.dnLocs := by
  constructor
  · intro h
    have hitems (stack : Nat → Nat → Nat → BitVec 48) :
        mdItemsFrom req SentMdItem.parsed 0 req.lbidStart (copiedItems stack 0 r.items) =
          mdItemsFrom req SentMdItem.item 0 req.lbidStart r.items := by
      obtain ⟨answer, hparse, hsent, -⟩ := h stack
      obtain ⟨answer', hparse', hitems', -⟩ := parseNamenodeResponse_simulated r ovw hovw stack
      obtain rfl : answer = answer' := by
        rw [hparse, Option.some_inj, NormalParse.parsed.injEq] at hparse'
        exact hparse'
      rw [← hitems', hsent]
    have hnil := rlo_nil_of_mdItemsFrom 0 req.lbidStart ((hitems (stackOf 0#48)).trans (hitems (stackOf 1#48)).symm)
    refine ⟨hnil, (mdItemsFrom_eq_iff req r.items 0 req.lbidStart).mp ?_⟩
    rw [← hitems (stackOf 0#48), copiedItems_of_nil _ hnil]
  · rintro ⟨hnil, hips⟩ stack
    obtain ⟨answer, hparse, hitems, hcur⟩ := parseNamenodeResponse_simulated r ovw hovw stack
    refine ⟨answer, hparse, ?_, hcur⟩
    rw [hitems, copiedItems_of_nil stack hnil]
    exact (mdItemsFrom_eq_iff req r.items 0 req.lbidStart).mpr hips

def itemWithoutTriplets : SentMdItem :=
  ⟨[71#64], [⟨.ofBytes 10 0 0 1, 20100#32, [], Nat.zero_le _⟩, ⟨.ofBytes 10 0 0 12, 20101#32, [], Nat.zero_le _⟩],
    0#16, Nat.le_of_ble_eq_true rfl, Nat.le_of_ble_eq_true rfl⟩

theorem itemWithoutTriplets_size_lt : (mdRespBytes 0#64 [itemWithoutTriplets] fcOneToFive).length + 8 < 2 ^ 16 := by
  decide +kernel

def respWithoutTriplets : SentMdResp :=
  ⟨0#64, [itemWithoutTriplets], fcOneToFive, List.cons_ne_nil _ _, itemWithoutTriplets_size_lt⟩

theorem simulator_decoded_without_triplets :
    ∃ answer, parseNamenodeResponse readAtFive ⟨true, []⟩
        (genMDReqMetadata (stackOf 7#48) respWithoutTriplets.items respWithoutTriplets.fc)
        (BitVec.ofNat 16 ((genMDReqMetadata (stackOf 7#48) respWithoutTriplets.items respWithoutTriplets.fc).length + 8)) =
          some (.parsed answer) ∧
      answer.arrayMetadata = mdItemsFrom readAtFive SentMdItem.item 0 readAtFive.lbidStart respWithoutTriplets.items ∧
      answer.curptr = [] :=
  (simulator_decoded_iff readAtFive respWithoutTriplets ⟨true, []⟩ (by decide)).mpr
    ⟨forall_mem_singleton.mpr (forall_mem_cons.mpr ⟨rfl, forall_mem_singleton.mpr rfl⟩),
      forall_mem_singleton.mpr ⟨by decide, by decide, trivial⟩⟩ (stackOf 7#48)

theorem itemOnOne_hbids_le : [71#64, 72#64].length ≤ maxLbsPerIor := by decide

/-- An item of two LBs on one data node, with the triplet of the simulator: RBID 0, two LBs, offset 0. -/
def itemOnOne : SentMdItem :=
  ⟨[71#64, 72#64], [dnWithTriplet (.ofBytes 10 0 0 1) 20100#32 2097152#64], 0#16, itemOnOne_hbids_le,
    Nat.le_of_ble_eq_true rfl⟩

/-- What the client parses: the triplet is num_rlo and what was on the stack, here zeros. -/
def answerCopied : MdAnswer :=
  ⟨[⟨5, [71#64, 72#64], [⟨inetAddr 10 0 0 1, 20100#32, [281474976710656#64]⟩], 0#16, false⟩], 0, fcOneToFive,
    ⟨true, []⟩, []⟩

theorem simulator_triplet_lost :
    parseNamenodeResponse readAtFive ⟨true, []⟩ (genMDReqMetadata (stackOf 0#48) [itemOnOne] fcOneToFive)
      (BitVec.ofNat 16 ((genMDReqMetadata (stackOf 0#48) [itemOnOne] fcOneToFive).length + 8)) =
        some (.parsed answerCopied) ∧
    answerCopied.arrayMetadata ≠ mdItemsFrom readAtFive SentMdItem.item 0 5 [itemOnOne] := by
  constructor <;> decide +kernel

end DiscoClient
