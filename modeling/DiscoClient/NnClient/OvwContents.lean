import DiscoClient.NnClient.OvwBitmap

namespace DiscoClient
open Bitmap Wire List

theorem rangesWrites_append (rs rs' : List OvwRange) (lb : Nat) :
    rangesWrites (rs ++ rs') lb = (rangesWrites rs' lb).or (rangesWrites rs lb) := by
  simp only [rangesWrites, set_or_set, mem_append, or_and_right, exists_or]

theorem rangesWrites_cons (r : OvwRange) (rs : List OvwRange) (lb : Nat) :
    rangesWrites (r :: rs) lb = (rangesWrites rs lb).or (runWrites r.startLB.toNat r.lbCnt.toNat true lb) := by
  have hone : rangesWrites [r] lb = runWrites r.startLB.toNat r.lbCnt.toNat true lb := by
    simp only [rangesWrites, runWrites, mem_singleton, exists_eq_left]
  rw [← hone, ← rangesWrites_append, singleton_append]

namespace OvwRange

@[simp] theorem length_bytes (r : OvwRange) : r.bytes.length = 16 := by
  rw [bytes, length_append, length_beBytes, length_beBytes]

theorem length_flatMap_bytes (rs : List OvwRange) : (rs.flatMap bytes).length = 16 * rs.length := by
  induction rs with
  | nil => rfl
  | cons r rs ih => rw [flatMap_cons, length_append, length_bytes, ih, length_cons]; omega

theorem beNat_startLB (r : OvwRange) (l : List (BitVec 8)) : beNat ((r.bytes ++ l).take 8) = r.startLB.toNat := by
  rw [bytes, append_assoc, take_left' (length_beBytes 8 _), beNat_beBytes_of_lt r.startLB.isLt]

theorem beNat_lbCnt (r : OvwRange) (l : List (BitVec 8)) : beNat (((r.bytes ++ l).drop 8).take 8) = r.lbCnt.toNat := by
  rw [bytes, append_assoc, drop_left' (length_beBytes 8 _), take_left' (length_beBytes 8 _),
    beNat_beBytes_of_lt r.lbCnt.isLt]

end OvwRange

theorem setOvwRanges_spec (rs : List OvwRange) (l mem : List (BitVec 8))
    (hin : ∀ r ∈ rs, r.startLB.toNat + r.lbCnt.toNat ≤ 8 * mem.length) :
    ∃ mem', setOvwRanges mem (rs.flatMap OvwRange.bytes ++ l) rs.length = some mem' ∧
      Wrote mem (rangesWrites rs) mem' := by
  induction rs generalizing mem with
  | nil => exact ⟨_, rfl, (Wrote.refl _).congr fun j => (if_neg (by simp)).symm⟩
  | cons r rs ih =>
    obtain ⟨mem', hlbs, hfirst⟩ := setOvwLbs_spec r.startLB.toNat r.lbCnt.toNat 0 mem (hin r mem_cons_self)
    obtain ⟨mem'', hrun, hrest⟩ := ih mem' fun r' hr' => hfirst.length_eq ▸ hin r' (mem_cons_of_mem _ hr')
    refine ⟨mem'', ?_, (hfirst.trans hrest).congr fun j => (rangesWrites_cons r rs j).symm⟩
    rw [length_cons, setOvwRanges, flatMap_cons, append_assoc, r.beNat_startLB,
      show nnOvwResponsePayloadUnitSize / 2 = 8 from rfl, r.beNat_lbCnt, hlbs,
      show nnOvwResponsePayloadUnitSize = 16 from rfl, Option.bind_some, drop_left' r.length_bytes]
    exact hrun

theorem recvOvwPieces_piece {req : OvwRx} (hreq : req.cancelled = false) {bytes : Int} (hbytes : 0 < bytes)
    {piece : List (BitVec 8)} (hlen : piece.length = ovwExpectedRecvSize bytes)
    (mem rx : List (BitVec 8)) :
    recvOvwPieces (some req) mem (piece ++ rx) bytes =
      (setOvwRanges mem piece (piece.length / 16)).bind fun mem => recvOvwPieces (some req) mem rx (bytes - 4096) := by
  have hsets : setsOvw (some req) = true := by rw [setsOvw, hreq]; rfl
  rw [recvOvwPieces, if_pos hbytes, ← hlen, readBytes_append]
  simp only [hsets, if_true]
  rfl

theorem recvOvwPieces_done (req : Option OvwRx) (mem rx : List (BitVec 8)) {bytes : Int} (hbytes : bytes ≤ 0) :
    recvOvwPieces req mem rx bytes = some ⟨mem, false, rx⟩ := by
  rw [recvOvwPieces, if_neg (by omega)]

theorem recvOvwPieces_spec {req : OvwRx} (hreq : req.cancelled = false) {tail : List (BitVec 8)} (htail : tail.length < 16)
    (rx : List (BitVec 8)) (rs : List OvwRange) (mem : List (BitVec 8))
    (hin : ∀ r ∈ rs, r.startLB.toNat + r.lbCnt.toNat ≤ 8 * mem.length) :
    ∃ mem', recvOvwPieces (some req) mem (ovwPayload rs tail ++ rx) (ovwPayload rs tail).length =
      some ⟨mem', false, rx⟩ ∧
      Wrote mem (rangesWrites rs) mem' := by
  induction hk : rs.length using Nat.strong_induction_on generalizing rs mem with
  | h k ih =>
  have hlength : (ovwPayload rs tail).length = 16 * rs.length + tail.length := by
    rw [ovwPayload, length_append, OvwRange.length_flatMap_bytes]
  by_cases hlong : 4096 < (ovwPayload rs tail).length
  -- a full buffer holds 256 ranges
  · have hsplit : ovwPayload rs tail = (rs.take 256).flatMap OvwRange.bytes ++ ovwPayload (rs.drop 256) tail := by
      rw [ovwPayload, ovwPayload, ← append_assoc, ← flatMap_append, take_append_drop]
    have htake : (rs.take 256).length = 256 := by rw [length_take]; omega
    have hpiece : ((rs.take 256).flatMap OvwRange.bytes).length = 4096 := by rw [OvwRange.length_flatMap_bytes, htake]
    obtain ⟨mem', hfirst, hw⟩ := setOvwRanges_spec (rs.take 256) [] mem fun r hr => hin r (mem_of_mem_take hr)
    obtain ⟨mem'', hrun, hw'⟩ := ih _ (by rw [length_drop]; omega) (rs.drop 256) mem'
      (fun r hr => hw.length_eq ▸ hin r (mem_of_mem_drop hr)) rfl
    refine ⟨mem'', ?_, (hw.trans hw').congr fun j => by rw [← rangesWrites_append, take_append_drop]⟩
    rw [append_nil, htake] at hfirst
    have hrest : ((ovwPayload rs tail).length : Int) - 4096 = (ovwPayload (rs.drop 256) tail).length := by
      rw [hsplit, length_append, hpiece]; omega
    have hfull : ovwExpectedRecvSize (ovwPayload rs tail).length = 4096 := if_pos (Int.ofNat_lt.mpr hlong)
    rw [← hrun, ← hrest, hsplit, append_assoc, ← hsplit,
      recvOvwPieces_piece hreq (by omega) (by rw [hpiece, hfull]), hpiece, hfirst]
    rfl
  · rcases Nat.eq_zero_or_pos (ovwPayload rs tail).length with hzero | hpos
    · have hnil : rs = [] := length_eq_zero_iff.mp (by omega)
      refine ⟨mem, ?_, (Wrote.refl mem).congr fun j => (if_neg (by simp [hnil])).symm⟩
      rw [length_eq_zero_iff.mp hzero]
      exact recvOvwPieces_done _ _ _ le_rfl
    -- the last piece
    · obtain ⟨mem', hlast, hw⟩ := setOvwRanges_spec rs tail mem hin
      refine ⟨mem', ?_, hw⟩
      have hlastLen : (ovwPayload rs tail).length = ovwExpectedRecvSize (ovwPayload rs tail).length :=
        (if_neg fun h => hlong (Int.ofNat_lt.mp h)).symm
      rw [recvOvwPieces_piece hreq (by omega) hlastLen,
        show (ovwPayload rs tail).length / 16 = rs.length by omega, ovwPayload, hlast]
      exact recvOvwPieces_done _ _ _ (by rw [ovwPayload] at hlong; omega)

theorem toS64_of_lt {x : Int} (h0 : 0 ≤ x) (h : x < 2 ^ 63) : toS64 x = x := by
  rw [toS64]; omega

namespace OvwOp

theorem lastWrite_cons (op : OvwOp) (ops : List OvwOp) (lb : Nat) :
    lastWrite (op :: ops) lb = (lastWrite ops lb).or (op.writes lb) := by
  rw [lastWrite, reverse_cons, List.findSome?_append, List.findSome?_singleton, lastWrite]

theorem apply_spec (op : OvwOp) (vol : VolumeOvw) (hinit : vol.ovwInit = true)
    (hin : op.Inside (8 * vol.ovwMemory.length)) (hcounted : op.Counted) :
    ∃ mem, op.apply vol = some { vol with ovwMemory := mem } ∧ Wrote vol.ovwMemory (op.writes ·) mem := by
  cases op with
  | range lbidS lbidLen val => exact vol.setVolOvwRange_spec val lbidLen lbidS hinit hin
  | response req ranges tail =>
    obtain ⟨hreq, htail, -, hranges⟩ := hin
    have hlen : (ovwPayload ranges tail).length < 2 ^ 63 := hcounted
    obtain ⟨mem, hrecv, hw⟩ := recvOvwPieces_spec hreq htail [] ranges vol.ovwMemory hranges
    refine ⟨mem, ?_, hw⟩
    rw [append_nil] at hrecv
    rw [apply, nnOvwResponse, toS64_of_lt (by omega) (by omega), hrecv, Option.bind_some, if_pos ⟨rfl, rfl⟩]

theorem applyAll_spec (ops : List OvwOp) (vol : VolumeOvw) (hinit : vol.ovwInit = true)
    (hin : ∀ op ∈ ops, op.Inside (8 * vol.ovwMemory.length)) (hcounted : ∀ op ∈ ops, op.Counted) :
    ∃ mem, applyAll vol ops = some { vol with ovwMemory := mem } ∧ Wrote vol.ovwMemory (lastWrite ops) mem := by
  induction ops generalizing vol with
  | nil => exact ⟨_, rfl, Wrote.refl _⟩
  | cons op ops ih =>
    obtain ⟨mem, happly, hfirst⟩ := op.apply_spec vol hinit (hin op mem_cons_self) (hcounted op mem_cons_self)
    have hin' : ∀ op' ∈ ops, op'.Inside (8 * mem.length) := fun op' hop' =>
      hfirst.length_eq ▸ hin op' (mem_cons_of_mem _ hop')
    obtain ⟨mem', hrun, hrest⟩ := ih { vol with ovwMemory := mem } hinit hin' fun op' hop' =>
      hcounted op' (mem_cons_of_mem _ hop')
    refine ⟨mem', ?_, (hfirst.trans hrest).congr fun j => (lastWrite_cons op ops j).symm⟩
    rw [applyAll, happly]
    exact hrun

/-- A length of 2^63 and more is negative as an int64_t: the handler takes nothing of the payload. -/
theorem nnOvwResponse_uncounted (req : Option OvwRx) (mem rx : List (BitVec 8)) {len : Nat} (h : 2 ^ 63 ≤ len)
    (h' : len < 2 ^ 64) : nnOvwResponse req mem rx len = some ⟨mem, false, rx⟩ :=
  recvOvwPieces_done req mem rx (by rw [toS64]; omega)

theorem counted_of_apply {op : OvwOp} {vol vol' : VolumeOvw} {lbs : Nat} (hin : op.Inside lbs)
    (h : op.apply vol = some vol') : op.Counted := by
  cases op with
  | range lbidS lbidLen val => trivial
  | response req ranges tail =>
    by_contra hlong
    have hlong : 2 ^ 63 ≤ (ovwPayload ranges tail).length := Nat.le_of_not_lt hlong
    have hleft : ovwPayload ranges tail ≠ [] := fun hnil => by rw [hnil] at hlong; simp at hlong
    rw [apply, nnOvwResponse_uncounted _ _ _ hlong hin.2.2.1, Option.bind_some, if_neg fun h => hleft h.2] at h
    cases h

theorem counted_of_applyAll {ops : List OvwOp} {vol vol' : VolumeOvw} {lbs : Nat} (hin : ∀ op ∈ ops, op.Inside lbs)
    (h : applyAll vol ops = some vol') : ∀ op ∈ ops, op.Counted := by
  induction ops generalizing vol with
  | nil => exact fun op hop => nomatch hop
  | cons op ops ih =>
    obtain ⟨vol₁, happly, hrest⟩ := Option.bind_eq_some_iff.mp h
    exact forall_mem_cons.mpr
      ⟨counted_of_apply (hin op mem_cons_self) happly,
        ih (fun op' hop' => hin op' (mem_cons_of_mem _ hop')) hrest⟩

end OvwOp

/-- Every operation is carried out in full and an LB has the value of the last one that covers it, or its
first value, exactly when no response has a length that is negative as an int64_t. -/
theorem ovw_last_write_iff (vol : VolumeOvw) (hinit : vol.ovwInit = true) (ops : List OvwOp)
    (hin : ∀ op ∈ ops, op.Inside (8 * vol.ovwMemory.length)) :
    (∃ vol', OvwOp.applyAll vol ops = some vol' ∧
      ∀ lb, vol'.ovwGet lb = (OvwOp.lastWrite ops lb).getD (vol.ovwGet lb)) ↔
    ∀ op ∈ ops, op.Counted := by
  constructor
  · rintro ⟨vol', hrun, -⟩
    exact OvwOp.counted_of_applyAll hin hrun
  · intro hcounted
    obtain ⟨mem, hrun, hw⟩ := OvwOp.applyAll_spec ops vol hinit hin hcounted
    refine ⟨_, hrun, fun lb => ?_⟩
    have hinit' : ({ vol with ovwMemory := mem } : VolumeOvw).ovwInit = true := hinit
    rw [VolumeOvw.ovwGet_eq hinit, VolumeOvw.ovwGet_eq hinit']
    exact hw.bit_eq lb

def ovwTwoBytes : List OvwOp :=
  [.range 6 4 true, .range 7 2 false, .response ⟨0, false⟩ [⟨8#64, 1#64⟩, ⟨12#64, 3#64⟩] [0#8]]

theorem ovwTwoBytes_inside : ∀ op ∈ ovwTwoBytes, op.Inside (8 * 2) := by
  intro op hop
  simp only [ovwTwoBytes, mem_cons, not_mem_nil, or_false] at hop
  obtain rfl | rfl | rfl := hop <;> simp only [OvwOp.Inside] <;> decide

theorem ovwTwoBytes_counted : ∀ op ∈ ovwTwoBytes, op.Counted := by
  intro op hop
  simp only [ovwTwoBytes, mem_cons, not_mem_nil, or_false] at hop
  obtain rfl | rfl | rfl := hop
  · trivial
  · trivial
  · rw [OvwOp.Counted]
    decide

theorem ovw_last_write_two_bytes :
    ∃ vol', OvwOp.applyAll ⟨true, [0#8, 0#8]⟩ ovwTwoBytes = some vol' ∧
      (List.range 16).map vol'.ovwGet =
        [false, false, false, false, false, false, true, false, true, true, false, false, true, true, true, false] := by
  obtain ⟨vol', hrun, hget⟩ :=
    (ovw_last_write_iff ⟨true, [0#8, 0#8]⟩ rfl ovwTwoBytes ovwTwoBytes_inside).mpr ovwTwoBytes_counted
  refine ⟨vol', hrun, ?_⟩
  rw [map_congr_left fun lb _ => hget lb]
  decide

def ovwLongResponse : List OvwRange := List.replicate (2 ^ 59) ⟨0#64, 1#64⟩

theorem length_ovwLongResponse : (ovwPayload ovwLongResponse []).length = 2 ^ 63 := by
  rw [ovwPayload, append_nil, OvwRange.length_flatMap_bytes, ovwLongResponse, length_replicate]
  rfl

theorem ovwLongResponse_inside : (OvwOp.response ⟨0, false⟩ ovwLongResponse []).Inside (8 * 1) := by
  have hmem : ∀ r ∈ ovwLongResponse, r = ⟨0#64, 1#64⟩ := fun r hr => eq_of_mem_replicate hr
  exact ⟨rfl, by decide, by rw [length_ovwLongResponse]; decide, fun r hr => by rw [hmem r hr]; decide⟩

/-- The handler takes no byte of that response, and the bit of LB 0 stays clear. -/
theorem ovw_long_response_lost :
    (OvwOp.response ⟨0, false⟩ ovwLongResponse []).Inside (8 * 1) ∧
    (¬ ∃ vol', OvwOp.applyAll ⟨true, [0#8]⟩ [.response ⟨0, false⟩ ovwLongResponse []] = some vol') ∧
    OvwOp.lastWrite [.response ⟨0, false⟩ ovwLongResponse []] 0 = some true ∧
    nnOvwResponse (some ⟨0, false⟩) [0#8] (ovwPayload ovwLongResponse []) (ovwPayload ovwLongResponse []).length =
      some ⟨[0#8], false, ovwPayload ovwLongResponse []⟩ ∧
    (VolumeOvw.mk true [0#8]).ovwGet 0 = false := by
  have hfirst : (⟨0#64, 1#64⟩ : OvwRange) ∈ ovwLongResponse := mem_replicate.mpr ⟨by decide, rfl⟩
  refine ⟨ovwLongResponse_inside, ?_, ?_, ?_, rfl⟩
  · rintro ⟨vol', hrun⟩
    have hcounted := OvwOp.counted_of_applyAll (forall_mem_singleton.mpr ovwLongResponse_inside) hrun
    have hlt : (ovwPayload ovwLongResponse []).length < 2 ^ 63 := hcounted _ mem_cons_self
    rw [length_ovwLongResponse] at hlt
    exact lt_irrefl _ hlt
  · have hcover : rangesWrites ovwLongResponse 0 = some true := if_pos ⟨_, hfirst, by decide⟩
    rw [OvwOp.lastWrite_cons, OvwOp.writes, hcover]
    rfl
  · exact OvwOp.nnOvwResponse_uncounted _ _ _ (by rw [length_ovwLongResponse]) (by rw [length_ovwLongResponse]; decide)

end DiscoClient
