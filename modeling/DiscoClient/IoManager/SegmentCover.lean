import DiscoClient.IoManager.SegmentTiling

namespace DiscoClient
open List SplitPiece

structure SplitsExactly (r : SplitIoReq) (segs : List IoSegReq) : Prop where
  tiles : Tiles IoSegReq.lbidStart IoSegReq.lbidLen r.usrIoAddr.lbidStart segs
    (r.usrIoAddr.lbidStart + r.usrIoAddr.lbidLen)
  same_ovw : ∀ g ∈ segs, ∀ lb, g.lbidStart ≤ lb → lb < g.lbidStart + g.lbidLen →
    g.ovwStat = if r.iodir = .write then r.drive.ovwGet lb else true
  same_align : ∀ g ∈ segs, ∀ lb, g.lbidStart ≤ lb → lb < g.lbidStart + g.lbidLen →
    g.is4KAlign = decide (r.maskLbAlign (lb - r.usrIoAddr.lbidStart) = 0xff)
  unaligned_single : ∀ g ∈ segs, r.iodir = .write → g.is4KAlign = false → g.lbidLen = 1
  first_write_limit : ∀ g ∈ segs, r.iodir = .write → g.is4KAlign = true → g.ovwStat = false →
    g.lbidLen ≤ 32
  payload : ∀ g ∈ segs, g.payloadOffset = 4096 * (g.lbidStart - r.usrIoAddr.lbidStart)
  mask : ∀ g ∈ segs, g.lbSectMask = g.lbidStart - r.usrIoAddr.lbidStart
  sum_user : (segs.map IoSegReq.lbidLen).sum = r.ciUserRemainLB
  sum_mds : (segs.map IoSegReq.lbidLen).sum = r.ciMdsRemainLB

private theorem lbOvwState_eq (r : SplitIoReq) (i : Nat) :
    lbOvwState r i =
      if (if r.iodir = .write then r.drive.ovwGet (r.usrIoAddr.lbidStart + i) else true) then
        if r.maskLbAlign i = 0xff then .ovw4KAlign else .ovwNon4KAlign
      else if r.maskLbAlign i = 0xff then .fw4KAlign else .fwNon4KAlign := by
  simp only [lbOvwState]
  generalize (if r.iodir = .write then r.drive.ovwGet (r.usrIoAddr.lbidStart + i) else true) = o
  by_cases hm : r.maskLbAlign i = 0xff <;> cases o <;> simp [hm]

private theorem lbOvwState_ovw (r : SplitIoReq) (i : Nat) :
    decide (lbOvwState r i = .ovw4KAlign ∨ lbOvwState r i = .ovwNon4KAlign) =
      if r.iodir = .write then r.drive.ovwGet (r.usrIoAddr.lbidStart + i) else true := by
  rw [lbOvwState_eq]
  generalize (if r.iodir = .write then r.drive.ovwGet (r.usrIoAddr.lbidStart + i) else true) = o
  by_cases hm : r.maskLbAlign i = 0xff <;> cases o <;> simp [hm]

private theorem lbOvwState_align (r : SplitIoReq) (i : Nat) :
    decide (lbOvwState r i = .ovw4KAlign ∨ lbOvwState r i = .fw4KAlign) =
      decide (r.maskLbAlign i = 0xff) := by
  rw [lbOvwState_eq]
  generalize (if r.iodir = .write then r.drive.ovwGet (r.usrIoAddr.lbidStart + i) else true) = o
  by_cases hm : r.maskLbAlign i = 0xff <;> cases o <;> simp [hm]

private theorem asksCache_cases {r : SplitIoReq} {i : Nat} (h : asksCache r (lbOvwState r i) = true) :
    lbOvwState r i = .ovw4KAlign ∨ lbOvwState r i = .ovwNon4KAlign := by
  revert h
  rw [lbOvwState_eq]
  split_ifs <;> simp [asksCache]

private theorem grouping_drop (r : SplitIoReq) (i : Nat) (hi : i ≤ r.usrIoAddr.lbidLen) :
    (ioReqGetLbOvwState r).drop i =
      (List.range' i (r.usrIoAddr.lbidLen - i)).map (lbOvwState r) ++ [.endMark] := by
  rw [ioReqGetLbOvwState, drop_append_of_le_length (by simpa using hi), ← map_drop,
    range_eq_range', drop_range', Nat.mul_one, Nat.zero_add]

/-- The group that find_cont_len cuts off at index i. -/
private theorem findContLen_spec (r : SplitIoReq) (i : Nat) (hi : i < r.usrIoAddr.lbidLen) :
    ((ioReqGetLbOvwState r).drop i).headD .init = lbOvwState r i ∧
    ∃ d, i + (d + 1) ≤ r.usrIoAddr.lbidLen ∧
      findContLen ((ioReqGetLbOvwState r).drop i) (r.usrIoAddr.lbidLen - i) r.iodir = d + 1 ∧
      (∀ j, j < d + 1 → lbOvwState r (i + j) = lbOvwState r i) ∧
      (lbOvwState r i = .ovwNon4KAlign ∨ lbOvwState r i = .fwNon4KAlign → d + 1 = 1) ∧
      (r.iodir = .write → lbOvwState r i = .fw4KAlign → d + 1 ≤ maxLbsPerAllocMdReq) ∧
      (i + (d + 1) = r.usrIoAddr.lbidLen ∨ lbOvwState r (i + (d + 1)) ≠ lbOvwState r i ∨
        lbOvwState r i ≠ .ovw4KAlign) := by
  obtain ⟨n, hn⟩ : ∃ n, r.usrIoAddr.lbidLen - i = n + 1 := ⟨r.usrIoAddr.lbidLen - i - 1, by omega⟩
  have hg := grouping_drop r i (by omega)
  rw [hn, range'_succ, map_cons, cons_append] at hg
  obtain ⟨d, hd, hl, hrun, hsing, hlim, hend⟩ :=
    findContLenLoop_spec (lbOvwState r) (lbOvwState r i) r.iodir n (i + 1) 1
  refine ⟨by rw [hg]; rfl, d, by omega, ?_, ?_, ?_, ?_, ?_⟩
  · rw [findContLen, hg, hn, headD_cons, tail_cons, Nat.add_sub_cancel,
      take_append_of_le_length (by simp), take_of_length_le (by simp), hl]
    omega
  · exact run_succ rfl hrun
  · intro h
    have := hsing h
    omega
  · intro hw h4
    have := hlim hw h4 (by decide)
    omega
  · rw [show i + (d + 1) = i + 1 + d by omega]
    rcases hend with hend | hend
    · exact Or.inl (by omega)
    · exact Or.inr hend

private theorem genOvwLoop_spec (r : SplitIoReq) (hmax : r.usrIoAddr.lbidLen ≤ 33) (fuel i : Nat)
    (segs : List IoSegReq) (hi : i < r.usrIoAddr.lbidLen) (hfuel : r.usrIoAddr.lbidLen - i ≤ fuel)
    (hstart : asksCache r (lbOvwState r i) = true →
      i = 0 ∨ lbOvwState r (i - 1) ≠ lbOvwState r i ∨ lbOvwState r i = .ovwNon4KAlign) :
    ∃ ps : List SplitPiece,
      genOvwLoop r (ioReqGetLbOvwState r) fuel i (i <<< bitLenDmsLbSize) i segs =
        some (segs ++ ps.map (SplitPiece.toSeg r)) ∧
      Tiles SplitPiece.idx SplitPiece.len i ps r.usrIoAddr.lbidLen ∧ ∀ p ∈ ps, p.Ok r := by
  induction fuel generalizing i segs with
  | zero => omega
  | succ fuel ih =>
    obtain ⟨hhead, d, hle, hlen, hrun, hsing, hlim, hend⟩ := findContLen_spec r i hi
    obtain ⟨qs, hq, htq, hokq⟩ :=
      ioReqGenIoSReqMdcacheState_spec r i (d + 1) (by omega) hrun hsing hlim hstart
    have hret : (ioReqGenIoSReqMdcacheState r (r.usrIoAddr.lbidStart + i) (d + 1) (lbOvwState r i)
        (i <<< bitLenDmsLbSize) i).2 = (d + 1) <<< bitLenDmsLbSize := by
      simp only [ioReqGenIoSReqMdcacheState, Nat.shiftLeft_eq, bitLenDmsLbSize]
      omega
    have hpos : ¬ ((d + 1) <<< bitLenDmsLbSize = 0) := by
      simp [Nat.shiftLeft_eq]
    have hoff : i <<< bitLenDmsLbSize + (d + 1) <<< bitLenDmsLbSize =
        (i + (d + 1)) <<< bitLenDmsLbSize := by
      simp only [Nat.shiftLeft_eq, Nat.add_mul]
    simp only [genOvwLoop, hhead, hlen, hq, hret, if_neg hpos, hoff]
    by_cases hmore : i + (d + 1) < r.usrIoAddr.lbidLen
    · have hnext : asksCache r (lbOvwState r (i + (d + 1))) = true →
          i + (d + 1) = 0 ∨ lbOvwState r (i + (d + 1) - 1) ≠ lbOvwState r (i + (d + 1)) ∨
            lbOvwState r (i + (d + 1)) = .ovwNon4KAlign := by
        intro hask
        have hprev : lbOvwState r (i + (d + 1) - 1) = lbOvwState r i := by
          rw [show i + (d + 1) - 1 = i + d by omega]
          exact hrun d (by omega)
        rw [hprev]
        by_cases hsame : lbOvwState r (i + (d + 1)) = lbOvwState r i
        · refine Or.inr (Or.inr ((asksCache_cases hask).resolve_left ?_))
          rw [hsame]
          exact (hend.resolve_left (by omega)).resolve_left (not_not.mpr hsame)
        · exact Or.inr (Or.inl (Ne.symm hsame))
      obtain ⟨ps, hps, ht, hok⟩ := ih (i + (d + 1)) (segs ++ qs.map (toSeg r)) hmore
        (by omega) hnext
      refine ⟨qs ++ ps, ?_, htq.append ht, fun p hp => ?_⟩
      · rw [if_pos hmore, hps, map_append, append_assoc]
      · rcases mem_append.mp hp with hp | hp
        · exact hokq p hp
        · exact hok p hp
    · rw [if_neg hmore]
      refine ⟨qs, rfl, ?_, hokq⟩
      rwa [show i + (d + 1) = r.usrIoAddr.lbidLen by omega] at htq

theorem storedLb_eq_iff {lb : Nat} (h : lb < 2^62) : storedLb lb = lb ↔ lb < 2^31 := by
  have hmod : lb % 2^32 < 2^32 := Nat.mod_lt _ (by decide)
  rw [storedLb, BitVec.toNat_signExtend, BitVec.toNat_setWidth, BitVec.toNat_ofNat,
    BitVec.msb_eq_decide, BitVec.toNat_ofNat, Nat.mod_eq_of_lt (show lb % 2^32 < 2^64 by omega)]
  by_cases hm : 2^(32 - 1) ≤ lb % 2^32
  · simp only [hm, decide_true, if_true]
    omega
  · simp only [hm, decide_false, Bool.false_eq_true, if_false]
    omega

/-- A request of up to 256 sectors covers between 1 and 33 LBs, from any 64-bit sector on. -/
theorem ioReqInitRequest_len (drv : SplitVolume) (dir : IoDir) (mask : Nat → Nat) (sectS sectLen : Nat)
    (h1 : 1 ≤ sectLen) (h2 : sectLen ≤ maxSectsPerRq) :
    0 < (ioReqInitRequest drv dir mask sectS sectLen).usrIoAddr.lbidLen ∧
    (ioReqInitRequest drv dir mask sectS sectLen).usrIoAddr.lbidLen ≤ 33 ∧
    (ioReqInitRequest drv dir mask sectS sectLen).usrIoAddr.lbidStart < 2^61 := by
  have hk : (sectS + drv.sectsShift) % 2^64 < 2^64 := Nat.mod_lt _ (by decide)
  rw [maxSectsPerRq] at h2
  simp only [ioReqInitRequest, bitLenDmsLbSects, Nat.shiftRight_eq_div_pow]
  omega

theorem ioReqInitRequest_wellFormed (drv : SplitVolume) (dir : IoDir) (mask : Nat → Nat) (sectS sectLen : Nat)
    (h1 : 1 ≤ sectLen) (h2 : sectLen ≤ maxSectsPerRq) :
    (ioReqInitRequest drv dir mask sectS sectLen).usrIoAddr.WellFormed := by
  obtain ⟨hpos, hmax, hlow⟩ := ioReqInitRequest_len drv dir mask sectS sectLen h1 h2
  exact ⟨hpos, by omega⟩

private theorem split_pieces (drv : SplitVolume) (dir : IoDir) (mask : Nat → Nat) (sectS sectLen : Nat)
    (h1 : 1 ≤ sectLen) (h2 : sectLen ≤ maxSectsPerRq) :
    let r := ioReqInitRequest drv dir mask sectS sectLen
    ∃ ps : List SplitPiece, ioReqGenIoSReqOvw r = some (ps.map (toSeg r)) ∧
      Tiles idx len 0 ps r.usrIoAddr.lbidLen ∧ ∀ p ∈ ps, p.Ok r := by
  intro r
  obtain ⟨hpos, hmax, -⟩ := ioReqInitRequest_len drv dir mask sectS sectLen h1 h2
  have h := genOvwLoop_spec r hmax r.usrIoAddr.lbidLen 0 [] hpos (by omega) (fun _ => Or.inl rfl)
  simpa [ioReqGenIoSReqOvw] using h

private theorem splitsExactly_of_starts {r : SplitIoReq} {ps : List SplitPiece}
    (huser : r.ciUserRemainLB = r.usrIoAddr.lbidLen) (hmds : r.ciMdsRemainLB = r.usrIoAddr.lbidLen)
    (ht : Tiles SplitPiece.idx SplitPiece.len 0 ps r.usrIoAddr.lbidLen) (hok : ∀ p ∈ ps, p.Ok r)
    (hstart : ∀ p ∈ ps, (p.toSeg r).lbidStart = r.usrIoAddr.lbidStart + p.idx) :
    SplitsExactly r (ps.map (SplitPiece.toSeg r)) := by
  have htiles : Tiles IoSegReq.lbidStart IoSegReq.lbidLen (r.usrIoAddr.lbidStart + 0)
      (ps.map (toSeg r)) (r.usrIoAddr.lbidStart + r.usrIoAddr.lbidLen) :=
    ht.map_shift (toSeg r) r.usrIoAddr.lbidStart hstart (fun _ _ => rfl)
  have hsum := htiles.sum_len
  have hfea {p : SplitPiece} (hp : p ∈ ps) {lb : Nat} (hlo : (p.toSeg r).lbidStart ≤ lb)
      (hhi : lb < (p.toSeg r).lbidStart + (p.toSeg r).lbidLen) :
      lbOvwState r (lb - r.usrIoAddr.lbidStart) = p.fea ∧
        r.usrIoAddr.lbidStart + (lb - r.usrIoAddr.lbidStart) = lb := by
    rw [hstart p hp] at hlo hhi
    have hhi' : lb < r.usrIoAddr.lbidStart + p.idx + p.len := hhi
    have := (hok p hp).same_state (lb - r.usrIoAddr.lbidStart - p.idx) (by omega)
    rw [show p.idx + (lb - r.usrIoAddr.lbidStart - p.idx) = lb - r.usrIoAddr.lbidStart by omega] at this
    exact ⟨this, by omega⟩
  rw [Nat.add_zero] at htiles
  refine ⟨htiles, ?_, ?_, ?_, ?_, ?_, ?_, by omega, by omega⟩ <;>
    simp only [forall_mem_map]
  · intro p hp lb hlo hhi
    obtain ⟨hf, hlb⟩ := hfea hp hlo hhi
    have := lbOvwState_ovw r (lb - r.usrIoAddr.lbidStart)
    rwa [hf, hlb] at this
  · intro p hp lb hlo hhi
    obtain ⟨hf, -⟩ := hfea hp hlo hhi
    have := lbOvwState_align r (lb - r.usrIoAddr.lbidStart)
    rwa [hf] at this
  · intro p hp _ hal
    have h0 := (hok p hp).same_state 0 (ht.bounds hp).2.1
    refine (hok p hp).single ?_
    have hal' : ¬ (p.fea = .ovw4KAlign ∨ p.fea = .fw4KAlign) := by simpa [toSeg] using hal
    rw [← h0, lbOvwState_eq] at hal' ⊢
    split_ifs at hal' ⊢ <;> simp_all
  · intro p hp hw hal hov
    have hal' : p.fea = .ovw4KAlign ∨ p.fea = .fw4KAlign := by simpa [toSeg] using hal
    have hov' : ¬ (p.fea = .ovw4KAlign ∨ p.fea = .ovwNon4KAlign) := by
      simpa [toSeg] using hov
    exact (hok p hp).alloc_limit hw (hal'.resolve_left fun h => hov' (Or.inl h))
  · intro p hp
    rw [hstart p hp, Nat.add_sub_cancel_left]
    simp [toSeg, Nat.shiftLeft_eq, bitLenDmsLbSize, Nat.mul_comm]
  · intro p hp
    rw [hstart p hp, Nat.add_sub_cancel_left]
    rfl

/-- A piece is cut only where a state or the cache changes, so an LB at which a segment that is
looked up begins is the start of its piece. -/
private theorem piece_at {r : SplitIoReq} {ps : List SplitPiece}
    (ht : Tiles SplitPiece.idx SplitPiece.len 0 ps r.usrIoAddr.lbidLen) (hok : ∀ p ∈ ps, p.Ok r) {k : Nat}
    (hk : k < r.usrIoAddr.lbidLen) (hstart : CacheSegStart r k) :
    ∃ p ∈ ps, p.idx = k ∧ asksCache r p.fea = true := by
  obtain ⟨hask, hbeg⟩ := hstart
  obtain ⟨p, hp, hlo, hhi⟩ := ht.cover (Nat.zero_le k) hk
  have hstate (j : Nat) (h1 : p.idx ≤ j) (h2 : j < p.idx + p.len) : lbOvwState r j = p.fea := by
    have := (hok p hp).same_state (j - p.idx) (by omega)
    rwa [show p.idx + (j - p.idx) = j by omega] at this
  have hkfea := hstate k hlo hhi
  rw [hkfea] at hask hbeg
  refine ⟨p, hp, ?_, hask⟩
  by_contra hne
  have hrun := (hok p hp).cache_run hask
  rcases hbeg with h0 | h0 | h0 | h0
  · omega
  · exact h0 (hstate (k - 1) (by omega) (by omega))
  · have := (hok p hp).single (Or.inl h0)
    omega
  · have hprev := hrun (k - 1 - p.idx) (by omega)
    have hthis := hrun (k - p.idx) (by omega)
    rw [show p.idx + (k - 1 - p.idx) = k - 1 by omega] at hprev
    rw [show p.idx + (k - p.idx) = k by omega] at hthis
    exact h0 (hprev.trans hthis.symm)

/-- The segments generated for an IO request split it exactly when every segment that is looked up
in the metadata cache begins at an LB below 2^31. -/
theorem segments_split_exactly_iff (drv : SplitVolume) (dir : IoDir) (mask : Nat → Nat)
    (sectS sectLen : Nat) (h1 : 1 ≤ sectLen) (h2 : sectLen ≤ maxSectsPerRq) :
    let r := ioReqInitRequest drv dir mask sectS sectLen
    (∃ segs, ioReqGenIoSReqOvw r = some segs ∧ SplitsExactly r segs) ↔
      ∀ k, k < r.usrIoAddr.lbidLen → CacheSegStart r k → r.usrIoAddr.lbidStart + k < 2^31 := by
  intro r
  obtain ⟨-, hmax, hlow⟩ := ioReqInitRequest_len drv dir mask sectS sectLen h1 h2
  obtain ⟨ps, hps, ht, hok⟩ := split_pieces drv dir mask sectS sectLen h1 h2
  have hfit {k : Nat} (hk : k < r.usrIoAddr.lbidLen) : r.usrIoAddr.lbidStart + k < 2^62 := by
    have hlow' : r.usrIoAddr.lbidStart < 2^61 := hlow
    have hmax' : r.usrIoAddr.lbidLen ≤ 33 := hmax
    omega
  constructor
  · rintro ⟨segs, hsegs, hex⟩ k hk hbeg
    obtain rfl : ps.map (toSeg r) = segs := Option.some.inj (hps.symm.trans hsegs)
    obtain ⟨p, hp, hidx, hask⟩ := piece_at (r := r) ht hok hk hbeg
    have hstart := ht.start_unique (toSeg r) r.usrIoAddr.lbidStart hex.tiles
      (fun _ _ => rfl) hp
    simp only [toSeg, hask, if_true, hidx] at hstart
    exact (storedLb_eq_iff (hfit hk)).mp hstart
  · intro hcond
    refine ⟨_, hps, splitsExactly_of_starts rfl rfl ht hok fun p hp => ?_⟩
    obtain ⟨-, hlen, hend⟩ := ht.bounds hp
    by_cases hask : asksCache r p.fea = true
    · have hk : p.idx < r.usrIoAddr.lbidLen := Nat.lt_of_lt_of_le (Nat.lt_add_of_pos_right hlen) hend
      have hlb := hcond p.idx hk ((hok p hp).cache_start hask)
      simp only [toSeg, hask, if_true]
      exact (storedLb_eq_iff (hfit hk)).mpr hlb
    · simp [toSeg, hask]

/-- A read from the middle of LB 2 to the end of LB 4, of which the cache has LB 4. -/
def mixedRead : SplitIoReq :=
  ioReqInitRequest ⟨1, 0, 0, true, fun _ => true, (· == 4)⟩ .read (fun i => if i = 0 then 0xf0 else 0xff) 20 20

theorem segments_split_exactly_three :
    SplitsExactly mixedRead
      [⟨2, 1, 0, 0, true, false, false⟩, ⟨3, 1, 4096, 1, true, false, true⟩, ⟨4, 1, 8192, 2, true, true, true⟩] := by
  have hlow : mixedRead.usrIoAddr.lbidStart = 2 := by decide
  have hlen : mixedRead.usrIoAddr.lbidLen = 3 := by decide
  obtain ⟨segs, hsegs, hex⟩ := (segments_split_exactly_iff ⟨1, 0, 0, true, fun _ => true, (· == 4)⟩ .read
    (fun i => if i = 0 then 0xf0 else 0xff) 20 20 (by decide) (by decide)).mpr fun k hk _ => by
      change mixedRead.usrIoAddr.lbidStart + k < _
      change k < mixedRead.usrIoAddr.lbidLen at hk
      omega
  have hrun : ioReqGenIoSReqOvw mixedRead =
      some [⟨2, 1, 0, 0, true, false, false⟩, ⟨3, 1, 4096, 1, true, false, true⟩, ⟨4, 1, 8192, 2, true, true, true⟩] := by
    decide
  exact Option.some.inj (hrun.symm.trans hsegs) ▸ hex

/-- A read of one LB at LB 2^31, with the cache on: its only segment starts elsewhere. -/
theorem segment_start_truncated :
    ¬ ∃ segs, ioReqGenIoSReqOvw (ioReqInitRequest ⟨1, 0, 0, true, fun _ => true, fun _ => false⟩ .read
      (fun i => if i = 0 then 0xff else 0) (2^34) 8) = some segs ∧
      SplitsExactly (ioReqInitRequest ⟨1, 0, 0, true, fun _ => true, fun _ => false⟩ .read
        (fun i => if i = 0 then 0xff else 0) (2^34) 8) segs := by
  rintro ⟨segs, hsegs, hex⟩
  have hrun : ioReqGenIoSReqOvw (ioReqInitRequest ⟨1, 0, 0, true, fun _ => true, fun _ => false⟩ .read
      (fun i => if i = 0 then 0xff else 0) (2^34) 8) =
        some [⟨2^64 - 2^31, 1, 0, 0, true, false, true⟩] := by decide
  obtain rfl := Option.some.inj (hrun.symm.trans hsegs)
  exact absurd hex.tiles.1 (by decide)

end DiscoClient
