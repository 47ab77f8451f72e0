import DiscoClient.IoManager.SegmentSplit
import DiscoClient.Lib.Tiling

namespace DiscoClient
open List

structure SplitPiece where
  idx : Nat
  len : Nat
  fea : LbaFea
  hit : Bool

def asksCache (r : SplitIoReq) (fea : LbaFea) : Bool :=
  r.isMdcacheOn && !decide (fea = .fw4KAlign ∨ fea = .fwNon4KAlign)

/-- A start LB that was kept in a signed 32-bit variable. -/
def storedLb (lb : Nat) : Nat := ((BitVec.ofNat 32 lb).signExtend 64).toNat

def CacheSegStart (r : SplitIoReq) (k : Nat) : Prop :=
  asksCache r (lbOvwState r k) = true ∧
    (k = 0 ∨ lbOvwState r (k - 1) ≠ lbOvwState r k ∨ lbOvwState r k = .ovwNon4KAlign ∨
      r.drive.cached (r.usrIoAddr.lbidStart + (k - 1)) ≠ r.drive.cached (r.usrIoAddr.lbidStart + k))

namespace SplitPiece

def toSeg (r : SplitIoReq) (p : SplitPiece) : IoSegReq where
  lbidStart :=
    if asksCache r p.fea then storedLb (r.usrIoAddr.lbidStart + p.idx)
    else r.usrIoAddr.lbidStart + p.idx
  lbidLen := p.len
  payloadOffset := p.idx <<< bitLenDmsLbSize
  lbSectMask := p.idx
  ovwStat := decide (p.fea = .ovw4KAlign ∨ p.fea = .ovwNon4KAlign)
  chStat := p.hit
  is4KAlign := decide (p.fea = .ovw4KAlign ∨ p.fea = .fw4KAlign)

structure Ok (r : SplitIoReq) (p : SplitPiece) : Prop where
  same_state : ∀ j, j < p.len → lbOvwState r (p.idx + j) = p.fea
  single : p.fea = .ovwNon4KAlign ∨ p.fea = .fwNon4KAlign → p.len = 1
  alloc_limit : r.iodir = .write → p.fea = .fw4KAlign → p.len ≤ maxLbsPerAllocMdReq
  cache_start : asksCache r p.fea = true → CacheSegStart r p.idx
  cache_run : asksCache r p.fea = true → ∀ j, j < p.len →
    r.drive.cached (r.usrIoAddr.lbidStart + (p.idx + j)) = p.hit

end SplitPiece

theorem run_succ {α : Type} {f : Nat → α} {x : α} {i d : Nat} (hfirst : f i = x) (hrun : ∀ j, j < d → f (i + 1 + j) = x) :
    ∀ j, j < d + 1 → f (i + j) = x
  | 0, _ => hfirst
  | j + 1, hj => by
    rw [show i + (j + 1) = i + 1 + j by omega]
    exact hrun j (Nat.lt_of_succ_lt_succ hj)

private theorem getMaxSegLenLoop_spec (m : Bool) (c : Nat → Bool) (n i cnt : Nat) :
    ∃ d, d ≤ n ∧ getMaxSegLenLoop m ((List.range' i n).map c) cnt = cnt + d ∧
      (∀ j, j < d → c (i + j) = m) ∧ (d = n ∨ c (i + d) ≠ m) := by
  induction n generalizing i cnt with
  | zero => exact ⟨0, le_refl 0, rfl, fun j hj => absurd hj (by omega), Or.inl rfl⟩
  | succ n ih =>
    rw [range'_succ, map_cons, getMaxSegLenLoop]
    by_cases hc : c i = m
    · obtain ⟨d, hd, hl, hrun, hend⟩ := ih (i + 1) (cnt + 1)
      refine ⟨d + 1, by omega, ?_, ?_, ?_⟩
      · rw [if_neg (by cases m <;> simp [hc]), if_neg (by cases m <;> simp [hc]), hl]
        omega
      · exact run_succ hc hrun
      · rcases hend with rfl | hend
        · exact Or.inl rfl
        · exact Or.inr (by rwa [show i + (d + 1) = i + 1 + d by omega])
    · refine ⟨0, by omega, ?_, fun j hj => absurd hj (by omega), Or.inr hc⟩
      cases m <;> cases hci : c i <;> simp_all

private theorem getMaxSegLen_spec (c : Nat → Bool) (n i : Nat) :
    ∃ d, d ≤ n ∧ getMaxSegLen ((List.range' i (n + 1)).map c) = (d + 1, c i) ∧
      (∀ j, j < d + 1 → c (i + j) = c i) ∧ (d = n ∨ c (i + (d + 1)) ≠ c i) := by
  obtain ⟨d, hd, hl, hrun, hend⟩ := getMaxSegLenLoop_spec (c i) c n (i + 1) 1
  refine ⟨d, hd, ?_, ?_, ?_⟩
  · rw [getMaxSegLen, range'_succ, map_cons, headD_cons, tail_cons, hl, Nat.add_comm]
  · exact run_succ rfl hrun
  · rcases hend with rfl | hend
    · exact Or.inl rfl
    · exact Or.inr (by rwa [show i + (d + 1) = i + 1 + d by omega])

private theorem queryLoop_spec (c : Nat → Bool) (fea : LbaFea) (base : Nat) (fuel n i : Nat) (hn : n ≤ fuel) :
    ∃ ps : List SplitPiece,
      queryLoop fuel ((List.range' i n).map c) (BitVec.ofNat 32 (base + i)) =
        ps.map (fun p => ⟨storedLb (base + p.idx), p.len, p.hit⟩) ∧
      Tiles SplitPiece.idx SplitPiece.len i ps (i + n) ∧
      ∀ p ∈ ps, p.fea = fea ∧ (p.idx = i ∨ c (p.idx - 1) ≠ c p.idx) ∧
        ∀ j, j < p.len → c (p.idx + j) = p.hit := by
  induction fuel generalizing n i with
  | zero =>
    obtain rfl : n = 0 := by omega
    exact ⟨[], rfl, rfl, fun p hp => absurd hp not_mem_nil⟩
  | succ fuel ih =>
    cases n with
    | zero => exact ⟨[], rfl, rfl, fun p hp => absurd hp not_mem_nil⟩
    | succ n =>
      obtain ⟨d, hd, hg, hrun, hend⟩ := getMaxSegLen_spec c n i
      obtain ⟨ps, hq, ht, hps⟩ := ih (n - d) (i + (d + 1)) (by omega)
      have hdrop : ((List.range' i (n + 1)).map c).drop (d + 1) =
          (List.range' (i + (d + 1)) (n - d)).map c := by
        rw [← map_drop, drop_range', Nat.mul_one, show n + 1 - (d + 1) = n - d by omega]
      have hne : ((List.range' i (n + 1)).map c).isEmpty = false := by simp [range'_succ]
      refine ⟨⟨i, d + 1, fea, c i⟩ :: ps, ?_, ⟨rfl, by simp, ?_⟩, ?_⟩
      · rw [queryLoop, hne, hg]
        simp only [Bool.false_eq_true, if_false, hdrop, map_cons, List.cons.injEq]
        refine ⟨rfl, ?_⟩
        rw [← hq, ← BitVec.ofNat_add, Nat.add_assoc]
      · rwa [show i + (n + 1) = i + (d + 1) + (n - d) by omega]
      · intro p hp
        rcases mem_cons.mp hp with rfl | hp
        · exact ⟨rfl, Or.inl rfl, hrun⟩
        · obtain ⟨h1, h2, h3⟩ := hps p hp
          refine ⟨h1, ?_, h3⟩
          rcases h2 with h2 | h2
          · refine Or.inr ?_
            have hb := ht.bounds hp
            rw [h2, show i + (d + 1) - 1 = i + d by omega, hrun d (by omega)]
            exact (hend.resolve_left (by omega)).symm
          · exact Or.inr h2

private theorem genSegLoop_map (ovw al : Bool) (g : SplitPiece → Nat) {ps : List SplitPiece} {i e : Nat}
    (h : Tiles SplitPiece.idx SplitPiece.len i ps e) :
    genSegLoop ovw al (ps.map fun p => ⟨g p, p.len, p.hit⟩) (i <<< bitLenDmsLbSize) i =
      ps.map fun p => ⟨g p, p.len, p.idx <<< bitLenDmsLbSize, p.idx, ovw, p.hit, al⟩ := by
  induction ps generalizing i with
  | nil => rfl
  | cons p ps ih =>
    obtain ⟨h1, -, h3⟩ := h
    rw [map_cons, genSegLoop, map_cons, h1]
    congr 1
    rw [← ih h3, Nat.shiftLeft_eq, Nat.shiftLeft_eq, Nat.shiftLeft_eq, Nat.add_mul]

theorem ioReqGenIoSReqMdcacheState_spec (r : SplitIoReq) (i len : Nat) (hlen : 0 < len)
    (hsame : ∀ j, j < len → lbOvwState r (i + j) = lbOvwState r i)
    (hsingle : lbOvwState r i = .ovwNon4KAlign ∨ lbOvwState r i = .fwNon4KAlign → len = 1)
    (hlimit : r.iodir = .write → lbOvwState r i = .fw4KAlign → len ≤ maxLbsPerAllocMdReq)
    (hstart : asksCache r (lbOvwState r i) = true →
      i = 0 ∨ lbOvwState r (i - 1) ≠ lbOvwState r i ∨ lbOvwState r i = .ovwNon4KAlign) :
    ∃ ps : List SplitPiece,
      (ioReqGenIoSReqMdcacheState r (r.usrIoAddr.lbidStart + i) len (lbOvwState r i)
        (i <<< bitLenDmsLbSize) i).1 = ps.map (SplitPiece.toSeg r) ∧
      Tiles SplitPiece.idx SplitPiece.len i ps (i + len) ∧ ∀ p ∈ ps, p.Ok r := by
  have hask : (if r.isMdcacheOn = false then false
      else if lbOvwState r i = .fw4KAlign ∨ lbOvwState r i = .fwNon4KAlign then false
      else true) = asksCache r (lbOvwState r i) := by
    unfold asksCache
    cases r.isMdcacheOn <;> simp
  simp only [ioReqGenIoSReqMdcacheState, hask]
  generalize hfea : lbOvwState r i = fea at *
  by_cases hq : asksCache r fea = true
  · obtain ⟨ps, heq, ht, hps⟩ := queryLoop_spec (fun k => r.drive.cached (r.usrIoAddr.lbidStart + k))
      fea r.usrIoAddr.lbidStart len len i (le_refl len)
    have hmd : (List.range len).map (fun j => r.drive.cached (r.usrIoAddr.lbidStart + i + j)) =
        (List.range' i len).map (fun k => r.drive.cached (r.usrIoAddr.lbidStart + k)) := by
      rw [range'_eq_map_range, map_map]
      exact map_congr_left fun j _ => by simp [Nat.add_assoc]
    refine ⟨ps, ?_, ht, fun p hp => ?_⟩
    · rw [queryVolumeMDCache, if_pos hq, hmd, heq, genSegLoop_map _ _ _ ht]
      refine map_congr_left fun p hp => ?_
      simp [SplitPiece.toSeg, (hps p hp).1, hq]
    · obtain ⟨hpf, hbeg, hrun⟩ := hps p hp
      obtain ⟨hb1, hb2, hb3⟩ := ht.bounds hp
      have hst (j : Nat) (hj : j < p.len) : lbOvwState r (p.idx + j) = fea := by
        have := hsame (p.idx + j - i) (by omega)
        rwa [show i + (p.idx + j - i) = p.idx + j by omega] at this
      have hidx : lbOvwState r p.idx = fea := by simpa using hst 0 hb2
      refine ⟨fun j hj => (hst j hj).trans hpf.symm, fun hs => ?_, fun hw hf => ?_, fun _ => ⟨?_, ?_⟩,
        fun _ j hj => hrun j hj⟩
      · have := hsingle (hpf ▸ hs)
        omega
      · have := hlimit hw (hpf ▸ hf)
        omega
      · rw [hidx]
        exact hq
      · rw [hidx]
        rcases hbeg with hbeg | hbeg
        · rcases hstart hq with h0 | h0 | h0
          · exact Or.inl (hbeg.trans h0)
          · exact Or.inr (Or.inl (by rwa [hbeg]))
          · exact Or.inr (Or.inr (Or.inl h0))
        · exact Or.inr (Or.inr (Or.inr hbeg))
  · refine ⟨[⟨i, len, fea, false⟩], ?_, ⟨rfl, hlen, rfl⟩, fun p hp => ?_⟩
    · rw [queryVolumeMDCache, if_neg hq]
      simp [genSegLoop, SplitPiece.toSeg, hq]
    · obtain rfl := mem_singleton.mp hp
      exact ⟨hsame, hsingle, hlimit, fun h => absurd h hq, fun h => absurd h hq⟩

private theorem chkMaxLenAllocMD_iff (dir : IoDir) (fea : LbaFea) (len : Nat)
    (h : ¬ (fea = .fwNon4KAlign ∨ fea = .ovwNon4KAlign)) :
    chkMaxLenAllocMD dir fea len = true ↔
      dir = .write ∧ fea ≠ .ovw4KAlign ∧ maxLbsPerAllocMdReq ≤ len := by
  cases dir <;> cases fea <;> simp_all [chkMaxLenAllocMD]

/-- find_cont_len stops at a change of state, and at the limits on a write. -/
theorem findContLenLoop_spec (f : Nat → LbaFea) (fea : LbaFea) (dir : IoDir) (n i len : Nat) :
    ∃ d, d ≤ n ∧ findContLenLoop fea dir ((List.range' i n).map f) len = len + d ∧
      (∀ j, j < d → f (i + j) = fea) ∧
      (fea = .ovwNon4KAlign ∨ fea = .fwNon4KAlign → d = 0) ∧
      (dir = .write → fea = .fw4KAlign → len < maxLbsPerAllocMdReq → len + d ≤ maxLbsPerAllocMdReq) ∧
      (d = n ∨ f (i + d) ≠ fea ∨ fea ≠ .ovw4KAlign) := by
  induction n generalizing i len with
  | zero =>
    exact ⟨0, le_refl 0, rfl, fun j hj => absurd hj (by omega), fun _ => rfl, fun _ _ h => by omega, Or.inl rfl⟩
  | succ n ih =>
    rw [range'_succ, map_cons, findContLenLoop]
    by_cases hnon : fea = .fwNon4KAlign ∨ fea = .ovwNon4KAlign
    · rw [if_pos hnon]
      refine ⟨0, by omega, rfl, fun j hj => absurd hj (by omega), fun _ => rfl, fun _ _ h => by omega, ?_⟩
      rcases hnon with rfl | rfl <;> simp
    rw [if_neg hnon]
    by_cases hf : f i = fea
    · rw [if_neg (by simp [hf]), hf]
      by_cases hmax : chkMaxLenAllocMD dir fea (len + 1) = true
      · rw [if_pos hmax]
        obtain ⟨-, hne, -⟩ := (chkMaxLenAllocMD_iff dir fea (len + 1) hnon).mp hmax
        refine ⟨1, by omega, rfl, fun j hj => ?_, fun h => absurd h.symm hnon, fun _ _ h => by omega,
          Or.inr (Or.inr hne)⟩
        rwa [show j = 0 by omega, Nat.add_zero]
      · rw [if_neg hmax]
        rw [chkMaxLenAllocMD_iff dir fea (len + 1) hnon] at hmax
        obtain ⟨d, hd, hl, hrun, hsing, hlim, hend⟩ := ih (i + 1) (len + 1)
        refine ⟨d + 1, by omega, ?_, run_succ hf hrun, fun h => absurd h.symm hnon, fun hw h4 h => ?_, ?_⟩
        · rw [hl]
          omega
        · have hlt : len + 1 < maxLbsPerAllocMdReq := by
            by_contra hge
            exact hmax ⟨hw, by simp [h4], by omega⟩
          have := hlim hw h4 hlt
          omega
        · rw [show i + (d + 1) = i + 1 + d by omega]
          rcases hend with rfl | hend
          · exact Or.inl rfl
          · exact Or.inr hend
    · rw [if_pos (Ne.symm hf)]
      exact ⟨0, by omega, rfl, fun j hj => absurd hj (by omega), fun _ => rfl, fun _ _ h => by omega,
        Or.inr (Or.inl hf)⟩

end DiscoClient
