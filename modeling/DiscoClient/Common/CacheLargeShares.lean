import DiscoClient.Common.CacheShares

namespace DiscoClient
open VolumeCachePool List

section
variable {D : Type} {bound : BitVec 64} {vs : List (VolumeCachePool D)} {v : VolumeCachePool D} {need : Int}

def largeBlocks (bound : BitVec 64) (vs : List (VolumeCachePool D)) : List Nat := (vs.filter fun v => !v.isSmall bound).map lbs

theorem largeBlocks_of_small (h : v.isSmall bound = true) :
    largeBlocks bound (v :: vs) = largeBlocks bound vs := by
  rw [largeBlocks, filter_cons_of_neg (by simp [h])]
  rfl

theorem largeBlocks_of_large (h : v.isSmall bound = false) :
    largeBlocks bound (v :: vs) = v.lbs :: largeBlocks bound vs := by
  rw [largeBlocks, filter_cons_of_pos (by simp [h])]
  rfl

/-- total_cache_need after the pass over the small volumes. -/
theorem need_smallPass (bound : BitVec 64) (vs : List (VolumeCachePool D)) (acc : Int × Int) (hacc : toS64 acc.2 = acc.2) :
    (mapAccum (fun acc v => v.allocSmallVol bound acc) acc vs).1.2 = toS64 (acc.2 + (largeBlocks bound vs).sum) := by
  induction vs generalizing acc with
  | nil => exact hacc.symm.trans (congrArg toS64 (Int.add_zero _).symm)
  | cons v vs ih =>
    rw [mapAccum]
    by_cases hsmall : v.capacity.toNat ≤ bound.toNat
    · have hneed : (v.allocSmallVol bound acc).1.2 = acc.2 := by
        rw [allocSmallVol, if_neg (Nat.not_lt.mpr hsmall)]
        split_ifs
        · rfl
        · rfl
      rw [largeBlocks_of_small (decide_eq_true hsmall), ih _ (by rwa [hneed]), hneed]
    · have hneed : (v.allocSmallVol bound acc).1.2 = toS64 (acc.2 + v.lbs) := by
        rw [allocSmallVol, if_pos (Nat.lt_of_not_le hsmall)]
      rw [largeBlocks_of_large (decide_eq_false hsmall), ih _ (by rw [hneed, toS64, toS64]; omega), hneed, sum_cons]
      simp only [toS64, Nat.cast_add]
      omega

def share (maxCitems : Nat) (need : Int) (lbs : Nat) : Nat :=
  if need ≤ maxCitems then lbs else maxCitems * lbs % 2 ^ 64 / need.toNat

/-- What a large volume gets of its share: what is left is an int32_t, and so is the share. -/
def granted (left share : Nat) : Nat := if toS32 left < toS32 share then left % 2 ^ 32 else share % 2 ^ 32

def GrantsFit (maxCitems : Nat) (need : Int) : Nat → List Nat → Prop
  | _, [] => True
  | left, lbs :: rest =>
    granted left (share maxCitems need lbs) ≤ left ∧ granted left (share maxCitems need lbs) ≤ lbs ∧
      GrantsFit maxCitems need (left - granted left (share maxCitems need lbs)) rest

theorem share_le (maxCitems : Nat) (need : Int) (lbs : Nat) : share maxCitems need lbs ≤ lbs := by
  rw [share]
  split_ifs with hall
  · exact Nat.le_refl _
  · refine Nat.div_le_of_le_mul ((Nat.mod_le _ _).trans (Nat.mul_le_mul_right _ ?_))
    omega

/-- As long as an int32_t holds what is left, only the shares have to be int32_t too. -/
theorem grantsFit_iff {maxCitems : Nat} {left : Nat} {blocks : List Nat} (hleft : left < 2 ^ 31) :
    GrantsFit maxCitems need left blocks ↔ ∀ n ∈ blocks, share maxCitems need n % 2 ^ 32 < 2 ^ 31 := by
  induction blocks generalizing left with
  | nil => exact iff_of_true trivial fun n hn => absurd hn not_mem_nil
  | cons n blocks ih =>
    rw [GrantsFit, forall_mem_cons]
    have hshare := share_le maxCitems need n
    generalize share maxCitems need n = x at hshare
    by_cases hx : x % 2 ^ 32 < 2 ^ 31
    · have hmin : granted left x ≤ left ∧ granted left x ≤ x := by
        rw [granted, toS32, toS32]
        split_ifs with hless
        · omega
        · omega
      rw [and_iff_right hmin.1, and_iff_right (hmin.2.trans hshare), and_iff_right hx]
      exact ih (by omega)
    · have hmore : ¬granted left x ≤ left := by
        rw [granted, toS32, toS32]
        split_ifs with hless
        · omega
        · omega
      exact iff_of_false (fun h => hmore h.1) fun h => hx h.1

def largeSize (bound : BitVec 64) (v : VolumeCachePool D) : Nat := if v.isSmall bound then 0 else v.cache.cacheSize

theorem cachedNeed_eq (v : VolumeCachePool D) (maxCitems : Nat) (hneed : toS64 need = need) :
    v.cachedNeed maxCitems need = toS32 (share maxCitems need v.lbs) := by
  rw [cachedNeed, share]
  split_ifs with hall
  · rfl
  · have hpos : toU64 need = need.toNat := by
      rw [toS64] at hneed
      rw [toU64]
      omega
    have hmul : toU64 ((maxCitems : Int) * v.lbs) = maxCitems * v.lbs % 2 ^ 64 := by
      rw [toU64, ← Int.natCast_mul]
      omega
    rw [hpos, hmul]
    rfl

theorem toS32_sub_toS32 (x y : Int) : toS32 (toS32 x - toS32 y) = toS32 (x - y) := by
  rw [toS32, toS32, toS32, toS32]
  omega

theorem toS32_sub_mod {left x : Nat} (hle : x % 2 ^ 32 ≤ left) : toS32 (left - x) = toS32 ((left - x % 2 ^ 32 : Nat) : Int) := by
  rw [toS32, toS32]
  omega

theorem toS32_sub_mod_self (left : Nat) : toS32 ((left - left % 2 ^ 32 : Nat) : Int) = 0 := by
  rw [toS32]
  omega

theorem allocLargeVol_large (h : v.cache.Contents) (hlarge : v.isSmall bound = false) (maxCitems : Nat)
    (hneed : toS64 need = need) (left : Nat) :
    ∃ (w : VolumeCachePool D) (left' : Int), v.allocLargeVol maxCitems bound need (toS32 left) = (left', w) ∧
      w.capacity = v.capacity ∧ w.cache.Contents ∧ w.cache.lruList.length ≤ w.cache.cacheSize ∧
      w.cache.cacheSize = granted left (share maxCitems need v.lbs) ∧
      (w.cache.cacheSize ≤ left → left' = toS32 ((left - w.cache.cacheSize : Nat) : Int)) := by
  have hinc : v.incRef.cache.Contents := h
  rw [allocLargeVol, if_neg (of_decide_eq_false hlarge), cachedNeed_eq v maxCitems hneed]
  generalize share maxCitems need v.lbs = x
  have hcap (y : Int) : (v.incRef.resizeLarge y).capacity = v.capacity := rfl
  by_cases hless : toS32 left < toS32 x
  · obtain ⟨hcont, hsize, hlen⟩ := resizeLarge_spec hinc left
    replace hcap := hcap (toS32 left)
    rw [if_neg (by omega), granted, if_pos hless, ← toU32_natCast]
    generalize v.incRef.resizeLarge (toS32 left) = u at hcont hsize hlen hcap
    refine ⟨u.decRef, 0, rfl, hcap, hcont, hlen.trans_eq hsize.symm, hsize, fun _ => ?_⟩
    rw [show u.decRef.cache.cacheSize = _ from hsize, toU32_natCast, toS32_sub_mod_self]
  · obtain ⟨hcont, hsize, hlen⟩ := resizeLarge_spec hinc x
    replace hcap := hcap (toS32 x)
    rw [if_pos (by omega), granted, if_neg hless, ← toU32_natCast]
    generalize v.incRef.resizeLarge (toS32 x) = u at hcont hsize hlen hcap
    refine ⟨u.decRef, _, rfl, hcap, hcont, hlen.trans_eq hsize.symm, hsize, fun hle => ?_⟩
    rw [show u.decRef.cache.cacheSize = _ from hsize, toU32_natCast] at hle ⊢
    rw [toS32_sub_toS32, toS32_sub_mod hle]

theorem allocLargeVol_small (hsmall : v.isSmall bound = true) (maxCitems need left : Int) :
    v.allocLargeVol maxCitems bound need left = (left, v) := by
  rw [allocLargeVol, if_pos (of_decide_eq_true hsmall), decRef_incRef]

def largePass (bound : BitVec 64) (maxCitems : Nat) (need left : Int) (vs : List (VolumeCachePool D)) :
    Int × List (VolumeCachePool D) :=
  mapAccum (fun left v => v.allocLargeVol maxCitems bound need left) left vs

theorem largePass_cons {v w : VolumeCachePool D} {maxCitems : Nat} {need left left' : Int}
    (heq : v.allocLargeVol maxCitems bound need left = (left', w)) :
    largePass bound maxCitems need left (v :: vs) =
      ((largePass bound maxCitems need left' vs).1, w :: (largePass bound maxCitems need left' vs).2) := by
  rw [largePass, mapAccum, heq]
  rfl

/-- Together the large volumes get at most what is left, and each at most its blocks, if what is granted fits. -/
theorem largePass_iff (bound : BitVec 64) (hvs : ∀ v ∈ vs, v.cache.Contents) (maxCitems : Nat) (hneed : toS64 need = need)
    (left : Nat) :
    (((largePass bound maxCitems need (toS32 left) vs).2.map (largeSize bound)).sum ≤ left ∧
      ∀ w ∈ (largePass bound maxCitems need (toS32 left) vs).2, w.isSmall bound = false → w.cache.cacheSize ≤ w.lbs) ↔
      GrantsFit maxCitems need left (largeBlocks bound vs) := by
  induction vs generalizing left with
  | nil => exact iff_of_true ⟨Nat.zero_le _, fun w hw => absurd hw not_mem_nil⟩ trivial
  | cons v vs ih =>
    obtain ⟨hv, hrest⟩ := forall_mem_cons.mp hvs
    by_cases hsmall : v.isSmall bound = true
    · rw [largePass_cons (allocLargeVol_small hsmall _ _ _), largeBlocks_of_small hsmall, ← ih hrest left, map_cons,
        sum_cons, largeSize, if_pos hsmall, Nat.zero_add, forall_mem_cons]
      exact and_congr_right fun _ => and_iff_right fun hlarge => by simp [hsmall] at hlarge
    · have hlarge : v.isSmall bound = false := Bool.eq_false_iff.mpr hsmall
      obtain ⟨w, left', heq, hcap, -, -, hsize, hnext⟩ := allocLargeVol_large hv hlarge maxCitems hneed left
      have hw : w.isSmall bound = false := by
        rw [isSmall, hcap]
        exact hlarge
      have hlbs : w.lbs = v.lbs := by rw [lbs, lbs, hcap]
      rw [largePass_cons heq, largeBlocks_of_large hlarge, GrantsFit, ← hsize, map_cons, sum_cons, largeSize,
        if_neg (by simp [hw]), forall_mem_cons, hlbs]
      by_cases hle : w.cache.cacheSize ≤ left
      · rw [hnext hle, ← ih hrest (left - w.cache.cacheSize), and_iff_right hle, forall_prop_of_true hw, and_left_comm]
        exact and_congr_right fun _ => and_congr_left fun _ => by omega
      · exact iff_of_false (fun h => hle (by omega)) fun h => hle h.1

theorem largePass_ready (hvs : ∀ v ∈ vs, Ready bound v ∧ (v.isSmall bound = true → v.cache.lruList.length ≤ v.cache.cacheSize))
    (maxCitems : Nat) (hneed : toS64 need = need) (left : Nat)
    (hfits : GrantsFit maxCitems need left (largeBlocks bound vs)) :
    ∀ w ∈ (largePass bound maxCitems need (toS32 left) vs).2, Ready bound w ∧ w.cache.lruList.length ≤ w.cache.cacheSize := by
  induction vs generalizing left with
  | nil => exact fun w hw => absurd hw not_mem_nil
  | cons v vs ih =>
    obtain ⟨⟨hv, hlen⟩, hrest⟩ := forall_mem_cons.mp hvs
    by_cases hsmall : v.isSmall bound = true
    · rw [largeBlocks_of_small hsmall] at hfits
      rw [largePass_cons (allocLargeVol_small hsmall _ _ _)]
      exact forall_mem_cons.mpr ⟨⟨hv, hlen hsmall⟩, ih hrest left hfits⟩
    · have hlarge : v.isSmall bound = false := Bool.eq_false_iff.mpr hsmall
      obtain ⟨w, left', heq, hcap, hcont, hlen', hsize, hnext⟩ := allocLargeVol_large hv.contents hlarge maxCitems hneed left
      rw [largeBlocks_of_large hlarge, GrantsFit, ← hsize] at hfits
      obtain ⟨hle, -, hfits⟩ := hfits
      rw [largePass_cons heq, hnext hle]
      refine forall_mem_cons.mpr ⟨⟨⟨hcont, fun hw => ?_⟩, hlen'⟩, ih hrest _ hfits⟩
      rw [isSmall, hcap] at hw
      exact absurd hw hsmall

/-- The large volumes fit into what the small ones leave: if an int32_t holds that, the shares have to be
int32_t too; otherwise what is granted must not exceed it or the volume. -/
def LargeFits (left : Nat) (blocks : List Nat) : Prop :=
  if left < 2 ^ 31 then ∀ n ∈ blocks, share left (toS64 blocks.sum) n % 2 ^ 32 < 2 ^ 31
  else GrantsFit left (toS64 blocks.sum) left blocks

theorem largeFits_iff (left : Nat) (blocks : List Nat) : LargeFits left blocks ↔ GrantsFit left (toS64 blocks.sum) left blocks := by
  rw [LargeFits]
  split_ifs with hleft
  · exact (grantsFit_iff hleft).symm
  · exact Iff.rfl

end
end DiscoClient
