import DiscoClient.Common.CacheRemoval
import DiscoClient.Common.CacheTable

namespace DiscoClient
open List

namespace CachePool
variable {D : Type} {p : CachePool D} {pins : Nat → Nat}

structure Contents (p : CachePool D) : Prop where
  sound : ∃ pins, Sound p pins
  num_lt : p.lruList.length < 2 ^ 31

theorem Sound.kickMetaCache_left (h : Sound p pins) (count : Int) :
    ∃ ids, Sound (p.kickMetaCache count none).1 pins ∧ Left p (p.kickMetaCache count none).1 ids := by
  have hsome : ∃ ids, (p.kickMetaCache count none).1 = p.removeAll ids ∧ ids.Nodup ∧ ∀ i ∈ ids, i ∈ p.lruList := by
    have hnodup : p.lruList.reverse.Nodup := nodup_reverse.mpr h.nodup
    have htake (n : Nat) : (p.lruList.reverse.take n).Nodup ∧ ∀ i ∈ p.lruList.reverse.take n, i ∈ p.lruList :=
      ⟨hnodup.sublist (List.take_sublist _ _), fun i hi => mem_reverse.mp (mem_of_mem_take hi)⟩
    rw [CachePool.kickMetaCache]
    split_ifs
    · rw [kickLoop_eq]
      split_ifs
      · exact ⟨_, rfl, hnodup, fun i hi => mem_reverse.mp hi⟩
      · exact ⟨_, rfl, htake _⟩
    · exact ⟨[], rfl, nodup_nil, fun i hi => absurd hi not_mem_nil⟩
    · rw [kickLoop_eq]
      split_ifs
      · exact ⟨_, rfl, hnodup, fun i hi => mem_reverse.mp hi⟩
      · exact ⟨_, rfl, htake _⟩
  obtain ⟨ids, heq, hnodup, hsub⟩ := hsome
  rw [heq]
  exact ⟨ids, h.removeAll hnodup hsub⟩

theorem Sound.length_kickMetaCache (h : Sound p pins) {n : Nat} (hn : 0 < n) (hlen : p.lruList.length < 2 ^ 32) :
    (p.kickMetaCache n none).1.lruList.length = p.lruList.length - n := by
  obtain ⟨ids, heq, hnodup, hsub, hrest⟩ := h.kickMetaCache hn fun _ => hlen
  rw [heq, (h.removeAll hnodup hsub).2.lruList, hrest, length_take]
  omega

/-- A pool with another cache_size, and leaves kicked as the new size asks for. -/
theorem Contents.resize (h : Contents p) (size : Nat) (count limit : Int) (hcount : limit < p.cacheNum → 0 ≤ limit →
    count = p.cacheNum - limit) (hsize : 0 ≤ limit → limit = size) (hneg : limit < 0 → 2 ^ 31 ≤ size) {q : CachePool D}
    (hq : q = if limit < p.cacheNum then (({ p with cacheSize := size } : CachePool D).kickMetaCache count none).1
      else { p with cacheSize := size }) :
    Contents q ∧ q.cacheSize = size ∧ q.lruList.length ≤ size := by
  obtain ⟨⟨pins, hs⟩, hlt⟩ := h
  have hp : Sound ({ p with cacheSize := size } : CachePool D) pins := ⟨hs.nodup, hs.num, hs.tree, hs.lives⟩
  have hnum := hs.num
  subst hq
  split_ifs with hover
  · obtain ⟨ids, hsound, hleft⟩ := hp.kickMetaCache_left count
    have hle : (({ p with cacheSize := size } : CachePool D).kickMetaCache count none).1.lruList.length ≤ p.lruList.length := by
      rw [hleft.lruList]
      exact length_filter_le _ _
    refine ⟨⟨⟨pins, hsound⟩, by omega⟩, hleft.cacheSize, ?_⟩
    by_cases hlimit : 0 ≤ limit
    · have hexact : count = ((p.lruList.length - size : Nat) : Int) := by
        rw [hcount hover hlimit, hnum]
        have := hsize hlimit
        omega
      have hlen := hp.length_kickMetaCache (n := p.lruList.length - size) (by have := hsize hlimit; omega)
        (by change p.lruList.length < 2 ^ 32; omega)
      change _ = p.lruList.length - _ at hlen
      rw [hexact, hlen]
      have := hsize hlimit
      omega
    · have := hneg (by omega)
      omega
  · refine ⟨⟨⟨pins, hp⟩, hlt⟩, rfl, ?_⟩
    change p.lruList.length ≤ size
    have := hsize (by omega)
    omega

end CachePool

namespace VolumeCachePool
variable {D : Type} {v : VolumeCachePool D}

def isSmall (bound : BitVec 64) (v : VolumeCachePool D) : Bool := decide (v.capacity.toNat ≤ bound.toNat)

def smallNeed (bound : BitVec 64) (v : VolumeCachePool D) : Nat := if v.isSmall bound then toU32 v.lbs else 0

def smallSize (bound : BitVec 64) (v : VolumeCachePool D) : Nat := if v.isSmall bound then v.cache.cacheSize else 0

structure Ready (bound : BitVec 64) (v : VolumeCachePool D) : Prop where
  contents : v.cache.Contents
  size_le : v.isSmall bound = true → v.cache.cacheSize ≤ toU32 v.lbs

theorem resizeSmall_spec (h : v.cache.Contents) {size : Nat} (hsize : size < 2 ^ 32) :
    (v.resizeSmall size).cache.Contents ∧ (v.resizeSmall size).cache.cacheSize = size ∧
      (v.resizeSmall size).cache.lruList.length ≤ size := by
  obtain ⟨⟨pins, hs⟩, hlt⟩ := h
  have hnum := hs.num
  have hu : toU32 v.cache.cacheNum = v.cache.lruList.length := by
    rw [hnum]
    exact toU32_of_lt (by omega)
  refine CachePool.Contents.resize ⟨⟨pins, hs⟩, hlt⟩ size (toS32 (v.cache.cacheNum - size)) size (fun hover _ => ?_)
    (fun _ => rfl) (fun hneg => by omega) ?_
  · rw [toS32]
    omega
  · rw [resizeSmall]
    exact if_congr (by rw [hu, hnum]; omega) rfl rfl

theorem resizeLarge_spec (h : v.cache.Contents) (x : Int) :
    (v.resizeLarge (toS32 x)).cache.Contents ∧ (v.resizeLarge (toS32 x)).cache.cacheSize = toU32 x ∧
      (v.resizeLarge (toS32 x)).cache.lruList.length ≤ toU32 x := by
  obtain ⟨⟨pins, hs⟩, hlt⟩ := h
  have hnum := hs.num
  refine CachePool.Contents.resize ⟨⟨pins, hs⟩, hlt⟩ (toU32 x) (toS32 (v.cache.cacheNum - toS32 x)) (toS32 x)
    (fun hover hpos => ?_) (fun hpos => ?_) (fun hneg => ?_) ?_
  · rw [toS32]
    omega
  · rw [toS32] at hpos ⊢
    rw [toU32]
    omega
  · rw [toS32] at hneg
    rw [toU32]
    omega
  · rw [resizeLarge, toU32_toS32]

theorem allocSmallVol_cases (bound : BitVec 64) (h : v.cache.Contents) (left : Nat) (need : Int) :
    (v.isSmall bound = false ∧ v.allocSmallVol bound ((left : Int), need) = (((left : Int), toS64 (need + v.lbs)), v)) ∨
    (v.isSmall bound = true ∧ ∃ (w : VolumeCachePool D) (left' : Int), v.allocSmallVol bound ((left : Int), need) = ((left', need), w) ∧
      w.capacity = v.capacity ∧ w.cache.Contents ∧ w.cache.lruList.length ≤ w.cache.cacheSize ∧
      ((v.cache.cacheSize ≤ left ∧ left' = toS64 (left - toU32 v.lbs) ∧ w.cache.cacheSize = toU32 v.lbs) ∨
        (left < v.cache.cacheSize ∧ left' = 0 ∧ w.cache.cacheSize = toU32 left))) := by
  by_cases hsmall : v.capacity.toNat ≤ bound.toNat
  · right
    refine ⟨decide_eq_true hsmall, ?_⟩
    rw [allocSmallVol, if_neg (Nat.not_lt.mpr hsmall)]
    have hinc : v.incRef.cache.Contents := h
    by_cases hroom : v.cache.cacheSize ≤ left
    · obtain ⟨hcont, hsize, hlen⟩ := resizeSmall_spec hinc (toU32_lt v.lbs)
      rw [if_pos (Int.ofNat_le.mpr hroom)]
      exact ⟨_, _, rfl, rfl, hcont, hlen.trans_eq hsize.symm, .inl ⟨hroom, rfl, hsize⟩⟩
    · obtain ⟨hcont, hsize, hlen⟩ := resizeSmall_spec hinc (toU32_lt left)
      rw [if_neg fun hge => hroom (Int.ofNat_le.mp hge)]
      exact ⟨_, _, rfl, rfl, hcont, hlen.trans_eq hsize.symm, .inr ⟨Nat.lt_of_not_le hroom, rfl, hsize⟩⟩
  · left
    refine ⟨decide_eq_false hsmall, ?_⟩
    rw [allocSmallVol, if_pos (Nat.lt_of_not_le hsmall), decRef_incRef]

end VolumeCachePool

section
variable {D : Type} (bound : BitVec 64)
open VolumeCachePool

def leftOver (total : Nat) (vs : List (VolumeCachePool D)) : Nat := total - (vs.map (smallNeed bound)).sum

/-- No small volume gets all that it asks for although less is left. -/
def SmallFits (total : Nat) (vs : List (VolumeCachePool D)) : Prop :=
  ∀ i v, vs[i]? = some v → v.isSmall bound = true → leftOver bound total (vs.take i) < toU32 v.lbs →
    leftOver bound total (vs.take i) < v.cache.cacheSize

theorem leftOver_cons (total : Nat) (v : VolumeCachePool D) (vs : List (VolumeCachePool D)) :
    leftOver bound total (v :: vs) = leftOver bound (total - smallNeed bound v) vs := by
  rw [leftOver, leftOver, map_cons, sum_cons, Nat.sub_sub]

theorem smallFits_cons (total : Nat) (v : VolumeCachePool D) (vs : List (VolumeCachePool D)) :
    SmallFits bound total (v :: vs) ↔
      (v.isSmall bound = true → total < toU32 v.lbs → total < v.cache.cacheSize) ∧
        SmallFits bound (total - smallNeed bound v) vs := by
  constructor
  · intro h
    refine ⟨fun hsmall => h 0 v rfl hsmall, fun i u hu hsmall => ?_⟩
    have hnext := h (i + 1) u hu hsmall
    rwa [take_succ_cons, leftOver_cons] at hnext
  · rintro ⟨hv, hrest⟩ i u hu hsmall
    cases i with
    | zero =>
      obtain rfl := Option.some.inj hu
      exact hv hsmall
    | succ i =>
      rw [take_succ_cons, leftOver_cons]
      exact hrest i u hu hsmall

def smallPass (left : Nat) (need : Int) (vs : List (VolumeCachePool D)) : (Int × Int) × List (VolumeCachePool D) :=
  mapAccum (fun acc v => v.allocSmallVol bound acc) ((left : Int), need) vs

variable {bound} {vs : List (VolumeCachePool D)}

theorem smallPass_cons {v w : VolumeCachePool D} {left left' : Nat} {need need' : Int}
    (heq : v.allocSmallVol bound ((left : Int), need) = (((left' : Int), need'), w)) :
    smallPass bound left need (v :: vs) = ((smallPass bound left' need' vs).1, w :: (smallPass bound left' need' vs).2) := by
  rw [smallPass, mapAccum, heq]
  rfl

theorem allocSmallVol_fits {v : VolumeCachePool D} (hv : Ready bound v) {left : Nat} (need : Int) (hleft : left < 2 ^ 63)
    (hfits : v.isSmall bound = true → left < toU32 v.lbs → left < v.cache.cacheSize) :
    ∃ (w : VolumeCachePool D) (need' : Int),
      v.allocSmallVol bound ((left : Int), need) = ((((left - smallNeed bound v : Nat) : Int), need'), w) ∧
      smallSize bound w + (left - smallNeed bound v) = left ∧ Ready bound w ∧
      (w.isSmall bound = true → w.cache.lruList.length ≤ w.cache.cacheSize) := by
  rcases allocSmallVol_cases bound hv.contents left need with ⟨hsmall, heq⟩ | ⟨hsmall, w, left', heq, hcap, hcont, hlen, hcase⟩
  · have hnot : ¬v.isSmall bound = true := by simp [hsmall]
    refine ⟨v, toS64 (need + v.lbs), ?_, ?_, hv, fun h => absurd h hnot⟩
    · rw [heq, smallNeed, if_neg hnot, Nat.sub_zero]
    · rw [smallSize, smallNeed, if_neg hnot, if_neg hnot, Nat.zero_add, Nat.sub_zero]
  · have hw : w.isSmall bound = true := by rwa [isSmall, hcap]
    have hlbs : w.lbs = v.lbs := by rw [lbs, lbs, hcap]
    have hle := hv.size_le hsmall
    have hlt := toU32_lt v.lbs
    have hfit := hfits hsmall
    rw [smallNeed, if_pos hsmall]
    refine ⟨w, need, ?_, ?_, ⟨hcont, fun _ => ?_⟩, fun _ => hlen⟩
    · rw [heq]
      refine congrArg (fun l => ((l, need), w)) ?_
      rcases hcase with ⟨hroom, hl, -⟩ | ⟨hless, hl, -⟩
      · rw [hl, toS64]
        omega
      · rw [hl]
        omega
    · rw [smallSize, if_pos hw]
      rcases hcase with ⟨hroom, -, hsize⟩ | ⟨hless, -, hsize⟩
      · omega
      · rw [hsize, toU32_of_lt (by omega)]
        omega
    · rw [hlbs]
      rcases hcase with ⟨-, -, hsize⟩ | ⟨hless, -, hsize⟩
      · omega
      · rw [hsize, toU32_of_lt (by omega)]
        omega

theorem smallPass_fits (hvs : ∀ v ∈ vs, Ready bound v) (left : Nat) (need : Int) (hleft : left < 2 ^ 63) (h : SmallFits bound left vs) :
    (smallPass bound left need vs).1.1 = leftOver bound left vs ∧
      ((smallPass bound left need vs).2.map (smallSize bound)).sum + leftOver bound left vs = left ∧
      ∀ w ∈ (smallPass bound left need vs).2, Ready bound w ∧
        (w.isSmall bound = true → w.cache.lruList.length ≤ w.cache.cacheSize) := by
  induction vs generalizing left need with
  | nil => exact ⟨rfl, Nat.zero_add left, fun w hw => absurd hw not_mem_nil⟩
  | cons v vs ih =>
    obtain ⟨hv, hrest⟩ := forall_mem_cons.mp hvs
    obtain ⟨hhead, htail⟩ := (smallFits_cons bound left v vs).mp h
    obtain ⟨w, need', heq, hsize, hw⟩ := allocSmallVol_fits hv need hleft hhead
    obtain ⟨hacc, hsum, hall⟩ := ih hrest _ need' (by omega) htail
    rw [smallPass_cons heq, leftOver_cons]
    refine ⟨hacc, ?_, forall_mem_cons.mpr ⟨hw, hall⟩⟩
    rw [map_cons, sum_cons]
    omega

theorem smallPass_exceeds (hvs : ∀ v ∈ vs, Ready bound v) (left : Nat) (need : Int) (hleft : left < 2 ^ 63)
    (h : ¬ SmallFits bound left vs) :
    left < ((smallPass bound left need vs).2.map (smallSize bound)).sum := by
  induction vs generalizing left need with
  | nil => exact absurd (fun i v hv => by cases hv) h
  | cons v vs ih =>
    obtain ⟨hv, hrest⟩ := forall_mem_cons.mp hvs
    by_cases hhead : v.isSmall bound = true → left < toU32 v.lbs → left < v.cache.cacheSize
    · obtain ⟨w, need', heq, hsize, -⟩ := allocSmallVol_fits hv need hleft hhead
      have hmore := ih hrest (left - smallNeed bound v) need' (by omega) fun htail =>
        h ((smallFits_cons bound left v vs).mpr ⟨hhead, htail⟩)
      rw [smallPass_cons heq, map_cons, sum_cons]
      omega
    · -- the volume gets what it asks for, and that is more than is left
      obtain ⟨hsmall, hless, hroom⟩ : v.isSmall bound = true ∧ left < toU32 v.lbs ∧ ¬left < v.cache.cacheSize := by
        simpa using hhead
      rcases allocSmallVol_cases bound hv.contents left need with ⟨hnot, -⟩ | ⟨-, w, left', heq, hcap, -, -, hcase⟩
      · rw [hsmall] at hnot
        cases hnot
      · have hw : w.isSmall bound = true := by rwa [isSmall, hcap]
        have hsize : w.cache.cacheSize = toU32 v.lbs := by
          rcases hcase with ⟨-, -, hsize⟩ | ⟨hlt, -, -⟩
          · exact hsize
          · exact absurd hlt hroom
        rw [smallPass, mapAccum, heq, map_cons, sum_cons, smallSize, if_pos hw, hsize]
        omega

end
end DiscoClient
