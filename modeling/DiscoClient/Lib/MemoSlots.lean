import DiscoClient.Lib.Bitmap
import DiscoClient.Lib.Blocks

/-! Values of a function that are kept in slots of one size, with a bitmap of the slots that have been filled. -/

/-- The first n slots that the bitmap names hold the values of f, and every slot has room. -/
structure MemoSlots {α : Type*} (width n : Nat) (f : Nat → List α) (map : List (BitVec 8)) (cache : List α) : Prop where
  mapLen : n ≤ 8 * map.length
  cacheLen : n * width ≤ cache.length
  filled : ∀ i < n, Bitmap.bit map i = true → slice cache (i * width) width = f i

namespace MemoSlots
variable {α : Type*} {width n i : Nat} {f : Nat → List α} {map : List (BitVec 8)} {cache : List α}

theorem empty (hmap : n ≤ 8 * map.length) (hcache : n * width ≤ cache.length) (hzero : ∀ i < n, Bitmap.bit map i = false) :
    MemoSlots width n f map cache :=
  ⟨hmap, hcache, fun i hi hbit => absurd (hbit.symm.trans (hzero i hi)) (by simp)⟩

variable (h : MemoSlots width n f map cache)
include h

theorem exists_byte (hi : i < n) : ∃ data, map[i / 8]? = some data := by
  have hmap := h.mapLen
  exact ⟨_, List.getElem?_eq_getElem (show i / 8 < map.length by omega)⟩

theorem room (hi : i < n) : i * width + width ≤ cache.length :=
  (Nat.succ_mul i width ▸ Nat.mul_le_mul_right width hi).trans h.cacheLen

theorem again {data : BitVec 8} (hdata : map[i / 8]? = some data)
    (hbit : Bitmap.bit map i = true) : MemoSlots width n f (map.set (i / 8) (Bitmap.putBit data (i % 8) true)) cache := by
  refine ⟨h.mapLen.trans_eq (by rw [List.length_set]), h.cacheLen, fun j hj hset => h.filled j hj ?_⟩
  rw [Bitmap.bit_set true hdata] at hset
  split_ifs at hset with hij
  · exact hij ▸ hbit
  · exact hset

theorem fill (hi : i < n) (hwidth : (f i).length = width) {data : BitVec 8}
    (hdata : map[i / 8]? = some data) :
    MemoSlots width n f (map.set (i / 8) (Bitmap.putBit data (i % 8) true)) (overwrite cache (i * width) (f i)) := by
  have hroom := h.room hi
  refine ⟨h.mapLen.trans_eq (by rw [List.length_set]), ?_, fun j hj hset => ?_⟩
  · rw [Overwrite.length_overwrite (by rwa [hwidth])]
    exact h.cacheLen
  · rw [Bitmap.bit_set true hdata] at hset
    by_cases hij : i = j
    · have hself : slice (overwrite cache (i * width) (f i)) (i * width + 0) width = slice (f i) 0 width :=
        Overwrite.slice_of_mem (by omega) (by omega)
      rw [← hij]
      rwa [Nat.add_zero, slice, slice, List.drop_zero, List.take_of_length_le (Nat.le_of_eq hwidth)] at hself
    · rw [if_neg hij] at hset
      rw [Overwrite.slice_of_disjoint (by omega), h.filled j hj hset]
      -- slots do not overlap
      rcases Nat.lt_or_gt_of_ne hij with hlt | hgt
      · exact .inr (by rw [hwidth, ← Nat.succ_mul]; exact Nat.mul_le_mul_right width hlt)
      · exact .inl (by rw [← Nat.succ_mul]; exact Nat.mul_le_mul_right width hgt)

end MemoSlots
