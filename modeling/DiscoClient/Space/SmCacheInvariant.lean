import DiscoClient.Space.SmCache
import Mathlib.Algebra.BigOperators.Group.List.Basic

namespace DiscoClient.SmCachePool
open SmCacheItem List
variable {C : Type} {p : SmCachePool C} {citem : SmCacheItem C} {entry : Option C} {k lb len : Nat}

def chunkOf (p : SmCachePool C) (lb : Nat) : Option C :=
  (p.cachePool.lookup (smGetCachekeyLbid lb)).bind fun citem => citem.userData[lb % numEntryBucket]?.join

structure Bucket (k : Nat) (citem : SmCacheItem C) : Prop where
  key : citem.userKey = k
  pos : 0 < k
  length : citem.userData.length = numEntryBucket
  num : citem.numItems = citem.used

def total (tree : OrderedMap (SmCacheItem C)) : Nat := (tree.entries.map fun e => e.2.used).sum

/-- The tree, the list and the counts, which are of type uint32_t, agree. -/
structure Counted (p : SmCachePool C) : Prop where
  bucket : ∀ k citem, p.cachePool.lookup k = some citem → Bucket k citem
  lru : p.cacheLru.Perm (p.cachePool.entries.map Prod.fst)
  items : p.numCacheItems = toU32 (total p.cachePool)
  buckets : p.numCacheBuckets = toU32 p.cachePool.entries.length

theorem total_of_lookup {tree : OrderedMap (SmCacheItem C)} (h : tree.lookup k = some citem) :
    total tree = citem.used + total (tree.erase k) := by
  rw [total, ((tree.perm_erase h).map fun e => e.2.used).sum_eq, map_cons, sum_cons]
  rfl

theorem total_insert (tree : OrderedMap (SmCacheItem C)) (k : Nat) (citem : SmCacheItem C) :
    total (tree.insert k citem) = citem.used + total (tree.erase k) := by
  rw [total, (tree.perm_insert.map fun e => e.2.used).sum_eq, map_cons, sum_cons]
  rfl

theorem cachekey_eq (lb : Nat) : smGetCachekeyLbid lb = lb / numEntryBucket + 1 := by
  rw [smGetCachekeyLbid, Nat.shiftRight_eq_div_pow]
  rfl

theorem cachekey_pos (lb : Nat) : 0 < smGetCachekeyLbid lb := Nat.succ_pos _

theorem mem_piece (hpage : lb % numEntryBucket + len ≤ numEntryBucket) (b : Nat) :
    (smGetCachekeyLbid b = smGetCachekeyLbid lb ∧ lb % numEntryBucket ≤ b % numEntryBucket ∧
      b % numEntryBucket < lb % numEntryBucket + len) ↔ lb ≤ b ∧ b < lb + len := by
  rw [cachekey_eq, cachekey_eq]
  rw [show numEntryBucket = 128 from rfl] at *
  omega

theorem countP_replicate_none (n : Nat) : (List.replicate n (none : Option C)).countP Option.isSome = 0 := by
  rw [countP_eq_zero]
  intro x hx
  rw [eq_of_mem_replicate hx]
  exact Bool.false_ne_true

theorem Bucket.allocBucket (hk : 0 < k) : Bucket k (allocBucket k : SmCacheItem C) where
  key := rfl
  pos := hk
  length := length_replicate
  num := (countP_replicate_none _).symm

theorem Bucket.used_le (h : Bucket k citem) : citem.used ≤ numEntryBucket := by
  rw [← h.length]
  exact countP_le_length

theorem entry_of_used_eq_zero (h : citem.used = 0) (i : Nat) : citem.userData[i]?.join = none := by
  cases hi : citem.userData[i]? with
  | none => rfl
  | some entry =>
    have hentry := countP_eq_zero.mp h entry (mem_of_getElem? hi)
    exact Option.not_isSome_iff_eq_none.mp hentry

theorem Bucket.putEntries (h : Bucket k citem) (entry : Option C) {offset num : Nat} {y : Int}
    (hpage : offset + len ≤ numEntryBucket) (hy : num = toU32 y) :
    Bucket k (citem.putEntries entry len offset num).1 ∧
      (citem.putEntries entry len offset num).2 =
        toU32 (y + ((citem.putEntries entry len offset num).1.used - citem.used)) := by
  have hlen : offset + len ≤ citem.userData.length := by rw [h.length]; exact hpage
  have hwrote := putEntries_wrote entry num hlen
  have hlength := hwrote.length.trans h.length
  have hx : citem.numItems = toU32 citem.used := by
    rw [h.num, toU32_of_lt (h.used_le.trans_lt (by decide))]
  obtain ⟨hnum, htotal⟩ := putEntries_counts entry hlen hx hy
  refine ⟨⟨hwrote.key.trans h.key, h.pos, hlength, ?_⟩, htotal⟩
  have hle : (citem.putEntries entry len offset num).1.used ≤ numEntryBucket := by
    rw [← hlength]
    exact countP_le_length
  rw [hnum, add_sub_cancel, toU32_of_lt (hle.trans_lt (by decide))]

namespace Counted

theorem queryBucketNolock (h : Counted p) (k : Nat) : p.queryBucketNolock k = p.cachePool.lookup k := by
  rw [SmCachePool.queryBucketNolock]
  cases hk : p.cachePool.lookup k with
  | some citem =>
    rw [p.cachePool.gang_one hk]
    exact if_neg (not_not.mpr (h.bucket _ _ hk).key)
  | none =>
    cases hgang : p.cachePool.gang k 1 with
    | nil => rfl
    | cons e rest =>
      have hmem : e ∈ p.cachePool.gang k 1 := by
        rw [hgang]
        exact mem_cons_self
      obtain ⟨-, he⟩ := p.cachePool.of_mem_gang hmem
      refine if_pos ?_
      rw [(h.bucket _ _ he).key]
      rintro rfl
      rw [hk] at he
      cases he

theorem newBucket (h : Counted p) (hk : 0 < k) (hnone : p.cachePool.lookup k = none) : Counted (p.newBucket k) := by
  have hperm := p.cachePool.perm_insert (k := k) (v := (allocBucket k : SmCacheItem C))
  rw [p.cachePool.entries_erase hnone] at hperm
  refine ⟨fun a c hc => ?_, ?_, ?_, ?_⟩
  · rcases p.cachePool.lookup_insert.mp hc with ⟨rfl, rfl⟩ | ⟨-, hc⟩
    · exact Bucket.allocBucket hk
    · exact h.bucket a c hc
  · refine List.Perm.trans ?_ (hperm.map Prod.fst).symm
    exact perm_append_singleton .. |>.trans (h.lru.cons k)
  · rw [SmCachePool.newBucket, total_insert, show (allocBucket k : SmCacheItem C).used = 0 from countP_replicate_none _,
      Nat.zero_add, total, p.cachePool.entries_erase hnone]
    exact h.items
  · rw [SmCachePool.newBucket, hperm.length_eq, h.buckets, toU32_toU32_add, length_cons]
    rfl

theorem putBucket (h : Counted p) (entry : Option C) (hc : p.cachePool.lookup (smGetCachekeyLbid lb) = some citem)
    (hpage : lb % numEntryBucket + len ≤ numEntryBucket) : Counted (p.putBucket citem entry lb len) := by
  obtain ⟨hbucket, htotal⟩ := (h.bucket _ _ hc).putEntries entry hpage h.items
  rw [SmCachePool.putBucket]
  generalize citem.putEntries entry len (lb % numEntryBucket) p.numCacheItems = out at *
  have hold := p.cachePool.perm_erase hc
  have hnew := p.cachePool.perm_insert (k := smGetCachekeyLbid lb) (v := out.1)
  refine ⟨fun a c hc => ?_, ?_, ?_, ?_⟩
  · rcases p.cachePool.lookup_insert.mp hc with ⟨rfl, rfl⟩ | ⟨-, hc⟩
    · exact hbucket
    · exact h.bucket a c hc
  · exact h.lru.trans ((hold.map Prod.fst).trans (hnew.map Prod.fst).symm)
  · rw [total_of_lookup hc] at htotal
    rw [htotal, total_insert]
    refine congrArg toU32 ?_
    push_cast
    ring
  · rw [h.buckets, hold.length_eq, hnew.length_eq, length_cons, length_cons]

theorem freeBucket (h : Counted p) (hc : p.cachePool.lookup k = some citem) (hused : citem.used = 0) :
    Counted (p.freeBucket k) := by
  have hperm := p.cachePool.perm_erase hc
  refine ⟨fun a c hc => h.bucket a c (p.cachePool.lookup_erase.mp hc).2, ?_, ?_, ?_⟩
  · have := (h.lru.trans (hperm.map Prod.fst)).erase k
    rwa [map_cons, erase_cons_head] at this
  · have hitems := h.items
    rw [total_of_lookup hc, hused, Nat.zero_add] at hitems
    exact hitems
  · rw [SmCachePool.freeBucket, h.buckets, sub_eq_add_neg, toU32_toU32_add, hperm.length_eq, length_cons]
    push_cast
    rw [Int.add_neg_cancel_right]

end Counted

theorem chunkOf_newBucket (hnone : p.cachePool.lookup k = none) : (p.newBucket k).chunkOf = p.chunkOf := by
  funext b
  rw [chunkOf, chunkOf, newBucket]
  by_cases hb : smGetCachekeyLbid b = k
  · rw [hb, OrderedMap.lookup_insert_self, hnone, Option.bind_some, Option.bind_none, allocBucket, List.getElem?_replicate]
    split <;> rfl
  · rw [OrderedMap.lookup_insert_of_ne _ hb]

theorem chunkOf_putBucket (h : Counted p) (entry : Option C)
    (hc : p.cachePool.lookup (smGetCachekeyLbid lb) = some citem)
    (hpage : lb % numEntryBucket + len ≤ numEntryBucket) (b : Nat) :
    (p.putBucket citem entry lb len).chunkOf b = if lb ≤ b ∧ b < lb + len then entry else p.chunkOf b := by
  have hlen : lb % numEntryBucket + len ≤ citem.userData.length := by
    rw [(h.bucket _ _ hc).length]
    exact hpage
  rw [chunkOf, chunkOf, putBucket, ← if_congr (mem_piece hpage b) rfl rfl]
  by_cases hb : smGetCachekeyLbid b = smGetCachekeyLbid lb
  · rw [hb, OrderedMap.lookup_insert_self, hc, Option.bind_some, Option.bind_some, (putEntries_wrote entry _ hlen).entries]
    exact if_congr (by rw [and_iff_right rfl]) rfl rfl
  · rw [OrderedMap.lookup_insert_of_ne _ hb, if_neg fun hmem => hb hmem.1]

theorem chunkOf_freeBucket (hc : p.cachePool.lookup k = some citem) (hused : citem.used = 0) :
    (p.freeBucket k).chunkOf = p.chunkOf := by
  funext b
  rw [chunkOf, chunkOf, freeBucket]
  by_cases hb : smGetCachekeyLbid b = k
  · rw [hb, OrderedMap.lookup_erase_self, hc, Option.bind_some, Option.bind_none]
    exact (entry_of_used_eq_zero hused _).symm
  · rw [OrderedMap.lookup_erase_of_ne _ hb]

end DiscoClient.SmCachePool
