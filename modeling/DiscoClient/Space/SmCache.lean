import DiscoClient.Common.SysDef
import DiscoClient.Lib.OrderedMap
import DiscoClient.Lib.PageWalk

/-! The space cache: the allocated chunks of the LBs that the name node does not know of yet
(metadata_manager/space_chunk_cache.c). The entries lie in buckets, which a radix tree finds and a list
links. Every operation holds cache_plock; the allocation of a bucket succeeds. -/
namespace DiscoClient

/-- NUM_ENTRY_BUCKET: a bucket has 1024 bytes, an entry 8. -/
def numEntryBucket : Nat := 1024 / 8

/-- SM_GET_CACHEKEY_LBID; the radix tree has no key 0. -/
def smGetCachekeyLbid (lb : Nat) : Nat := (lb >>> 7) + 1

/-- sm_cache_item_t: the chunk of each LB of a bucket, if it has one. -/
structure SmCacheItem (C : Type) where
  userData : List (Option C)
  userKey : Nat
  numItems : Nat

/-- sm_cache_pool_t; cacheLru has the keys of the buckets it links. -/
structure SmCachePool (C : Type) where
  cachePool : OrderedMap (SmCacheItem C)
  cacheLru : List Nat
  numCacheItems : Nat
  numCacheBuckets : Nat

/-- A run of LBs as the operations take it: its length is a positive int32_t or 0, its last LB a 64-bit number. -/
structure LbRange where
  start : Nat
  len : Nat
  len_lt : len < 2 ^ 31
  end_le : start + len ≤ 2 ^ 64

def LbRange.Covers (r : LbRange) (lb : Nat) : Prop := r.start ≤ lb ∧ lb < r.start + r.len

instance (r : LbRange) (lb : Nat) : Decidable (r.Covers lb) := inferInstanceAs (Decidable (_ ∧ _))

theorem LbRange.small_len (len : BitVec 8) : len.toNat < 2 ^ 31 := by omega

theorem LbRange.small_end (start len : BitVec 8) : start.toNat + len.toNat ≤ 2 ^ 64 := by omega

def LbRange.small (start len : BitVec 8) : LbRange := ⟨start.toNat, len.toNat, small_len len, small_end start len⟩

variable {C : Type}

namespace SmCacheItem

/-- _smcache_alloc_bucket. -/
def allocBucket (userKey : Nat) : SmCacheItem C := ⟨List.replicate numEntryBucket none, userKey, 0⟩

def countChange : Option C → Option C → Int
  | none, some _ => 1
  | some _, none => -1
  | _, _ => 0

/-- The loop over len entries of a bucket, with the pool's count of items: smcache_add_aschunk stores the chunk in
each, smcache_rm_aschunk 0. -/
def putEntries (entry : Option C) : Nat → Nat → SmCacheItem C → Nat → SmCacheItem C × Nat
  | 0, _, citem, numCacheItems => (citem, numCacheItems)
  | len + 1, offset, citem, numCacheItems =>
    putEntries entry len (offset + 1)
      ⟨citem.userData.set offset entry, citem.userKey,
        toU32 (citem.numItems + countChange citem.userData[offset]?.join entry)⟩
      (toU32 (numCacheItems + countChange citem.userData[offset]?.join entry))

end SmCacheItem

namespace SmCachePool
variable (cpool : SmCachePool C)

/-- smcache_init_cache. -/
def initCache : SmCachePool C := ⟨OrderedMap.empty, [], 0, 0⟩

/-- _smcache_query_bucket_nolock: the tree gives the first bucket from the key on. -/
def queryBucketNolock (bkIdx : Nat) : Option (SmCacheItem C) :=
  match cpool.cachePool.gang bkIdx 1 with
  | [] => none
  | e :: _ => if e.2.userKey ≠ bkIdx then none else some e.2

def newBucket (bkIdx : Nat) : SmCachePool C :=
  { cpool with
    cachePool := cpool.cachePool.insert bkIdx (SmCacheItem.allocBucket bkIdx)
    cacheLru := cpool.cacheLru ++ [bkIdx]
    numCacheBuckets := toU32 (cpool.numCacheBuckets + 1) }

def putBucket (citem : SmCacheItem C) (entry : Option C) (lb len : Nat) : SmCachePool C :=
  let out := citem.putEntries entry len (lb % numEntryBucket) cpool.numCacheItems
  { cpool with
    cachePool := cpool.cachePool.insert (smGetCachekeyLbid lb) out.1
    numCacheItems := out.2 }

def freeBucket (bkIdx : Nat) : SmCachePool C :=
  { cpool with
    cachePool := cpool.cachePool.erase bkIdx
    cacheLru := cpool.cacheLru.erase bkIdx
    numCacheBuckets := toU32 (cpool.numCacheBuckets - 1) }

/-- The body of the loop of smcache_add_aschunk. -/
def addPiece (chunk : C) (lb len : Nat) (cpool : SmCachePool C) : SmCachePool C :=
  match cpool.queryBucketNolock (smGetCachekeyLbid lb) with
  | some citem => cpool.putBucket citem (some chunk) lb len
  | none =>
    (cpool.newBucket (smGetCachekeyLbid lb)).putBucket (SmCacheItem.allocBucket (smGetCachekeyLbid lb)) (some chunk) lb len

/-- The body of the loop of smcache_rm_aschunk. -/
def rmPiece (lb len : Nat) (cpool : SmCachePool C) : SmCachePool C :=
  match cpool.queryBucketNolock (smGetCachekeyLbid lb) with
  | none => cpool
  | some citem =>
    if (citem.putEntries none len (lb % numEntryBucket) cpool.numCacheItems).1.numItems = 0 then
      (cpool.putBucket citem none lb len).freeBucket (smGetCachekeyLbid lb)
    else cpool.putBucket citem none lb len

/-- The body of the loop of _smcache_find_aschunk_nolock: the chunks so far, of an array that was cleared, and how many
of them there are. -/
def findPiece (lb len : Nat) (out : List (Option C) × Nat) : List (Option C) × Nat :=
  match cpool.queryBucketNolock (smGetCachekeyLbid lb) with
  | none => (out.1 ++ List.replicate len none, out.2)
  | some citem =>
    let piece := (List.range' (lb % numEntryBucket) len).map fun i => citem.userData[i]?.join
    (out.1 ++ piece, out.2 + piece.countP Option.isSome)

/-- The loop of the three operations: one bucket's part of the LBs at a time, while the length, an int32_t, is
positive. -/
def walk {S : Type} (piece : Nat → Nat → S → S) (lbS lbLen : Nat) (s : S) : S :=
  pageWalk numEntryBucket piece (toS32 lbLen).toNat lbS (toS32 lbLen).toNat s

/-- smcache_add_aschunk, for a chunk of the LBs [lbidS, lbidS + lbLen). -/
def addAschunk (chunk : C) (lbidS lbLen : Nat) : SmCachePool C := walk (addPiece chunk) lbidS lbLen cpool

/-- smcache_rm_aschunk. -/
def rmAschunk (lbS lbLen : Nat) : SmCachePool C := walk rmPiece lbS lbLen cpool

/-- smcache_find_aschunk. -/
def findAschunk (lbS lbLen : Nat) : List (Option C) × Nat := walk cpool.findPiece lbS lbLen ([], 0)

end SmCachePool

namespace SmCacheItem
variable {citem : SmCacheItem C}

def used (citem : SmCacheItem C) : Nat := citem.userData.countP Option.isSome

structure Wrote (entry : Option C) (len offset : Nat) (citem citem' : SmCacheItem C) : Prop where
  key : citem'.userKey = citem.userKey
  length : citem'.userData.length = citem.userData.length
  entries : ∀ i, citem'.userData[i]?.join =
    if offset ≤ i ∧ i < offset + len then entry else citem.userData[i]?.join

theorem countP_set {l : List (Option C)} {i : Nat} (hi : i < l.length) (entry : Option C) :
    ((l.set i entry).countP Option.isSome : Int) = l.countP Option.isSome + countChange l[i]?.join entry := by
  induction l generalizing i with
  | nil => exact absurd hi (Nat.not_lt_zero i)
  | cons old l ih =>
    cases i with
    | zero => cases old <;> cases entry <;> simp [countChange]
    | succ i =>
      have hrest := ih (Nat.lt_of_succ_lt_succ hi)
      rw [List.set_cons_succ, List.countP_cons, List.countP_cons, List.getElem?_cons_succ]
      push_cast
      omega

theorem putEntries_wrote (entry : Option C) {len offset : Nat} (numCacheItems : Nat)
    (h : offset + len ≤ citem.userData.length) :
    Wrote entry len offset citem (citem.putEntries entry len offset numCacheItems).1 := by
  induction len generalizing citem offset numCacheItems with
  | zero => exact ⟨rfl, rfl, fun i => by rw [if_neg (by omega)]; rfl⟩
  | succ len ih =>
    rw [putEntries]
    generalize hnext : (⟨citem.userData.set offset entry, citem.userKey,
      toU32 (citem.numItems + countChange citem.userData[offset]?.join entry)⟩ : SmCacheItem C) = next
    have hdata : next.userData = citem.userData.set offset entry := by rw [← hnext]
    have hlen : next.userData.length = citem.userData.length := by rw [hdata, List.length_set]
    have hrest := ih (toU32 (numCacheItems + countChange citem.userData[offset]?.join entry))
      (show offset + 1 + len ≤ next.userData.length by omega)
    refine ⟨hrest.key.trans (by rw [← hnext]), hrest.length.trans hlen, fun i => ?_⟩
    rw [hrest.entries, hdata, List.getElem?_set]
    by_cases hi : offset = i
    · subst hi
      rw [if_neg (by omega), if_pos rfl, if_pos (by omega), if_pos (by omega)]
      rfl
    · rw [if_neg hi]
      exact if_congr (by omega) rfl rfl

theorem putEntries_counts (entry : Option C) {len offset num : Nat} {x y : Int} (h : offset + len ≤ citem.userData.length)
    (hx : citem.numItems = toU32 x) (hy : num = toU32 y) :
    (citem.putEntries entry len offset num).1.numItems =
        toU32 (x + ((citem.putEntries entry len offset num).1.used - citem.used)) ∧
      (citem.putEntries entry len offset num).2 =
        toU32 (y + ((citem.putEntries entry len offset num).1.used - citem.used)) := by
  induction len generalizing citem offset num x y with
  | zero => simpa [putEntries] using ⟨hx, hy⟩
  | succ len ih =>
    rw [putEntries]
    generalize hd : countChange citem.userData[offset]?.join entry = d
    generalize hnext : (⟨citem.userData.set offset entry, citem.userKey, toU32 (citem.numItems + d)⟩ : SmCacheItem C) = next
    have hused : (next.used : Int) = citem.used + d := by
      rw [← hnext, ← hd]
      exact countP_set (by omega) entry
    have hlen : offset + 1 + len ≤ next.userData.length := by
      rw [← hnext, List.length_set]
      omega
    have hx' : next.numItems = toU32 (x + d) := by
      rw [← hnext, hx, toU32_toU32_add]
    have hy' : toU32 (num + d) = toU32 (y + d) := by rw [hy, toU32_toU32_add]
    have hrest := ih hlen hx' hy'
    rw [hused] at hrest
    rw [hrest.1, hrest.2]
    refine ⟨congrArg toU32 (by omega), congrArg toU32 (by omega)⟩

end SmCacheItem
end DiscoClient
