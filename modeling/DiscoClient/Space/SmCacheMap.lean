import DiscoClient.Space.SmCacheInvariant

namespace DiscoClient
open List

inductive SmCacheCall (C : Type) where
  | add (chunk : C) (r : LbRange)
  | rm (r : LbRange)

variable {C : Type}

namespace SmCacheCall

def on : SmCacheCall C → SmCachePool C → SmCachePool C
  | add chunk r, p => p.addAschunk chunk r.start r.len
  | rm r, p => p.rmAschunk r.start r.len

def run (calls : List (SmCacheCall C)) : SmCachePool C := calls.foldl (fun p call => call.on p) SmCachePool.initCache

def after (call : SmCacheCall C) (lb : Nat) (chunk : Option C) : Option C :=
  match call with
  | add new r => if r.Covers lb then some new else chunk
  | rm r => if r.Covers lb then none else chunk

def lastAdded (calls : List (SmCacheCall C)) (lb : Nat) : Option C :=
  calls.foldl (fun chunk call => call.after lb chunk) none

end SmCacheCall

namespace SmCachePool
open SmCacheItem
variable {p : SmCachePool C} {citem : SmCacheItem C} {k lb len : Nat}

structure Sound (p : SmCachePool C) : Prop extends Counted p where
  nonempty : ∀ k citem, p.cachePool.lookup k = some citem → 0 < citem.used

theorem Sound.initCache : Sound (SmCachePool.initCache : SmCachePool C) := by
  have hnone (k : Nat) : (SmCachePool.initCache : SmCachePool C).cachePool.lookup k = none := rfl
  refine ⟨⟨fun k citem hc => ?_, List.Perm.nil, rfl, rfl⟩, fun k citem hc => ?_⟩
  · rw [hnone] at hc
    cases hc
  · rw [hnone] at hc
    cases hc

theorem used_pos (hc : p.cachePool.lookup (smGetCachekeyLbid lb) = some citem) (hsome : (p.chunkOf lb).isSome) :
    0 < citem.used := by
  rw [chunkOf, hc, Option.bind_some] at hsome
  refine Nat.pos_of_ne_zero fun hzero => ?_
  rw [entry_of_used_eq_zero hzero] at hsome
  cases hsome

theorem Counted.add_putBucket (h : Counted p) (chunk : C)
    (hother : ∀ k citem, k ≠ smGetCachekeyLbid lb → p.cachePool.lookup k = some citem → 0 < citem.used)
    (hc : p.cachePool.lookup (smGetCachekeyLbid lb) = some citem) (hlen : 0 < len)
    (hpage : lb % numEntryBucket + len ≤ numEntryBucket) : Sound (p.putBucket citem (some chunk) lb len) := by
  refine ⟨h.putBucket _ hc hpage, fun k c hk => ?_⟩
  by_cases heq : k = smGetCachekeyLbid lb
  · subst heq
    refine used_pos hk ?_
    rw [chunkOf_putBucket h _ hc hpage, if_pos ⟨Nat.le_refl lb, by omega⟩]
    rfl
  · rw [SmCachePool.putBucket, OrderedMap.lookup_insert_of_ne _ heq] at hk
    exact hother k c heq hk

theorem Sound.addPiece (h : Sound p) (chunk : C) (hlen : 0 < len) (hpage : lb % numEntryBucket + len ≤ numEntryBucket) :
    Sound (addPiece chunk lb len p) ∧
      ∀ b, (addPiece chunk lb len p).chunkOf b = if lb ≤ b ∧ b < lb + len then some chunk else p.chunkOf b := by
  rw [SmCachePool.addPiece, h.queryBucketNolock]
  cases hc : p.cachePool.lookup (smGetCachekeyLbid lb) with
  | some citem =>
    exact ⟨h.add_putBucket chunk (fun k c _ => h.nonempty k c) hc hlen hpage, chunkOf_putBucket h.toCounted _ hc hpage⟩
  | none =>
    have hnew := h.newBucket (cachekey_pos lb) hc
    have hlook := p.cachePool.lookup_insert_self (k := smGetCachekeyLbid lb)
      (v := (SmCacheItem.allocBucket (smGetCachekeyLbid lb) : SmCacheItem C))
    refine ⟨hnew.add_putBucket chunk (fun k c hne hk => ?_) hlook hlen hpage, fun b => ?_⟩
    · rw [newBucket, OrderedMap.lookup_insert_of_ne _ hne] at hk
      exact h.nonempty k c hk
    · rw [chunkOf_putBucket hnew _ hlook hpage, chunkOf_newBucket hc]

theorem Sound.rmPiece (h : Sound p) (hpage : lb % numEntryBucket + len ≤ numEntryBucket) :
    Sound (rmPiece lb len p) ∧
      ∀ b, (rmPiece lb len p).chunkOf b = if lb ≤ b ∧ b < lb + len then none else p.chunkOf b := by
  rw [SmCachePool.rmPiece, h.queryBucketNolock]
  cases hc : p.cachePool.lookup (smGetCachekeyLbid lb) with
  | none =>
    refine ⟨h, fun b => ?_⟩
    split_ifs with hb
    · have hkey := ((mem_piece hpage b).mpr hb).1
      change p.chunkOf b = none
      rw [chunkOf, hkey, hc, Option.bind_none]
    · rfl
  | some citem =>
    have hput := h.putBucket none hc hpage
    have hchunk := chunkOf_putBucket h.toCounted none hc hpage
    have hlook : (p.putBucket citem none lb len).cachePool.lookup (smGetCachekeyLbid lb) =
        some (citem.putEntries none len (lb % numEntryBucket) p.numCacheItems).1 := p.cachePool.lookup_insert_self
    have hother (k : Nat) (c : SmCacheItem C) (hne : k ≠ smGetCachekeyLbid lb)
        (hk : (p.putBucket citem none lb len).cachePool.lookup k = some c) : 0 < c.used := by
      rw [putBucket, OrderedMap.lookup_insert_of_ne _ hne] at hk
      exact h.nonempty k c hk
    have hnum := (hput.bucket _ _ hlook).num
    by_cases hzero : (citem.putEntries none len (lb % numEntryBucket) p.numCacheItems).1.numItems = 0
    · change Sound (if _ then _ else _) ∧ _
      simp only [if_pos hzero]
      rw [hnum] at hzero
      refine ⟨⟨hput.freeBucket hlook hzero, fun k c hk => ?_⟩, fun b => ?_⟩
      · obtain ⟨hne, hk⟩ := (OrderedMap.lookup_erase _).mp hk
        exact hother k c hne hk
      · rw [chunkOf_freeBucket hlook hzero, hchunk]
    · simp only [if_neg hzero]
      rw [hnum] at hzero
      refine ⟨⟨hput, fun k c hk => ?_⟩, hchunk⟩
      by_cases hne : k = smGetCachekeyLbid lb
      · subst hne
        rw [hlook] at hk
        cases hk
        exact Nat.pos_of_ne_zero hzero
      · exact hother k c hne hk

theorem walk_rule {S : Type} (piece : Nat → Nat → S → S) (P : Nat → S → Prop)
    (hpiece : ∀ x len s, 0 < len → x % numEntryBucket + len ≤ numEntryBucket → P x s → P (x + len) (piece x len s))
    (r : LbRange) {s : S} (hs : P r.start s) : P (r.start + r.len) (walk piece r.start r.len s) := by
  have hlen : (toS32 r.len).toNat = r.len := by
    have := r.len_lt
    rw [toS32_of_small (by omega) (by omega), Int.toNat_natCast]
  rw [walk, hlen]
  exact PageWalk.pageWalk_rule (by decide) P hpiece (Nat.le_refl _) hs

theorem walk_sets {piece : Nat → Nat → SmCachePool C → SmCachePool C} {entry : Option C}
    (hpiece : ∀ x len p, 0 < len → x % numEntryBucket + len ≤ numEntryBucket → Sound p →
      Sound (piece x len p) ∧ ∀ b, (piece x len p).chunkOf b = if x ≤ b ∧ b < x + len then entry else p.chunkOf b)
    (h : Sound p) (r : LbRange) :
    Sound (walk piece r.start r.len p) ∧
      ∀ b, (walk piece r.start r.len p).chunkOf b = if r.Covers b then entry else p.chunkOf b := by
  -- the LBs before x have their entry
  have hwalk := walk_rule piece (fun x q => r.start ≤ x ∧ Sound q ∧
      ∀ b, q.chunkOf b = if r.start ≤ b ∧ b < x then entry else p.chunkOf b) (fun x len q hlen hpage hq => ?_) r
    ⟨Nat.le_refl _, h, fun b => (if_neg (by omega)).symm⟩
  · exact hwalk.2
  · obtain ⟨hx, hsound, hset⟩ := hq
    obtain ⟨hsound', hset'⟩ := hpiece x len q hlen hpage hsound
    refine ⟨by omega, hsound', fun b => ?_⟩
    rw [hset', hset, ← ite_or]
    exact if_congr (by omega) rfl rfl

theorem Sound.addAschunk (h : Sound p) (chunk : C) (r : LbRange) :
    Sound (p.addAschunk chunk r.start r.len) ∧
      ∀ b, (p.addAschunk chunk r.start r.len).chunkOf b = if r.Covers b then some chunk else p.chunkOf b :=
  walk_sets (fun _ _ _ hlen hpage hq => hq.addPiece chunk hlen hpage) h r

theorem Sound.rmAschunk (h : Sound p) (r : LbRange) :
    Sound (p.rmAschunk r.start r.len) ∧
      ∀ b, (p.rmAschunk r.start r.len).chunkOf b = if r.Covers b then none else p.chunkOf b :=
  walk_sets (fun _ _ _ _ hpage hq => hq.rmPiece hpage) h r

theorem Counted.findPiece (h : Counted p) (hpage : lb % numEntryBucket + len ≤ numEntryBucket) (out : List (Option C) × Nat) :
    p.findPiece lb len out =
      (out.1 ++ (List.range' lb len).map p.chunkOf,
        out.2 + (List.range' lb len).countP fun b => (p.chunkOf b).isSome) := by
  have hkey (b : Nat) (hb : b ∈ List.range' lb len) : smGetCachekeyLbid b = smGetCachekeyLbid lb :=
    ((mem_piece hpage b).mpr (mem_range'_1.mp hb)).1
  have hcount : (List.range' lb len).countP (fun b => (p.chunkOf b).isSome) =
      ((List.range' lb len).map p.chunkOf).countP Option.isSome := by
    rw [countP_map]
    rfl
  rw [SmCachePool.findPiece, h.queryBucketNolock, hcount]
  cases hc : p.cachePool.lookup (smGetCachekeyLbid lb) with
  | none =>
    have hmap : (List.range' lb len).map p.chunkOf = List.replicate len none := by
      refine eq_replicate_iff.mpr ⟨by rw [length_map, length_range'], fun x hx => ?_⟩
      obtain ⟨b, hb, rfl⟩ := mem_map.mp hx
      rw [chunkOf, hkey b hb, hc, Option.bind_none]
    rw [hmap, countP_replicate_none]
    rfl
  | some citem =>
    have hmap : (List.range' lb len).map p.chunkOf =
        (List.range' (lb % numEntryBucket) len).map fun i => citem.userData[i]?.join := by
      rw [range'_eq_map_range, range'_eq_map_range, map_map, map_map]
      refine map_congr_left fun i hi => ?_
      have hi := mem_range.mp hi
      have hb := hkey (lb + i) (mem_range'_1.mpr (by omega))
      change p.chunkOf (lb + i) = _
      have hmod : (lb + i) % numEntryBucket = lb % numEntryBucket + i := by
        rw [show numEntryBucket = 128 from rfl] at *
        omega
      rw [chunkOf, hb, hc, Option.bind_some, hmod]
      rfl
    rw [hmap]

/-- smcache_find_aschunk reads the chunks of the run and counts them. -/
theorem Counted.findAschunk (h : Counted p) (r : LbRange) :
    p.findAschunk r.start r.len =
      ((List.range' r.start r.len).map p.chunkOf, (List.range' r.start r.len).countP fun lb => (p.chunkOf lb).isSome) := by
  have hwalk := walk_rule p.findPiece (fun x out => r.start ≤ x ∧ out =
      ((List.range' r.start (x - r.start)).map p.chunkOf,
        (List.range' r.start (x - r.start)).countP fun lb => (p.chunkOf lb).isSome)) (fun x len out hlen hpage hout => ?_) r
    (s := ([], 0)) ⟨Nat.le_refl _, by rw [Nat.sub_self]; rfl⟩
  · rw [Nat.add_sub_cancel_left] at hwalk
    exact hwalk.2
  · obtain ⟨hx, rfl⟩ := hout
    refine ⟨by omega, ?_⟩
    have hsplit : List.range' r.start (x + len - r.start) = List.range' r.start (x - r.start) ++ List.range' x len := by
      rw [show x + len - r.start = x - r.start + len by omega, ← range'_append_1, Nat.add_sub_cancel' hx]
    rw [h.findPiece hpage, hsplit, map_append, countP_append]

def mapped (p : SmCachePool C) : List Nat :=
  p.cachePool.entries.flatMap fun e =>
    e.2.userData.zipIdx.filterMap fun x => x.1.map fun _ => (e.1 - 1) * numEntryBucket + x.2

theorem mem_mapped_bucket {e : Nat × SmCacheItem C} :
    lb ∈ (e.2.userData.zipIdx.filterMap fun x => x.1.map fun _ => (e.1 - 1) * numEntryBucket + x.2) ↔
      ∃ i, (e.2.userData[i]?.join).isSome ∧ (e.1 - 1) * numEntryBucket + i = lb := by
  rw [mem_filterMap]
  constructor
  · rintro ⟨⟨x, i⟩, hx, hlb⟩
    obtain ⟨c, rfl, hlb⟩ := Option.map_eq_some_iff.mp hlb
    rw [mem_zipIdx_iff_getElem?] at hx
    exact ⟨i, by rw [hx]; rfl, hlb⟩
  · rintro ⟨i, hi, hlb⟩
    obtain ⟨c, hc⟩ := Option.isSome_iff_exists.mp hi
    refine ⟨(some c, i), ?_, Option.map_eq_some_iff.mpr ⟨c, rfl, hlb⟩⟩
    rw [mem_zipIdx_iff_getElem?]
    exact Option.join_eq_some_iff.mp hc

theorem Counted.bucket_of_mem (h : Counted p) {e : Nat × SmCacheItem C} (he : e ∈ p.cachePool.entries)
    (hlb : lb ∈ e.2.userData.zipIdx.filterMap fun x => x.1.map fun _ => (e.1 - 1) * numEntryBucket + x.2) :
    smGetCachekeyLbid lb = e.1 ∧ (e.2.userData[lb % numEntryBucket]?.join).isSome := by
  obtain ⟨i, hi, hlb⟩ := mem_mapped_bucket.mp hlb
  have hbucket := h.bucket e.1 e.2 (p.cachePool.lookup_eq_some.mpr he)
  have hlt : i < numEntryBucket := by
    obtain ⟨c, hc⟩ := Option.isSome_iff_exists.mp hi
    rw [← hbucket.length]
    exact (List.getElem?_eq_some_iff.mp (Option.join_eq_some_iff.mp hc)).1
  have hpos := hbucket.pos
  have hdiv : lb / numEntryBucket = e.1 - 1 ∧ lb % numEntryBucket = i := by
    rw [show numEntryBucket = 128 from rfl] at *
    omega
  rw [cachekey_eq, hdiv.1, hdiv.2]
  exact ⟨Nat.sub_add_cancel hpos, hi⟩

theorem Counted.mem_mapped (h : Counted p) (lb : Nat) : lb ∈ p.mapped ↔ (p.chunkOf lb).isSome := by
  rw [mapped, mem_flatMap, chunkOf]
  constructor
  · rintro ⟨e, he, hlb⟩
    obtain ⟨hkey, hsome⟩ := h.bucket_of_mem he hlb
    rw [hkey, p.cachePool.lookup_eq_some.mpr he]
    exact hsome
  · intro hsome
    cases hc : p.cachePool.lookup (smGetCachekeyLbid lb) with
    | none =>
      rw [hc] at hsome
      cases hsome
    | some citem =>
      rw [hc, Option.bind_some] at hsome
      refine ⟨_, p.cachePool.lookup_eq_some.mp hc, mem_mapped_bucket.mpr ⟨_, hsome, ?_⟩⟩
      rw [cachekey_eq, Nat.add_sub_cancel, Nat.mul_comm, Nat.div_add_mod]

theorem Counted.nodup_mapped (h : Counted p) : p.mapped.Nodup := by
  refine nodup_flatMap.mpr ⟨fun e _ => ?_, ?_⟩
  · have hidx : (e.2.userData.zipIdx).Pairwise fun x y => x.2 < y.2 := by
      rw [← pairwise_map, zipIdx_map_snd]
      exact pairwise_lt_range' 1
    refine pairwise_filterMap.mpr (hidx.imp fun {x y} hlt a ha b hb => ?_)
    obtain ⟨-, -, rfl⟩ := Option.map_eq_some_iff.mp ha
    obtain ⟨-, -, rfl⟩ := Option.map_eq_some_iff.mp hb
    omega
  · refine p.cachePool.sorted.imp_of_mem fun {e f} he hf hlt lb hle hlf => ?_
    have hkeys := (h.bucket_of_mem he hle).1.symm.trans (h.bucket_of_mem hf hlf).1
    exact absurd hkeys (Nat.ne_of_lt hlt)

theorem length_mapped (p : SmCachePool C) : p.mapped.length = total p.cachePool := by
  rw [mapped, total, length_flatMap]
  refine congrArg List.sum (map_congr_left fun e _ => ?_)
  have hfst : e.2.userData.countP Option.isSome = (e.2.userData.zipIdx.map Prod.fst).countP Option.isSome := by
    rw [zipIdx_map_fst]
  rw [length_filterMap_eq_countP, SmCacheItem.used, hfst, countP_map]
  exact countP_congr fun x _ => by rw [Option.isSome_map]; rfl

end SmCachePool

namespace SmCacheCall
open SmCachePool

theorem on_spec (call : SmCacheCall C) {p : SmCachePool C} (h : Sound p) :
    Sound (call.on p) ∧ ∀ lb, (call.on p).chunkOf lb = call.after lb (p.chunkOf lb) := by
  cases call with
  | add chunk r => exact h.addAschunk chunk r
  | rm r => exact h.rmAschunk r

theorem foldl_on_spec (calls : List (SmCacheCall C)) {p : SmCachePool C} (h : Sound p) :
    Sound (calls.foldl (fun p call => call.on p) p) ∧
      ∀ lb, (calls.foldl (fun p call => call.on p) p).chunkOf lb =
        calls.foldl (fun chunk call => call.after lb chunk) (p.chunkOf lb) := by
  induction calls generalizing p with
  | nil => exact ⟨h, fun _ => rfl⟩
  | cons call calls ih =>
    obtain ⟨hsound, hchunk⟩ := call.on_spec h
    obtain ⟨hrun, hrest⟩ := ih hsound
    refine ⟨hrun, fun lb => ?_⟩
    rw [foldl_cons, foldl_cons, hrest, hchunk]

theorem run_spec (calls : List (SmCacheCall C)) : Sound (run calls) ∧ (run calls).chunkOf = lastAdded calls := by
  obtain ⟨hsound, hchunk⟩ := foldl_on_spec calls Sound.initCache
  exact ⟨hsound, funext hchunk⟩

/-- The space cache is a map: a search gives each LB the chunk last added for it and not removed since, and
counts them; the counts, of type uint32_t, are those of the LBs with a chunk and of the buckets; the tree
and the list have the buckets that hold an LB. -/
theorem space_cache_is_map (calls : List (SmCacheCall C)) :
    (∀ r : LbRange, (run calls).findAschunk r.start r.len =
      ((List.range' r.start r.len).map (lastAdded calls),
        (List.range' r.start r.len).countP fun lb => (lastAdded calls lb).isSome)) ∧
    (∃ lbs : List Nat, lbs.Nodup ∧ (∀ lb, lb ∈ lbs ↔ (lastAdded calls lb).isSome) ∧
      (run calls).numCacheItems = toU32 lbs.length) ∧
    (run calls).numCacheBuckets = toU32 (run calls).cachePool.entries.length ∧
    (run calls).cacheLru.Perm ((run calls).cachePool.entries.map Prod.fst) ∧
    ∀ k, ((run calls).cachePool.lookup k).isSome ↔ ∃ lb, smGetCachekeyLbid lb = k ∧ (lastAdded calls lb).isSome := by
  obtain ⟨h, hchunk⟩ := run_spec calls
  rw [← hchunk]
  refine ⟨h.findAschunk, ⟨_, h.nodup_mapped, h.mem_mapped, ?_⟩, h.buckets, h.lru, fun k => ⟨fun hk => ?_, ?_⟩⟩
  · rw [length_mapped]
    exact h.items
  · obtain ⟨citem, hc⟩ := Option.isSome_iff_exists.mp hk
    -- an entry in use is that of an LB
    obtain ⟨entry, hmem, hentry⟩ := countP_pos_iff.mp (h.nonempty k citem hc)
    obtain ⟨i, hi⟩ := List.getElem?_of_mem hmem
    have hin : (k - 1) * numEntryBucket + i ∈ _ :=
      mem_mapped_bucket (e := (k, citem)).mpr ⟨i, by rw [hi]; exact hentry, rfl⟩
    have hlb := (h.mem_mapped _).mp (mem_flatMap.mpr ⟨_, (run calls).cachePool.lookup_eq_some.mp hc, hin⟩)
    exact ⟨_, (h.bucket_of_mem ((run calls).cachePool.lookup_eq_some.mp hc) hin).1, hlb⟩
  · rintro ⟨lb, rfl, hlb⟩
    cases hc : (run calls).cachePool.lookup (smGetCachekeyLbid lb) with
    | some citem => rfl
    | none =>
      rw [chunkOf, hc, Option.bind_none] at hlb
      cases hlb

end SmCacheCall
end DiscoClient
