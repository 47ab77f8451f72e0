import DiscoClient.Metadata.MdRoundTrip
import DiscoClient.Space.SmQueryRuns

namespace DiscoClient
open Runs List

def bucketLbs (mds : List Metadata) : List (BitVec 64) :=
  mds.flatMap fun md => (List.range md.lbidLen).map fun i => md.lbidStart + BitVec.ofNat 64 i

def CoversRange (mds : List Metadata) (r : LbRange) : Prop :=
  bucketLbs mds = (List.range r.len).map fun i => BitVec.ofNat 64 (r.start + i)

/-- An LBID that is the same when it is kept in an int32_t. -/
def FitsInt32 (lb : Nat) : Prop := lb < 2 ^ 31 ∨ 2 ^ 64 - 2 ^ 31 ≤ lb

theorem signExtend_eq_iff {lb : Nat} (hlb : lb < 2 ^ 64) :
    (BitVec.ofNat 32 lb).signExtend 64 = BitVec.ofNat 64 lb ↔ FitsInt32 lb := by
  rw [← BitVec.toNat_inj, BitVec.toNat_signExtend, BitVec.msb_eq_decide, BitVec.toNat_setWidth, BitVec.toNat_ofNat,
    BitVec.toNat_ofNat, FitsInt32]
  by_cases hmsb : 2 ^ (32 - 1) ≤ lb % 2 ^ 32
  · rw [decide_eq_true hmsb, if_pos rfl]
    omega
  · rw [decide_eq_false hmsb, if_neg Bool.false_ne_true]
    omega

def Placed {α : Type} (g : Nat → BitVec 64) (md : Metadata) (seg : Nat × List α) : Prop :=
  md.lbidStart = g seg.1 ∧ md.lbidLen = seg.2.length

theorem segment_lbs_iff {n : Nat} (hn : n ≠ 0) (start : Nat) (b : BitVec 64) :
    ((List.range n).map fun i => b + BitVec.ofNat 64 i) = ((List.range n).map fun i => BitVec.ofNat 64 (start + i)) ↔
      b = BitVec.ofNat 64 start := by
  constructor
  · intro h
    have hfirst := congrArg (fun l => l[0]?) h
    simpa [List.getElem?_map, List.getElem?_range (Nat.pos_of_ne_zero hn)] using hfirst
  · rintro rfl
    exact map_congr_left fun i _ => (BitVec.ofNat_add start i).symm

theorem bucketLbs_eq_iff {α : Type} {g : Nat → BitVec 64} {start : Nat} {rs : List (List α)} (hrs : [] ∉ rs)
    {mds : List Metadata} (h : List.Forall₂ (Placed g) mds (placed start rs)) :
    bucketLbs mds = ((List.range rs.flatten.length).map fun i => BitVec.ofNat 64 (start + i)) ↔
      ∀ seg ∈ placed start rs, g seg.1 = BitVec.ofNat 64 seg.1 := by
  induction rs generalizing start mds with
  | nil =>
    cases h
    exact iff_of_true rfl fun seg hseg => absurd hseg not_mem_nil
  | cons r rs ih =>
    rw [placed] at h ⊢
    cases h with
    | cons hmd hmds =>
      rename_i md mds
      obtain ⟨hstart, hlen⟩ := hmd
      rw [mem_cons, not_or] at hrs
      have hn : r.length ≠ 0 := fun hzero => hrs.1 (eq_nil_of_length_eq_zero hzero).symm
      have hsplit : ((List.range (r :: rs).flatten.length).map fun i => BitVec.ofNat 64 (start + i)) =
          ((List.range r.length).map fun i => BitVec.ofNat 64 (start + i)) ++
            (List.range rs.flatten.length).map fun i => BitVec.ofNat 64 (start + r.length + i) := by
        rw [flatten_cons, length_append, range_add, map_append, map_map]
        simp only [Function.comp_def, Nat.add_assoc]
      have hlbs : bucketLbs (md :: mds) = ((List.range r.length).map fun i => g start + BitVec.ofNat 64 i) ++ bucketLbs mds := by
        rw [bucketLbs, flatMap_cons, hstart, hlen]
        rfl
      rw [hsplit, hlbs, forall_mem_cons, ← segment_lbs_iff hn, ← ih hrs.2 hmds]
      constructor
      · exact fun heq => append_inj heq (by rw [length_map, length_map])
      · rintro ⟨hfirst, hrest⟩
        rw [hfirst, hrest]

namespace MdCache

/-- _create_metadata succeeds with enough memory. -/
theorem createMetadata_plenty (items : List McacheItem) : (createMetadata ⟨true, fun _ => true⟩ items).isSome := by
  have hloop (fuel cnUsed : Nat) (items : List McacheItem) : (createMetadataLoop (fun _ => true) fuel cnUsed items).isSome := by
    induction fuel generalizing cnUsed items with
    | zero => rfl
    | succ fuel ih =>
      cases items with
      | nil => rfl
      | cons head items =>
        rw [createMetadataLoop, if_pos rfl, Option.isSome_map]
        exact ih _ _
  exact hloop _ _ _

/-- The loop of query_volume_MDCache ends, with a bucket for each segment. -/
theorem queryLoop_ends (fuel start : Nat) (items : List (Option McacheItem)) (mems : List CreateMem)
    (hfuel : items.length + mems.length ≤ fuel) :
    ∃ mds, queryLoop fuel (BitVec.ofNat 32 start) items mems = some mds ∧
      List.Forall₂ (Placed fun lb => (BitVec.ofNat 32 lb).signExtend 64) mds (placed start (runs Option.isSome items)) := by
  induction fuel generalizing start items mems with
  | zero =>
    obtain rfl := eq_nil_of_length_eq_zero (show items.length = 0 by omega)
    exact ⟨[], rfl, List.Forall₂.nil⟩
  | succ fuel ih =>
    cases items with
    | nil => exact ⟨[], rfl, List.Forall₂.nil⟩
    | cons first rest =>
      have hlen : 1 + (rest.takeWhile fun item => item.isSome == first.isSome).length =
          (first :: rest.takeWhile fun item => item.isSome == first.isSome).length := Nat.add_comm _ _
      have hshort : (rest.dropWhile fun item => item.isSome == first.isSome).length ≤ rest.length :=
        (dropWhile_sublist _).length_le
      have hsame := ih start (first :: rest)
      rw [length_cons] at hfuel hsame
      rw [runs_cons, placed] at hsame ⊢
      rw [queryLoop]
      simp only [getMaxSegLen, take_first_run, drop_first_run]
      rw [hlen, ← BitVec.ofNat_add]
      generalize (first :: rest.takeWhile fun item => item.isSome == first.isSome) = r at hsame ⊢
      generalize (rest.dropWhile fun item => item.isSome == first.isSome) = left at hshort hsame ⊢
      -- the bucket of the segment, with any items
      have hbucket (mems : List CreateMem) (hle : left.length + mems.length ≤ fuel) (its : List MdataItem) :
          ∃ mds, (queryLoop fuel (BitVec.ofNat 32 (start + r.length)) left mems).map
              ((⟨(BitVec.ofNat 32 start).signExtend 64, r.length, its⟩ : Metadata) :: ·) = some mds ∧
            List.Forall₂ (Placed fun lb => (BitVec.ofNat 32 lb).signExtend 64) mds
              ((start, r) :: placed (start + r.length) (runs Option.isSome left)) := by
        obtain ⟨mds, hloop, hmds⟩ := ih (start + r.length) left mems hle
        exact ⟨_, by rw [hloop]; rfl, hmds.cons ⟨rfl, rfl⟩⟩
      by_cases hfirst : first.isSome = true
      · rw [if_pos hfirst]
        cases hmd : createMetadata (mems.headD ⟨true, fun _ => true⟩) (r.filterMap id) with
        | none =>
          cases mems with
          | nil =>
            have hsome := createMetadata_plenty (r.filterMap id)
            rw [show createMetadata ⟨true, fun _ => true⟩ (r.filterMap id) = none from hmd] at hsome
            cases hsome
          | cons mem mems =>
            rw [length_cons] at hfuel
            exact hsame mems (by omega)
        | some raw => exact hbucket mems.tail (by rw [length_tail]; omega) _
      · rw [if_neg hfirst]
        exact hbucket mems (by omega) []

end MdCache

/-- Where query_volume_MDCache begins a bucket the LBID is the same in an int32_t: at the first LB, and
where an LB is cached and the one before is not, or the other way round. -/
def MdCache.StartsFit (c : MdCache) (r : LbRange) : Prop :=
  ∀ i, i < r.len → (i = 0 ∨ (c.itemAt (r.start + i)).isSome ≠ (c.itemAt (r.start + i - 1)).isSome) → FitsInt32 (r.start + i)

def SmCachePool.FirstTries (p : SmCachePool AsChunk) (r : LbRange) (mems : List CreateMem) : Prop :=
  FirstTry mems (hitRuns ((List.range' r.start r.len).map p.chunkOf))

/-- The range of an IO request: up to MAX_LBS_PER_IOR LBs. -/
structure QueryRange extends LbRange where
  pos : 0 < len
  le_max : len ≤ maxLbsPerIor

theorem begins_itemAt (c : MdCache) (r : LbRange) (i : Nat) :
    Begins Option.isSome ((List.range' r.start r.len).map c.itemAt) i ↔
      i < r.len ∧ (i = 0 ∨ (c.itemAt (r.start + i)).isSome ≠ (c.itemAt (r.start + i - 1)).isSome) := by
  have hget {j : Nat} (hj : j < r.len) :
      (((List.range' r.start r.len).map c.itemAt)[j]?).map Option.isSome = some (c.itemAt (r.start + j)).isSome := by
    rw [List.getElem?_map, List.getElem?_range' hj, Option.map_some, Option.map_some, Nat.one_mul]
  rw [Begins, length_map, length_range']
  refine and_congr_right fun hi => or_congr_right' fun hzero => ?_
  rw [hget hi, hget (show i - 1 < r.len by omega), show r.start + i - 1 = r.start + (i - 1) by omega, ne_eq, ne_eq,
    Option.some_inj]

/-- Every bucket of query_volume_MDCache begins where it should just when the starts fit. -/
theorem MdCache.startsFit_iff (c : MdCache) (r : LbRange) :
    (∀ seg ∈ placed r.start (runs Option.isSome ((List.range' r.start r.len).map c.itemAt)), FitsInt32 seg.1) ↔ c.StartsFit r := by
  have hmem := exists_mem_placed_runs Option.isSome r.start ((List.range' r.start r.len).map c.itemAt)
  constructor
  · intro h i hi hstart
    obtain ⟨run, hrun⟩ := (hmem (r.start + i)).mpr ⟨i, rfl, (begins_itemAt c r i).mpr ⟨hi, hstart⟩⟩
    exact h _ hrun
  · rintro h ⟨t, run⟩ hseg
    obtain ⟨i, rfl, hbegins⟩ := (hmem t).mp ⟨run, hseg⟩
    obtain ⟨hi, hstart⟩ := (begins_itemAt c r i).mp hbegins
    exact h i hi hstart

/-- What cache_find gives query_volume_MDCache: the items of the range, or nothing at all if the range ends at 2^64. -/
theorem MdCache.found_items (c : MdCache) {pins : Nat → Nat} (hc : ∀ p ∈ c.pool, p.Sound pins) (r : LbRange) :
    ∃ items, ((c.cacheFind r.start r.len).2.1.map fun slot => slot.bind (c.cacheFind r.start r.len).1.leafItem) = items ∧
      items.length = r.len ∧ (r.start + r.len = 2 ^ 64 ∨ items = (List.range' r.start r.len).map c.itemAt) := by
  rcases Nat.lt_or_eq_of_le r.end_le with hend | hend
  · exact ⟨_, cacheFind_items hc hend, by rw [length_map, length_range'], .inr rfl⟩
  · refine ⟨List.replicate r.len none, ?_, length_replicate, .inl hend⟩
    obtain ⟨pool, next, freed⟩ := c
    cases pool with
    | none => exact map_replicate
    | some p =>
      simp only [cacheFind, p.cacheFind_wrap hend]
      exact map_replicate

theorem mem_placed_range {items : List (Option McacheItem)} {r : LbRange} (hlen : items.length = r.len)
    {seg : Nat × List (Option McacheItem)} (hseg : seg ∈ placed r.start (runs Option.isSome items)) :
    r.start ≤ seg.1 ∧ seg.1 < r.start + r.len := by
  obtain ⟨i, hi, hbegins⟩ := (exists_mem_placed_runs Option.isSome _ _ seg.1).mp ⟨seg.2, hseg⟩
  have hlt := hbegins.1
  omega

/-- query_volume_MDCache ends, and covers its range just when the starts of its buckets fit into an int32_t. The last
LBs, of which it may find nothing, all do. -/
theorem MdCache.query_covers_iff (c : MdCache) {pins : Nat → Nat} (hc : ∀ p ∈ c.pool, p.Sound pins) (r : QueryRange)
    (queryCache : Bool) (mems : List CreateMem) {fuel : Nat} (hfuel : r.len + mems.length ≤ fuel) :
    ∃ d mds, c.queryVolumeMDCache r.start r.len queryCache mems fuel = some (d, mds) ∧
      (CoversRange mds r.toLbRange ↔ (queryCache = true → c.StartsFit r.toLbRange)) := by
  cases queryCache with
  | false =>
    refine ⟨c, _, rfl, iff_of_true ?_ fun h => by cases h⟩
    rw [CoversRange, bucketLbs, flatMap_singleton]
    exact map_congr_left fun i _ => (BitVec.ofNat_add r.start i).symm
  | true =>
    obtain ⟨items, hfound, hlen, hends⟩ := c.found_items hc r.toLbRange
    obtain ⟨mds, hloop, hmds⟩ := queryLoop_ends fuel r.start items mems (by omega)
    rw [← hfound] at hloop
    have hquery : ∃ d, c.queryVolumeMDCache r.start r.len true mems fuel = some (d, mds) := by
      simp only [queryVolumeMDCache, Bool.true_eq_false, if_false, hloop, Option.map_some]
      exact ⟨_, rfl⟩
    obtain ⟨d, hd⟩ := hquery
    refine ⟨d, mds, hd, ?_⟩
    have hcover := bucketLbs_eq_iff (nil_notMem_runs _ _) hmds
    rw [flatten_runs, hlen] at hcover
    have hle := r.end_le
    rw [CoversRange, hcover, forall_prop_of_true rfl,
      forall₂_congr fun seg hseg => signExtend_eq_iff (by have := mem_placed_range hlen hseg; omega)]
    rcases hends with hend | hitems
    · have hmax : r.len ≤ 33 := r.le_max
      have hfits {lb : Nat} (h : r.start ≤ lb) : FitsInt32 lb := .inr (by omega)
      exact iff_of_true (fun seg hseg => hfits (mem_placed_range hlen hseg).1) fun i _ _ => hfits (Nat.le_add_right _ _)
    · rw [hitems]
      exact c.startsFit_iff r.toLbRange

theorem hitRuns_eq_nil {slots : List (Option AsChunk)} (h : ∀ slot ∈ slots, slot = none) : hitRuns slots = [] := by
  refine filter_eq_nil_iff.mpr fun r hr => ?_
  obtain ⟨run, hrun, rfl⟩ := mem_map.mp hr
  have hempty : run.filterMap id = [] := filterMap_eq_nil_iff.mpr fun slot hslot =>
    h slot (by rw [← flatten_runs Option.isSome slots]; exact mem_flatten_of_mem hrun hslot)
  rw [decide_eq_true_eq, not_not]
  exact hempty

namespace SmCachePool
variable {p : SmCachePool AsChunk} {mds : List Metadata}

/-- smcache_query_MData ends with a bucket for each run of LBs; it returns the number of its buckets just
when no attempt fails. -/
theorem queryMData_ends (hp : p.Sound) (r : QueryRange) (mems : List CreateMem) {fuel : Nat} (hfuel : r.len + mems.length ≤ fuel) :
    ∃ ret mds, p.queryMData r.start r.len mems fuel = some (ret, mds) ∧ (ret = mds.length ↔ p.FirstTries r.toLbRange mems) ∧
      List.Forall₂ Made mds (placed r.start (runs Option.isSome ((List.range' r.start r.len).map p.chunkOf))) := by
  have hlen : ((List.range' r.start r.len).map p.chunkOf).length = r.len := by rw [length_map, length_range']
  rw [queryMData, hp.findAschunk r.toLbRange, FirstTries]
  by_cases hzero : ((List.range' r.start r.len).countP fun lb => (p.chunkOf lb).isSome) = 0
  · have hnone (slot) (hslot : slot ∈ (List.range' r.start r.len).map p.chunkOf) : slot = none := by
      obtain ⟨lb, hlb, rfl⟩ := mem_map.mp hslot
      exact Option.not_isSome_iff_eq_none.mp (countP_eq_zero.mp hzero lb hlb)
    have hone := runs_of_same Option.isSome (length_pos_iff.mp (hlen ▸ r.pos))
      fun x hx y hy => by rw [hnone x hx, hnone y hy]
    refine ⟨1, [⟨BitVec.ofNat 64 r.start, r.len, []⟩], if_pos hzero, iff_of_true rfl ?_, ?_⟩
    · rw [hitRuns_eq_nil hnone]
      exact firstTry_nil mems
    · rw [hone]
      refine List.Forall₂.cons ⟨rfl, hlen.symm, ?_⟩ List.Forall₂.nil
      exact (if_pos (filterMap_eq_nil_iff.mpr hnone)).mpr rfl
  · obtain ⟨mds, failed, hloop, hmade, hfailed⟩ := queryLoop_ends fuel r.start 0 ((List.range' r.start r.len).map p.chunkOf)
      mems (by rw [hlen]; exact hfuel)
    refine ⟨_, mds, (if_neg hzero).trans hloop, ?_, hmade⟩
    rw [← hfailed]
    omega

theorem coversRange_of_made {r : QueryRange}
    (hmade : List.Forall₂ Made mds (placed r.start (runs Option.isSome ((List.range' r.start r.len).map p.chunkOf)))) :
    CoversRange mds r.toLbRange := by
  have hplaced := hmade.imp fun md seg h => (⟨h.start, h.len⟩ : Placed (BitVec.ofNat 64) md seg)
  have hcover := bucketLbs_eq_iff (nil_notMem_runs _ _) hplaced
  rw [flatten_runs, length_map, length_range'] at hcover
  exact hcover.mpr fun _ _ => rfl

end SmCachePool

/-- Both queries end whatever memory they find. The buckets of query_volume_MDCache cover the range, and
smcache_query_MData, whose buckets do, returns their number, just when every bucket of the first begins at
an LBID that an int32_t holds and no attempt of the second to make metadata fails. -/
theorem md_queries_cover_iff (r : QueryRange) (c : MdCache) (pins : Nat → Nat) (hc : ∀ p ∈ c.pool, p.Sound pins)
    (queryCache : Bool) (mems : List CreateMem) (calls : List (SmCacheCall AsChunk)) (smMems : List CreateMem) (fuel : Nat)
    (hfuel : r.len + mems.length + smMems.length ≤ fuel) :
    ∃ d mds ret sms, c.queryVolumeMDCache r.start r.len queryCache mems fuel = some (d, mds) ∧
      (SmCacheCall.run calls).queryMData r.start r.len smMems fuel = some (ret, sms) ∧
      ((CoversRange mds r.toLbRange ∧ CoversRange sms r.toLbRange ∧ ret = sms.length) ↔
        (queryCache = true → c.StartsFit r.toLbRange) ∧ (SmCacheCall.run calls).FirstTries r.toLbRange smMems) := by
  obtain ⟨d, mds, hquery, hcover⟩ := c.query_covers_iff hc r queryCache mems (show r.len + mems.length ≤ fuel by omega)
  obtain ⟨ret, sms, hsm, hret, hmade⟩ := SmCachePool.queryMData_ends (SmCacheCall.run_spec calls).1 r smMems
    (show r.len + smMems.length ≤ fuel by omega)
  refine ⟨d, mds, ret, sms, hquery, hsm, ?_⟩
  rw [hcover, hret]
  exact and_congr_right fun _ => and_iff_right (SmCachePool.coversRange_of_made hmade)

def chunkOfFive : AsChunk := ⟨1, 5, 1, 100, [⟨1, 2, 3, 4⟩], .allocated⟩

def chunkOfThirteen : AsChunk := ⟨1, 13, 2, 100, [⟨1, 2, 3, 4⟩], .allocated⟩

theorem twelve_pos : 0 < (LbRange.small 12 3).len := Nat.succ_pos 2

theorem twelve_le_max : (LbRange.small 12 3).len ≤ maxLbsPerIor := by decide

def lbsTwelve : QueryRange := ⟨.small 12 3, twelve_pos, twelve_le_max⟩

theorem hitRuns_twelve : hitRuns ((List.range' lbsTwelve.start lbsTwelve.len).map
    (SmCacheCall.run [.add chunkOfThirteen (.small 13 2)]).chunkOf) = [[chunkOfThirteen, chunkOfThirteen]] := by
  rw [(SmCacheCall.run_spec _).2]
  decide

/-- LBs 12 and 13 are in the metadata cache, whose query fails to get memory once, and 13 and 14 in a chunk. Both
queries cover the range, but when the chunk finds no memory at once its bucket is counted twice. -/
theorem md_queries_cover_twelve :
    let p := SmCacheCall.run [.add chunkOfThirteen (.small 13 2)]
    let fails : List CreateMem := [⟨false, fun _ => true⟩]
    (∃ d mds ret sms, MdCache.fourStored.queryVolumeMDCache 12 3 true fails 5 = some (d, mds) ∧
      p.queryMData 12 3 [] 5 = some (ret, sms) ∧ CoversRange mds lbsTwelve.toLbRange ∧
      CoversRange sms lbsTwelve.toLbRange ∧ ret = sms.length) ∧
    ∃ d mds ret sms, MdCache.fourStored.queryVolumeMDCache 12 3 true fails 5 = some (d, mds) ∧
      p.queryMData 12 3 fails 5 = some (ret, sms) ∧
      ¬ (CoversRange mds lbsTwelve.toLbRange ∧ CoversRange sms lbsTwelve.toLbRange ∧ ret = sms.length) := by
  have hfit : true = true → MdCache.fourStored.StartsFit lbsTwelve.toLbRange := fun _ i hi _ =>
    .inl (show 12 + i < 2 ^ 31 by have : i < 3 := hi; omega)
  refine ⟨?_, ?_⟩
  · obtain ⟨d, mds, ret, sms, hquery, hsm, hiff⟩ := md_queries_cover_iff lbsTwelve MdCache.fourStored _
      MdCache.fourStored_sound true [⟨false, fun _ => true⟩] [.add chunkOfThirteen (.small 13 2)] [] 5 (by decide)
    refine ⟨d, mds, ret, sms, hquery, hsm, hiff.mpr ⟨hfit, ?_⟩⟩
    change FirstTry [] (hitRuns _)
    rw [hitRuns_twelve, firstTry_cons]
    exact ⟨⟨rfl, fun _ _ => rfl⟩, firstTry_nil _⟩
  · obtain ⟨d, mds, ret, sms, hquery, hsm, hiff⟩ := md_queries_cover_iff lbsTwelve MdCache.fourStored _
      MdCache.fourStored_sound true [⟨false, fun _ => true⟩] [.add chunkOfThirteen (.small 13 2)]
      [⟨false, fun _ => true⟩] 5 (by decide)
    refine ⟨d, mds, ret, sms, hquery, hsm, fun hall => ?_⟩
    have htry : FirstTry [⟨false, fun _ => true⟩] (hitRuns _) := (hiff.mp hall).2
    rw [hitRuns_twelve, firstTry_cons] at htry
    exact Bool.false_ne_true htry.1.1

set_option maxRecDepth 4000 in
theorem findAschunk_five : (SmCacheCall.run [.add chunkOfFive (.small 5 1)]).findAschunk 5 1 = ([some chunkOfFive], 1) := by
  decide

/-- The chunk finds no memory at the first attempt: two buckets are counted and one is filled. And LB 2^31
comes back from the metadata cache as another one. -/
theorem md_query_counts_failed_attempt :
    (∃ mds, (SmCacheCall.run [.add chunkOfFive (.small 5 1)]).queryMData 5 1 [⟨false, fun _ => true⟩] 2 = some (2, mds) ∧
      mds.length = 1) ∧
    ∃ d, (⟨none, 0, []⟩ : MdCache).queryVolumeMDCache (2 ^ 31) 1 true [] 1 = some (d, [⟨0xffffffff80000000, 1, []⟩]) := by
  refine ⟨?_, _, rfl⟩
  rw [SmCachePool.queryMData, findAschunk_five]
  exact ⟨_, rfl, rfl⟩

end DiscoClient
