import DiscoClient.Common.CacheLookup
import DiscoClient.Lib.Slices
import DiscoClient.Metadata.MdCacheSettled
import DiscoClient.Metadata.MdRegroup

namespace DiscoClient
open List

theorem CachePool.Sound.nodup_keys {D : Type} {p : CachePool D} {pins : Nat → Nat} (h : p.Sound pins) :
    (p.entries.map Prod.fst).Nodup := by
  have hkeys : p.entries.map Prod.fst = p.lruList.map p.leafBlkid := by
    rw [CachePool.entries, map_filterMap, ← filterMap_eq_map]
    refine filterMap_congr fun id hid => ?_
    obtain ⟨d, hd⟩ := h.entry hid
    rw [hd]
    rfl
  rw [hkeys]
  refine List.Nodup.map_on (fun i hi j hj heq => ?_) h.nodup
  have hlook := h.lookup hi
  rw [heq, h.lookup hj] at hlook
  exact (Option.some.inj hlook).symm

structure MdUpdateMem.Plenty (env : MdUpdateMem) : Prop where
  chItem : ∀ i, env.chItem i = true
  leaf : ∀ i, env.mem.leaf i = true
  node : ∀ i, env.mem.node i = true

namespace MdCache
variable {c d e : MdCache} {pins : Nat → Nat} {start n k : Nat} {p q : CachePool McacheItem} {item : MdataItem}
  {env : MdUpdateMem}

def Recent (c : MdCache) (start : Nat) (lbs : List LbMeta) : Prop :=
  ∃ p, c.pool = some p ∧ ∀ i lb, lbs[i]? = some lb → ∃ it : McacheItem, it.lb = lb ∧
    (start + i, it) ∈ p.entries.take lbs.length

/-- A call of cache_update with enough memory: what it stores becomes the most recent. -/
private theorem cacheUpdate_recent (start : Nat) (hc : Consistent c pins) {mem : CachePool.UpdateMem}
    (hleaf : ∀ i, mem.leaf i = true) (hnode : ∀ i, mem.node i = true) (hp : c.pool = some p) (hsize : p.cacheSize ≠ 0)
    (items : List McacheItem) {m : Nat} (hfit : m + items.length ≤ p.cacheSize) :
    ∃ q, c.cacheUpdate mem start items = (some q, .ok, items.map some) ∧ q.cacheSize = p.cacheSize ∧
      (∀ e ∈ p.entries.take m, e.1 < start → e ∈ q.entries.take (m + items.length)) ∧
      ∀ i it, items[i]? = some it → (start + i, it) ∈ q.entries.take items.length := by
  obtain ⟨hsound, hsmall, hroom⟩ := hc.pool p hp
  obtain ⟨hr, ⟨ids, hleft⟩, hlru⟩ := hsound.reclaim hsmall hroom (n := items.length) (by omega)
  have hkept : (p.reclaim items.length).entries = p.entries.take (p.cacheSize - items.length) := by
    rw [CachePool.entries, hlru, hleft.entryOf, hsound.take_entries]
  obtain ⟨l, hl⟩ : ∃ l : LruMap Nat McacheItem, (p.reclaim items.length).entries = l.recent :=
    ⟨LruMap.ofRecent _ hr.nodup_keys, rfl⟩
  obtain ⟨q, hloop, -, hcap, -, hent⟩ := hr.updateLoop_ok mem hleaf hnode start items 0 .ok hl
  rw [Nat.add_zero] at hent
  have hkeys : ((items.zipIdx start).map Prod.swap).map Prod.fst = List.range' start items.length := by
    rw [map_map]
    exact zipIdx_map_snd start items
  have hlen : ((items.zipIdx start).map Prod.swap).length = items.length := by
    rw [length_map, length_zipIdx]
  refine ⟨q, ?_, hcap.trans hleft.cacheSize, fun e he hlt => ?_, fun i it hit => ?_⟩
  · simp only [cacheUpdate, hp, CachePool.cacheUpdate, if_neg (show ¬ (items.length > p.cacheSize ∨ p.cacheSize = 0) by omega),
      hloop, ite_self]
    rfl
  · rw [hent, ← hlen]
    refine LruMap.mem_take_storeAll _ _ ?_ fun f hf heq => ?_
    · rw [← hl, hkept, take_take, Nat.min_eq_left (by omega)]
      exact he
    · have hmem := mem_map_of_mem (f := Prod.fst) hf
      rw [hkeys, mem_range'_1] at hmem
      omega
  · rw [hent, ← hlen]
    refine LruMap.mem_take_storeAll_self _ ?_ ?_
    · rw [hkeys]
      exact nodup_range' 1
    · exact mem_map.mpr ⟨(it, start + i), mk_add_mem_zipIdx_iff_getElem?.mpr hit, rfl⟩

private theorem updateItem_recent (hc : Consistent c pins) {lbs : List LbMeta} (h : Recent c start lbs)
    (hitem : item.WellFormed) (henv : env.Plenty) (hlen : item.arrHbid.length < 2 ^ 11) {size : Nat} (hsize : size ≠ 0)
    (hcap : ∀ p ∈ c.pool, p.cacheSize = size) (hfit : lbs.length + item.arrHbid.length ≤ size) :
    Recent (c.updateItem (start + lbs.length) item env).1 start (lbs ++ item.lbs) ∧
      ∀ p ∈ (c.updateItem (start + lbs.length) item env).1.pool, p.cacheSize = size := by
  obtain ⟨p, hp, hrecent⟩ := h
  have hsplit := length_splitMetadata item c.nextItem
  have hlbs := hitem.splitMetadata hlen c.nextItem
  have hcapp := hcap p hp
  obtain ⟨q, hcall, hcapq, hold, hnew⟩ := cacheUpdate_recent (start + lbs.length) hc henv.leaf henv.node hp (by omega)
    (splitMetadata item c.nextItem) (m := lbs.length) (by omega)
  have hgot : ¬ allocChItemArr env.chItem item.arrHbid.length < item.arrHbid.length := by
    rw [allocChItemArr_lt]
    rintro ⟨i, -, hi⟩
    exact Bool.false_ne_true (hi.symm.trans (henv.chItem i))
  have hpool : (c.updateItem (start + lbs.length) item env).1.pool = some q := by
    simp only [MdCache.updateItem, hitem.valid, hgot, hcall, if_false, reduceCtorEq]
    rfl
  rw [hsplit] at hold hnew
  refine ⟨⟨q, hpool, fun i lb hi => ?_⟩, fun r hr => ?_⟩
  · rw [length_append, item.length_lbs]
    rcases Nat.lt_or_ge i lbs.length with hlt | hge
    · rw [List.getElem?_append_left hlt] at hi
      obtain ⟨it, hit, hmem⟩ := hrecent i lb hi
      exact ⟨it, hit, hold _ hmem (Nat.add_lt_add_left hlt start)⟩
    · rw [List.getElem?_append_right hge, ← hlbs, List.getElem?_map] at hi
      obtain ⟨it, hit, heq⟩ := Option.map_eq_some_iff.mp hi
      have hmem := hnew _ it hit
      rw [Nat.add_assoc, Nat.add_sub_cancel' hge] at hmem
      exact ⟨it, heq, (take_sublist_take_left (Nat.le_add_left _ _)).subset hmem⟩
  · rw [hpool] at hr
    rw [← Option.some.inj hr, hcapq, hcapp]

/-- _update_mdcache of well-formed metadata that the cache can hold. -/
private theorem updateMdcache_recent (hc : Consistent c pins) {lbs : List LbMeta} (h : Recent c start lbs)
    {items : List (MdataItem × MdUpdateMem)} (hitems : ∀ e ∈ items, e.1.WellFormed ∧ e.2.Plenty)
    (hmax : numLbs items < 2 ^ 11) {size : Nat} (hsize : size ≠ 0) (hcap : ∀ p ∈ c.pool, p.cacheSize = size)
    (hfit : lbs.length + numLbs items ≤ size) :
    Recent (c.updateMdcache (start + lbs.length) items).1 start (lbs ++ items.flatMap fun e => e.1.lbs) := by
  induction items generalizing c lbs with
  | nil =>
    rw [flatMap_nil, append_nil]
    exact h
  | cons head items ih =>
    obtain ⟨item, env⟩ := head
    have hsum : numLbs ((item, env) :: items) = item.arrHbid.length + numLbs items := sum_cons
    obtain ⟨hitem, henv⟩ : item.WellFormed ∧ env.Plenty := hitems _ mem_cons_self
    have hstep := (hc.updateItem (start + lbs.length) item env).updated.consistent
    obtain ⟨hrecent, hcap'⟩ := updateItem_recent hc h hitem henv (by omega) hsize hcap (by omega)
    have hlen : (lbs ++ item.lbs).length = lbs.length + item.arrHbid.length := by
      rw [length_append, item.length_lbs]
    have hrest := ih hstep hrecent (fun e he => hitems e (mem_cons_of_mem _ he)) (by omega) hcap' (by omega)
    rw [hlen, ← Nat.add_assoc, append_assoc] at hrest
    exact hrest

private theorem Recent.itemAt (hc : Consistent c pins) {lbs : List LbMeta} (h : Recent c start lbs) {i : Nat} {lb : LbMeta}
    (hi : lbs[i]? = some lb) : ∃ it, c.itemAt (start + i) = some it ∧ it.lb = lb := by
  obtain ⟨p, hp, hrecent⟩ := h
  obtain ⟨it, hit, hmem⟩ := hrecent i lb hi
  obtain ⟨id, hin, hent⟩ := mem_filterMap.mp (mem_of_mem_take hmem)
  refine ⟨it, (itemAt_eq_some hp).mpr ⟨id, ((hc.pool p hp).1.tree _ _).mpr ⟨hin, it, hent⟩, ?_⟩, hit⟩
  rw [hent]
  rfl

/-- cache_find gives the item of each key of the range. -/
theorem cacheFind_items (hs : ∀ p ∈ e.pool, p.Sound pins) {start n : Nat} (hend : start + n < 2 ^ 64) :
    ((e.cacheFind start n).2.1.map fun slot => slot.bind (e.cacheFind start n).1.leafItem) =
      (List.range' start n).map e.itemAt := by
  obtain ⟨pool, next, freed⟩ := e
  cases pool with
  | none =>
    have hnone : (List.range' start n).map (itemAt ⟨none, next, freed⟩) = List.replicate n none := by
      refine eq_replicate_iff.mpr ⟨by rw [length_map, length_range'], fun it hit => ?_⟩
      obtain ⟨k, -, rfl⟩ := mem_map.mp hit
      rfl
    rw [hnone]
    exact map_replicate
  | some p =>
    have hp := hs p rfl
    obtain ⟨-, ht⟩ := hp.touchLeaves (hp.mem_of_hits start n)
    simp only [cacheFind, hp.cacheFind start n hend, map_map]
    refine map_congr_left fun k hk => Option.bind_congr fun id hid => ?_
    have hent := congrArg (Option.map Prod.snd) (congrFun ht.entryOf id)
    rw [CachePool.entryOf, CachePool.entryOf, Option.map_map, Option.map_map] at hent
    exact hent

private theorem exists_items (start : Nat) {n : Nat} {lbs : List LbMeta} (hn : lbs.length = n)
    (h : ∀ i lb, lbs[i]? = some lb → ∃ it, e.itemAt (start + i) = some it ∧ it.lb = lb) :
    ∃ items : List McacheItem, (List.range' start n).map e.itemAt = items.map some ∧ items.map McacheItem.lb = lbs := by
  subst hn
  induction lbs generalizing start with
  | nil => exact ⟨[], rfl, rfl⟩
  | cons lb lbs ih =>
    obtain ⟨it, hit, hlb⟩ := h 0 lb rfl
    obtain ⟨items, hitems, hlbs⟩ := ih (start + 1) fun i lb hi => by
      have hnext := h (i + 1) lb hi
      rwa [show start + (i + 1) = start + 1 + i by omega] at hnext
    refine ⟨it :: items, ?_, by rw [map_cons, hlb, hlbs]⟩
    rw [length_cons, range'_succ, map_cons, hitems]
    exact congrArg (· :: _) hit

/-- Metadata stored with enough memory in a cache that can hold it comes back from a query of any part of
its range, as long as nothing happened to its keys: the items say about each LB what was stored. The last LB, 2^64 - 1,
is never found. -/
theorem query_returns_stored (hc : Consistent c pins) (items : List (MdataItem × MdUpdateMem)) (lbidS : Nat)
    (hitems : ∀ e ∈ items, e.1.WellFormed ∧ e.2.Plenty) (hmax : numLbs items ≤ maxLbsPerIor)
    (hend : lbidS + numLbs items < 2 ^ 64)
    (hpool : ∃ p, c.pool = some p ∧ numLbs items ≤ p.cacheSize) {pins' : Nat → Nat} (hs : ∀ p ∈ e.pool, p.Sound pins')
    (hkept : ∀ k, lbidS ≤ k → k < lbidS + numLbs items →
      e.itemAt k = (c.updateVolumeMDCache items lbidS (numLbs items) true false).1.1.itemAt k)
    (off len : Nat) (hin : off + len ≤ numLbs items) (mems : List CreateMem) (hmems : ∀ mem ∈ mems, mem.Plenty)
    (fuel : Nat) (hfuel : len ≤ fuel) :
    ∃ e' mds, e.queryVolumeMDCache (lbidS + off) len true mems fuel = some (e', mds) ∧
      (mds.flatMap fun md => md.items.flatMap MdataItem.lbs) = slice (items.flatMap fun e => e.1.lbs) off len := by
  obtain ⟨p, hp, hcap⟩ := hpool
  have hmax : numLbs items ≤ 33 := hmax
  have htotal : (items.flatMap fun e => e.1.lbs).length = numLbs items := by
    rw [length_flatMap, numLbs]
    exact congrArg List.sum (map_congr_left fun e _ => e.1.length_lbs)
  have hslice : (slice (items.flatMap fun e => e.1.lbs) off len).length = len := Slice.length_slice (by omega)
  -- every LB of the queried range has its item
  have hall : ∀ i lb, (slice (items.flatMap fun e => e.1.lbs) off len)[i]? = some lb →
      ∃ it, e.itemAt (lbidS + off + i) = some it ∧ it.lb = lb := by
    intro i lb hi
    have hlt : i < len := hslice ▸ (List.getElem?_eq_some_iff.mp hi).1
    have hempty : Recent c lbidS [] := ⟨p, hp, fun i lb hi => by cases hi⟩
    have hrecent := updateMdcache_recent hc hempty hitems (by omega) (show p.cacheSize ≠ 0 by omega)
      (fun q hq => by rw [Option.some.inj (hp.symm.trans hq)]) (by rw [length_nil]; omega)
    rw [length_nil, Nat.add_zero, nil_append] at hrecent
    rw [slice, List.getElem?_take_of_lt hlt, List.getElem?_drop] at hi
    obtain ⟨it, hit, hlb⟩ := hrecent.itemAt (hc.updateMdcache lbidS items).1.consistent hi
    refine ⟨it, ?_, hlb⟩
    rw [Nat.add_assoc, hkept _ (Nat.le_add_right _ _) (by omega)]
    exact hit
  obtain ⟨its, hits, hlbs⟩ := exists_items (lbidS + off) hslice hall
  have hlen : its.length = len := by
    have := congrArg List.length hlbs
    rwa [length_map, hslice] at this
  have hfits : ∀ it ∈ its, it.lb.Fits := by
    intro it hit
    have hmem := mem_map_of_mem (f := McacheItem.lb) hit
    rw [hlbs] at hmem
    obtain ⟨e, he, hin⟩ := mem_flatMap.mp (mem_of_mem_drop (mem_of_mem_take hmem))
    exact (hitems e he).1.lbs_fit _ hin
  obtain ⟨mds, hloop, hmds⟩ := queryLoop_ok (BitVec.ofNat 32 (lbidS + off)) hmems (hlen ▸ hfuel) hfits (by omega)
  rw [← hits, ← cacheFind_items hs (by omega)] at hloop
  have hquery : ∃ e', e.queryVolumeMDCache (lbidS + off) len true mems fuel = some (e', mds) := by
    simp only [queryVolumeMDCache, Bool.true_eq_false, if_false, hloop, Option.map_some]
    exact ⟨_, rfl⟩
  obtain ⟨e', he'⟩ := hquery
  exact ⟨e', mds, he', hmds.trans hlbs⟩

def fourStored : MdCache :=
  (newCache.updateVolumeMDCache [(twoLbs, leafMem fun _ => true), (twoLbs, leafMem fun _ => true)] 10 4 true false).1.1

theorem fourStored_sound : ∀ p ∈ fourStored.pool, p.Sound fun _ => 0 := fun p hp =>
  ((consistent_newCache.updateMdcache 10 _).1.consistent.pool p hp).1

theorem wellFormed_twoLbs : twoLbs.WellFormed where
  valid := rfl
  counts := by decide
  fits loc hloc val hval := by
    obtain rfl : loc = ⟨1, 2, [composeTriple 3 2 4]⟩ := mem_singleton.mp hloc
    obtain rfl : val = composeTriple 3 2 4 := mem_singleton.mp hval
    have htriple : decomposeTriple (composeTriple 3 2 4) = ⟨3, 2, 4⟩ :=
      decomposeTriple_composeTriple 3 (by simp) (by simp)
    rw [Fits, lbLen, htriple]
    simp

/-- A query of the middle two. -/
theorem query_returns_stored_middle : ∃ e' mds, fourStored.queryVolumeMDCache 11 2 true [] 2 = some (e', mds) ∧
    (mds.flatMap fun md => md.items.flatMap MdataItem.lbs) = [(8, [⟨1, 2, 3, 5⟩]), (7, [⟨1, 2, 3, 4⟩])] := by
  have hitems : ∀ e ∈ [(twoLbs, leafMem fun _ => true), (twoLbs, leafMem fun _ => true)], e.1.WellFormed ∧ e.2.Plenty := by
    intro e he
    obtain rfl : e = (twoLbs, leafMem fun _ => true) := by simpa using he
    exact ⟨wellFormed_twoLbs, fun _ => rfl, fun _ => rfl, fun _ => rfl⟩
  exact query_returns_stored consistent_newCache _ 10 hitems (by decide) (by decide) ⟨_, rfl, by decide⟩ fourStored_sound
    (fun _ _ _ => rfl) 1 2 (by decide) [] (fun mem hmem => absurd hmem not_mem_nil) 2 le_rfl

end MdCache
end DiscoClient
