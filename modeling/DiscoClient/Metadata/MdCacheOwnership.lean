import DiscoClient.Metadata.MdCacheUpdate
import Mathlib.Data.List.TakeWhile

namespace DiscoClient
open List

def CachePool.keepsKey {D : Type} (p : CachePool D) (n key : Nat) : Bool :=
  (p.lruList.take (p.cacheSize - n)).any fun id => p.leafBlkid id == key

namespace MdCache
variable {c d e : MdCache} {pins : Nat → Nat} {start n x k : Nat} {p q : CachePool McacheItem} {item : MdataItem}
  {env : MdUpdateMem}

structure Updated (pins : Nat → Nat) (start n : Nat) (c d : MdCache) : Prop where
  consistent : Consistent d pins
  next : c.nextItem ≤ d.nextItem
  old : ∀ x < c.nextItem, d.tally x = c.tally x
  leafData : c.leafData <+: d.leafData
  outside : ∀ k item, k < start ∨ start + n ≤ k → d.itemAt k = some item → c.itemAt k = some item

def Settled (c d : MdCache) : Prop := ∀ x, c.nextItem ≤ x → x < d.nextItem → d.tally x = 1

/-- A call of cache_update fails exactly if it leaves an item out. -/
def Reported (calls : List CacheCall) : Prop := ∀ call ∈ calls, call.ret.isNegative = true ↔ call.allStored = false

def Renewed (start n : Nat) (c d : MdCache) : Prop :=
  ∀ k item, start ≤ k → k < start + n → d.itemAt k = some item → c.nextItem ≤ item.addr

/-- One metadata item of an update is stored as a whole or not at all: it is not valid, its cache items find
no memory, its pool is missing or too small; or every leaf and node can be allocated; or no leaf can. An
item without LBs needs a pool. -/
def Clean (c : MdCache) (start : Nat) (item : MdataItem) (env : MdUpdateMem) : Prop :=
  item.valid = false ∨ (∃ i < item.arrHbid.length, env.chItem i = false) ∨
    (item.arrHbid = [] → ∃ p ∈ c.pool, p.cacheSize ≠ 0) ∧
    ∀ p ∈ c.pool, (item.arrHbid.length > p.cacheSize ∨ p.cacheSize = 0) ∨
      (∀ i < item.arrHbid.length, env.mem.leaf i = true ∧
        (env.mem.node i = true ∨ p.keepsKey item.arrHbid.length (start + i) = true)) ∨
      ∀ i < item.arrHbid.length, env.mem.leaf i = false

theorem allocChItemArr_lt {ok : Nat → Bool} : allocChItemArr ok n < n ↔ ∃ i < n, ok i = false := by
  have hprefix := takeWhile_prefix ok (l := List.range n)
  have hle := hprefix.length_le
  rw [length_range] at hle
  have hall : allocChItemArr ok n = n ↔ ∀ i < n, ok i = true := by
    rw [allocChItemArr]
    constructor
    · intro hlen i hi
      have heq := hprefix.eq_of_length (by rw [hlen, length_range])
      exact takeWhile_eq_self_iff.mp heq i (mem_range.mpr hi)
    · intro hok
      rw [takeWhile_eq_self_iff.mpr fun i hi => hok i (mem_range.mp hi), length_range]
  rw [lt_iff_le_and_ne, and_iff_right (show allocChItemArr ok n ≤ n from hle), ne_eq, hall]
  push Not
  exact exists_congr fun i => and_congr_right fun _ => Bool.eq_false_iff.symm

theorem updated_of_tally (start : Nat) (hpool : ∀ p ∈ d.pool, p.Sound pins ∧ p.cacheSize < 2 ^ 31 ∧ p.lruList.length ≤ p.cacheSize)
    (hc : Consistent c pins) {m : Nat} (hnext : d.nextItem = c.nextItem + m)
    (htally : ∀ x, d.tally x = (List.range' c.nextItem m).count x + c.tally x) (hleaves : c.leafData <+: d.leafData)
    (hitem : ∀ k item, k < start ∨ start + n ≤ k → d.itemAt k = some item → c.itemAt k = some item) :
    Updated pins start n c d ∧ Settled c d := by
  have hout {x : Nat} (hx : ¬ (c.nextItem ≤ x ∧ x < c.nextItem + m)) : (List.range' c.nextItem m).count x = 0 :=
    count_eq_zero_of_not_mem fun hmem => hx (mem_range'_1.mp hmem)
  refine ⟨⟨⟨hpool, ?_, fun id hid => hc.unheld id (hleaves.length_le.trans hid)⟩, by omega, ?_, hleaves, hitem⟩, ?_⟩
  · intro x hx
    rw [htally, hout (by omega), hc.fresh x (by omega)]
  · intro x hx
    rw [htally, hout (by omega), Nat.zero_add]
  · intro x hlo hhi
    rw [htally, hc.fresh x hlo]
    exact count_eq_one_of_mem (nodup_range' 1) (mem_range'_1.mpr ⟨hlo, hnext ▸ hhi⟩)

theorem Inval.updated (h : Inval start n pins c d) (hc : Consistent c pins) {freed : List Nat} {m : Nat}
    (hfreed : freed.Perm (List.range' c.nextItem m)) :
    Updated pins start n c ⟨d.pool, c.nextItem + m, freed ++ c.freedItems⟩ ∧
      Settled c ⟨d.pool, c.nextItem + m, freed ++ c.freedItems⟩ ∧
      Renewed start n c ⟨d.pool, c.nextItem + m, freed ++ c.freedItems⟩ := by
  have htally (x : Nat) : tally ⟨d.pool, c.nextItem + m, freed ++ c.freedItems⟩ x =
      (List.range' c.nextItem m).count x + c.tally x := by
    rw [tally, count_append, hfreed.count_eq, tally, ← h.leafData]
    exact Nat.add_left_comm _ _ _
  obtain ⟨hupd, hset⟩ := updated_of_tally (d := ⟨d.pool, c.nextItem + m, freed ++ c.freedItems⟩) (n := n)
    start h.pool hc rfl htally ⟨[], (append_nil _).trans h.leafData.symm⟩ fun k item _ hk => (h.itemAt k item hk).1
  refine ⟨hupd, hset, fun k item hlo hhi hk => ?_⟩
  have := (h.itemAt k item hk).2
  omega

theorem cacheUpdate_tried (hc : Consistent c pins) (hp : c.pool = some p) {items : List McacheItem}
    (hfit : ¬ (items.length > p.cacheSize ∨ p.cacheSize = 0)) (mem : CachePool.UpdateMem) (start : Nat) :
    ∃ q, c.cacheUpdate mem start items =
        (some q,
          if items = [] ∨ (p.reclaim items.length).stores mem start (items.length - 1) = true then .ok else .enomem,
          items.zipIdx.map fun e => if mem.leaf e.2 then some e.1 else none) ∧
      CachePool.Tried mem start 0 items pins (p.reclaim items.length) q := by
  obtain ⟨hsound, hsmall, hroom⟩ := hc.pool p hp
  obtain ⟨hr, -⟩ := hsound.reclaim hsmall hroom (n := items.length) (by omega)
  obtain ⟨q, hloop, hq⟩ := hr.updateLoop_tried mem start items 0 .ok
  refine ⟨q, ?_, hq⟩
  rw [Nat.zero_add, ← ite_or] at hloop
  simp only [cacheUpdate, hp, CachePool.cacheUpdate, if_neg hfit, hloop]
  rfl

structure Filled (mem : CachePool.UpdateMem) (start : Nat) (items : List McacheItem) (pins : Nat → Nat)
    (c d : MdCache) (stores : Nat → Bool) : Prop where
  pool : ∀ q ∈ d.pool, q.Sound pins ∧ q.cacheSize < 2 ^ 31 ∧ q.lruList.length ≤ q.cacheSize
  leafData : d.leafData = c.leafData ++ CachePool.leafItems mem 0 items
  outside : ∀ k item, k < start ∨ start + items.length ≤ k → d.itemAt k = some item → c.itemAt k = some item
  stored : ∀ i item, items[i]? = some item → stores i = true → d.itemAt (start + i) = some item
  missed : ∀ i item, i < items.length → stores i = false → d.itemAt (start + i) = some item →
    c.itemAt (start + i) = some item

theorem Consistent.filled (hc : Consistent c pins) (hp : c.pool = some p) {items : List McacheItem}
    {mem : CachePool.UpdateMem} (hfit : ¬ (items.length > p.cacheSize ∨ p.cacheSize = 0))
    (hq : CachePool.Tried mem start 0 items pins (p.reclaim items.length) q) (hd : d.pool = some q) :
    Filled mem start items pins c d ((p.reclaim items.length).stores mem start) := by
  obtain ⟨hsound, hsmall, hroom⟩ := hc.pool p hp
  obtain ⟨hr, ⟨ids, hleft⟩, hlru⟩ := hsound.reclaim hsmall hroom (n := items.length) (by omega)
  -- a key that keeps its leaf keeps its item
  have hold {k : Nat} {item : McacheItem} (hk : q.tree.lookup k = (p.reclaim items.length).tree.lookup k)
      (hitem : d.itemAt k = some item) : c.itemAt k = some item := by
    obtain ⟨id, hlook, hdata⟩ := (itemAt_eq_some hd).mp hitem
    rw [hk] at hlook
    rw [hq.old id (hr.live ((hr.tree _ _).mp hlook).1), hleft.entryOf] at hdata
    exact (itemAt_eq_some hp).mpr ⟨id, CachePool.Left.lookup_of_lookup hsound hr hleft hlook, hdata⟩
  refine ⟨?_, ?_, fun k item hk => hold (hq.outside k hk), fun i item hi hs => ?_, fun i item hi hs => hold ?_⟩
  · rintro r hr'
    obtain rfl : q = r := Option.some.inj (hd.symm.trans hr')
    have hlen := hq.length
    rw [hlru, length_take] at hlen
    rw [hq.cacheSize, hleft.cacheSize]
    exact ⟨hq.sound, hsmall, by omega⟩
  · rw [leafData, leafData, hd, hp]
    exact hq.leaves.trans (congrArg (· ++ _) hleft.items)
  · obtain ⟨id, -, hlook, hent⟩ := hq.stored i item hi (by rwa [Nat.zero_add])
    rw [Nat.zero_add] at hlook hent
    exact (itemAt_eq_some hd).mpr ⟨id, hlook, by rw [hent]; rfl⟩
  · have hmiss := hq.missed i hi (by rwa [Nat.zero_add])
    rwa [Nat.zero_add] at hmiss

theorem Filled.allStored_iff {mem : CachePool.UpdateMem} {stores : Nat → Bool} (hc : Consistent c pins)
    (h : Filled mem start (splitMetadata item c.nextItem) pins c d stores) :
    (((splitMetadata item c.nextItem).zipIdx start).all fun e => d.itemAt e.2 = some e.1) = true ↔
      ∀ i < item.arrHbid.length, stores i = true := by
  have hlen := length_splitMetadata item c.nextItem
  rw [all_eq_true]
  constructor
  · intro hall i hi
    obtain ⟨it, hit⟩ : ∃ it, (splitMetadata item c.nextItem)[i]? = some it :=
      ⟨_, List.getElem?_eq_getElem (by rw [hlen]; exact hi)⟩
    have hin := hall _ (mk_add_mem_zipIdx_iff_getElem?.mpr hit)
    by_contra hmiss
    -- the item would have been in the pool before it was allocated
    have hold := h.missed i it (hlen ▸ hi) (Bool.eq_false_iff.mpr hmiss) (of_decide_eq_true hin)
    have hlt := hc.addr_lt (mem_leafData hold)
    have hge := addr_splitMetadata hit
    omega
  · rintro hall ⟨it, k⟩ hmem
    obtain ⟨hle, hit⟩ := mk_mem_zipIdx_iff_le_and_getElem?_sub.mp hmem
    have hi : k - start < item.arrHbid.length := hlen ▸ (List.getElem?_eq_some_iff.mp hit).1
    have hin := h.stored _ it hit (hall _ hi)
    rw [Nat.add_sub_cancel' hle] at hin
    exact decide_eq_true hin

end MdCache
end DiscoClient
