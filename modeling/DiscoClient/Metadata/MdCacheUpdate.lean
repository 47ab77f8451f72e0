import DiscoClient.Common.CacheFailures
import DiscoClient.Metadata.MdCache

namespace DiscoClient.MdCache
open List
variable {c d : MdCache} {pins : Nat → Nat} {start n x k : Nat} {p : CachePool McacheItem} {item : McacheItem}

def numLbs (items : List (MdataItem × MdUpdateMem)) : Nat := (items.map fun e => e.1.arrHbid.length).sum

def leafData (c : MdCache) : List McacheItem := c.pool.elim [] fun p => p.leaves.map TreeLeaf.data

def tally (c : MdCache) (x : Nat) : Nat := (c.leafData.map McacheItem.addr).count x + c.freedItems.count x

structure Consistent (c : MdCache) (pins : Nat → Nat) : Prop where
  pool : ∀ p ∈ c.pool, p.Sound pins ∧ p.cacheSize < 2 ^ 31 ∧ p.lruList.length ≤ p.cacheSize
  fresh : ∀ x, c.nextItem ≤ x → c.tally x = 0
  unheld : ∀ id, c.leafData.length ≤ id → pins id = 0

theorem Consistent.addr_lt (h : Consistent c pins) {item : McacheItem} (hmem : item ∈ c.leafData) :
    item.addr < c.nextItem := by
  by_contra hge
  have hzero := h.fresh item.addr (Nat.le_of_not_lt hge)
  have hpos := count_pos_iff.mpr (mem_map_of_mem (f := McacheItem.addr) hmem)
  rw [tally] at hzero
  omega

theorem itemAt_eq_some (hd : d.pool = some p) {item : McacheItem} :
    d.itemAt k = some item ↔ ∃ id, p.tree.lookup k = some id ∧ (p.entryOf id).map Prod.snd = some item := by
  rw [itemAt, hd, Option.bind_some, Option.bind_eq_some_iff]
  refine exists_congr fun id => and_congr_right fun _ => ?_
  rw [CachePool.entryOf, Option.map_map]
  rfl

theorem mem_leafData (h : c.itemAt k = some item) : item ∈ c.leafData := by
  obtain ⟨p, hp, h⟩ := Option.bind_eq_some_iff.mp h
  obtain ⟨id, -, h⟩ := Option.bind_eq_some_iff.mp h
  obtain ⟨l, hl, rfl⟩ := Option.map_eq_some_iff.mp h
  rw [leafData, hp]
  exact mem_map_of_mem (mem_of_getElem? hl)

structure Inval (start n : Nat) (pins : Nat → Nat) (c d : MdCache) : Prop where
  pool : ∀ p ∈ d.pool, p.Sound pins ∧ p.cacheSize < 2 ^ 31 ∧ p.lruList.length ≤ p.cacheSize
  leafData : d.leafData = c.leafData
  itemAt : ∀ k item, d.itemAt k = some item → c.itemAt k = some item ∧ (k < start ∨ start + n ≤ k)

theorem Consistent.inval (h : Consistent c pins) (start n : Nat) :
    Inval start n pins c (c.invalVolumeMDCacheLBID start n) := by
  obtain ⟨pool, next, freed⟩ := c
  cases pool with
  | none => exact ⟨fun p hp => (by cases hp), rfl, fun k item hk => (by cases hk)⟩
  | some p =>
    obtain ⟨hp, hsmall, hroom⟩ := h.pool p rfl
    obtain ⟨hq, ⟨ids, hleft⟩, hent⟩ := hp.cacheInvalidateVolLB start n
    refine ⟨?_, hleft.items, ?_⟩
    · rintro q hq'
      obtain rfl : p.cacheInvalidateVolLB start n = q := Option.some.inj hq'
      refine ⟨hq, hleft.cacheSize ▸ hsmall, ?_⟩
      rw [hleft.cacheSize, hleft.lruList]
      exact (length_filter_le _ _).trans hroom
    · intro k item hk
      obtain ⟨id, hlook, hdata⟩ := (itemAt_eq_some rfl).mp hk
      refine ⟨(itemAt_eq_some rfl).mpr ⟨id, CachePool.Left.lookup_of_lookup hp hq hleft hlook, hleft.entryOf ▸ hdata⟩, ?_⟩
      obtain ⟨hin, d, hd⟩ := (hq.tree k id).mp hlook
      have hmem : (k, d) ∈ (p.cacheInvalidateVolLB start n).entries := mem_filterMap.mpr ⟨id, hin, hd⟩
      rw [hent, mem_filter, Bool.not_eq_true', Bool.and_eq_false_iff, decide_eq_false_iff_not,
        decide_eq_false_iff_not] at hmem
      have := hmem.2
      omega

theorem map_addr_splitMetadata (item : MdataItem) (a : Nat) :
    (splitMetadata item a).map McacheItem.addr = List.range' a item.arrHbid.length := by
  refine ext_getElem? fun i => ?_
  rw [splitMetadata, map_map, List.getElem?_map, List.getElem?_zipIdx]
  by_cases hi : i < item.arrHbid.length
  · rw [List.getElem?_range' hi, List.getElem?_eq_getElem hi]
    simp
  · rw [List.getElem?_eq_none (by omega), List.getElem?_eq_none (by rw [length_range']; omega)]
    rfl

theorem length_splitMetadata (item : MdataItem) (a : Nat) : (splitMetadata item a).length = item.arrHbid.length := by
  rw [splitMetadata, length_map, length_zipIdx]

theorem addr_splitMetadata {m : MdataItem} {a i : Nat} (h : (splitMetadata m a)[i]? = some item) :
    item.addr = a + i := by
  have hi := (List.getElem?_eq_some_iff.mp h).1
  rw [length_splitMetadata] at hi
  have hget := congrArg (fun l => l[i]?) (map_addr_splitMetadata m a)
  rw [List.getElem?_map, h, List.getElem?_range' hi] at hget
  simpa using hget

def leafAddrs (mem : CachePool.UpdateMem) (items : List McacheItem) : List Nat :=
  ((items.zipIdx).filter fun e => mem.leaf e.2).map fun e => e.1.addr

def noLeafAddrs (mem : CachePool.UpdateMem) (items : List McacheItem) : List Nat :=
  ((items.zipIdx).filter fun e => !mem.leaf e.2).map fun e => e.1.addr

private theorem filterMap_ite {α β : Type} (P : α → Bool) (f : α → β) (l : List α) :
    (l.filterMap fun e => if P e then some (f e) else none) = (l.filter P).map f := by
  induction l with
  | nil => rfl
  | cons e l ih => cases h : P e <;> simp [h, ih]

section
variable (mem : CachePool.UpdateMem) (items : List McacheItem)

theorem perm_leafAddrs : (leafAddrs mem items ++ noLeafAddrs mem items).Perm (items.map McacheItem.addr) := by
  have hsplit := (filter_append_perm (fun e : McacheItem × Nat => mem.leaf e.2) items.zipIdx).map fun e => e.1.addr
  rw [map_append] at hsplit
  refine hsplit.trans (List.Perm.of_eq ?_)
  conv_rhs => rw [← zipIdx_map_fst 0 items]
  rw [map_map]
  rfl

theorem leftSlots_update :
    leftSlots (items.zipIdx.map fun e => if mem.leaf e.2 then some e.1 else none) = leafAddrs mem items := by
  rw [leftSlots, leafAddrs, filterMap_map, ← filterMap_ite]
  refine filterMap_congr fun e _ => ?_
  cases hleaf : mem.leaf e.2 <;> simp [hleaf]

theorem freedSlots_update :
    freedSlots items (items.zipIdx.map fun e => if mem.leaf e.2 then some e.1 else none) = noLeafAddrs mem items := by
  have hzip : items.zip (items.zipIdx.map fun e => if mem.leaf e.2 then some e.1 else none) =
      items.zipIdx.map fun e => (e.1, if mem.leaf e.2 then some e.1 else none) := by
    conv_lhs =>
      arg 1
      rw [← zipIdx_map_fst 0 items]
    exact zip_map' ..
  rw [freedSlots, hzip, noLeafAddrs, filterMap_map, ← filterMap_ite]
  refine filterMap_congr fun e _ => ?_
  cases hleaf : mem.leaf e.2 <;> simp [hleaf]

theorem leafItems_addr : (CachePool.leafItems mem 0 items).map McacheItem.addr = leafAddrs mem items := by
  rw [CachePool.leafItems, map_map]
  rfl

theorem leafAddrs_eq_nil : leafAddrs mem items = [] ↔ ∀ i < items.length, mem.leaf i = false := by
  rw [leafAddrs, map_eq_nil_iff, filter_eq_nil_iff]
  constructor
  · intro h i hi
    have hmem : (items[i], i) ∈ items.zipIdx := mem_zipIdx_iff_getElem?.mpr (List.getElem?_eq_getElem hi)
    exact Bool.eq_false_iff.mpr (h _ hmem)
  · rintro h ⟨item, i⟩ hmem
    have hi := (List.getElem?_eq_some_iff.mp (mem_zipIdx_iff_getElem?.mp hmem)).1
    rw [h i hi]
    exact Bool.false_ne_true

end
end DiscoClient.MdCache
