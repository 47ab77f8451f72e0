import DiscoClient.Common.CacheLookup
import DiscoClient.Common.CacheUpdate
import DiscoClient.Lib.GuardedMachine
import Mathlib.Algebra.BigOperators.Group.List.Basic
import Mathlib.Data.List.Perm.Basic

namespace DiscoClient
open List

structure CacheRun (D : Type) where
  pool : CachePool D
  held : List (List (Option Nat))

inductive CacheEvent (D : Type) where
  | update (start : Nat) (items : List D)
  | find (start count : Nat)
  | put (n : Nat)
  | invalidate (start count : Nat)
  | invalidateAll
  deriving DecidableEq, Repr

namespace CacheRun
variable {D : Type} {s : CacheRun D} {m : LruMap Nat D} {id : Nat}

def create (cacheSize : Nat) : CacheRun D := ⟨CachePool.create cacheSize, []⟩

def plenty : CachePool.UpdateMem := ⟨fun _ => true, fun _ => true⟩

def step (s : CacheRun D) : CacheEvent D → CacheRun D
  | .update start items => { s with pool := (s.pool.cacheUpdate plenty start items).1 }
  | .find start count =>
    { pool := (s.pool.cacheFind start count).1, held := (s.pool.cacheFind start count).2.1 :: s.held }
  | .put n => { pool := s.pool.cachePut ((s.held[n]?).getD []), held := s.held.eraseIdx n }
  | .invalidate start count => { s with pool := s.pool.cacheInvalidateVolLB start count }
  | .invalidateAll => { s with pool := s.pool.cacheInvalidateVol }

/-- Keys are 64-bit numbers, and cache_find takes the end of its range for one. The counter of the leaves is an
int. -/
def enabled (s : CacheRun D) : CacheEvent D → Prop
  | .put n => n < s.held.length
  | .update start items => start + items.length ≤ 2 ^ 64 ∧
      (s.pool.cacheSize < 2 ^ 31 ∨ s.pool.lruList.length + items.length < 2 ^ 31)
  | .find start count => start + count < 2 ^ 64
  | .invalidate start count => start + count ≤ 2 ^ 64
  | .invalidateAll => True

instance decidableEnabled (s : CacheRun D) : ∀ e, Decidable (s.enabled e)
  | .put _ | .find _ _ => inferInstanceAs (Decidable (_ < _))
  | .update _ _ => inferInstanceAs (Decidable (_ ∧ _))
  | .invalidate _ _ => inferInstanceAs (Decidable (_ ≤ _))
  | .invalidateAll => inferInstanceAs (Decidable True)

def machine (D : Type) : GuardedMachine (CacheRun D) (CacheEvent D) := ⟨enabled, step⟩

instance decidableMachine (s : CacheRun D) (e : CacheEvent D) : Decidable ((machine D).enabled s e) :=
  decidableEnabled s e

def lruStep (cacheSize : Nat) (m : LruMap Nat D) : CacheEvent D → LruMap Nat D
  | .update start items =>
    if items.length > cacheSize ∨ cacheSize = 0 then m
    else (m.evict (m.recent.length + items.length - cacheSize)).storeAll ((items.zipIdx start).map Prod.swap)
  | .find start count => m.touchAll (List.range' start count)
  | .put _ => m
  | .invalidate start count => m.keep fun e => !(decide (start ≤ e.1) && decide (e.1 < start + count))
  | .invalidateAll => m.keep fun _ => false

def pins (held : List (List (Option Nat))) (id : Nat) : Nat := (held.map fun b => b.count (some id)).sum

structure Refines (s : CacheRun D) (m : LruMap Nat D) : Prop where
  keys : ∀ k, (s.pool.tree.lookup k).isSome ↔ ∃ v, (k, v) ∈ m.recent
  order : s.pool.entries = m.recent
  listed : s.pool.lruList.length = m.recent.length
  num : s.pool.cacheNum = m.recent.length
  size : m.recent.length ≤ s.pool.cacheSize
  found : ∀ start count, start + count < 2 ^ 64 →
    ((s.pool.cacheFind start count).2.1.map fun b => b.bind fun id => (s.pool.leaves[id]?).map TreeLeaf.data) =
      (List.range' start count).map m.lookup
  evicted : ∀ n ≤ s.pool.cacheSize, ∀ e ∈ (s.pool.reclaim n).entries, ∀ f ∈ s.pool.entries,
    f ∉ (s.pool.reclaim n).entries → m.uses.idxOf e.1 < m.uses.idxOf f.1
  held : ∀ b ∈ s.held, ∀ id, some id ∈ b → id ∉ s.pool.freedLeaves
  freed : ∀ id < s.pool.leaves.length, s.pool.freedLeaves.count id =
    if id ∈ s.pool.lruList ∨ ∃ b ∈ s.held, some id ∈ b then 0 else 1

structure Inv (size : Nat) (s : CacheRun D) (m : LruMap Nat D) : Prop where
  sound : CachePool.Sound s.pool (pins s.held)
  order : s.pool.entries = m.recent
  cacheSize : s.pool.cacheSize = size
  room : s.pool.lruList.length ≤ size

namespace Inv
variable {size : Nat}

theorem create (size : Nat) : Inv size (create size : CacheRun D) LruMap.empty :=
  ⟨CachePool.Sound.create size, rfl, rfl, Nat.zero_le _⟩

theorem length (h : Inv size s m) : s.pool.lruList.length = m.recent.length := by
  rw [← h.order, h.sound.length_entries]

theorem reclaim (h : Inv size s m) (hsize : size < 2 ^ 32) {n : Nat} (hn : n ≤ size)
    (hfit : size < 2 ^ 31 ∨ s.pool.lruList.length + n < 2 ^ 31) :
    CachePool.Sound (s.pool.reclaim n) (pins s.held) ∧ (∃ ids, CachePool.Left s.pool (s.pool.reclaim n) ids) ∧
      (s.pool.reclaim n).lruList = s.pool.lruList.take (size - n) := by
  have hroom := h.room
  have hcs := h.cacheSize
  by_cases hsmall : size < 2 ^ 31
  · obtain ⟨hq, hleft, hlru⟩ := h.sound.reclaim (n := n) (by omega) (by omega) (by omega)
    exact ⟨hq, hleft, hcs ▸ hlru⟩
  · rw [CachePool.reclaim_of_large (by omega) (by omega)]
    exact ⟨h.sound, ⟨[], .nil s.pool⟩, (take_of_length_le (by omega)).symm⟩

theorem entries_reclaim (h : Inv size s m) (hsize : size < 2 ^ 32) {n : Nat} (hn : n ≤ size)
    (hfit : size < 2 ^ 31 ∨ s.pool.lruList.length + n < 2 ^ 31) :
    (s.pool.reclaim n).entries = (m.evict (m.recent.length + n - size)).recent := by
  have hroom := h.room
  have hlen := h.length
  obtain ⟨-, ⟨_, hleft⟩, hlru⟩ := h.reclaim hsize hn hfit
  rw [CachePool.entries, hlru, hleft.entryOf, h.sound.take_entries, h.order]
  change _ = m.recent.take (m.recent.length - (m.recent.length + n - size))
  by_cases hfull : size ≤ m.recent.length + n
  · rw [show m.recent.length - (m.recent.length + n - size) = size - n by omega]
  · rw [take_of_length_le (by omega), take_of_length_le (by omega)]

theorem update (h : Inv size s m) (hsize : size < 2 ^ 32) {start : Nat} {items : List D}
    (he : s.enabled (.update start items)) :
    Inv size (s.step (.update start items)) (lruStep size m (.update start items)) := by
  rw [CacheRun.step, lruStep, CachePool.cacheUpdate, h.cacheSize]
  by_cases hbig : items.length > size ∨ size = 0
  · rw [if_pos hbig, if_pos hbig]
    exact h
  · rw [if_neg hbig, if_neg hbig]
    have hn : items.length ≤ size := by omega
    have hfit := he.2
    rw [h.cacheSize] at hfit
    obtain ⟨hq, ⟨_, hleft⟩, hlru⟩ := h.reclaim hsize hn hfit
    obtain ⟨r, hloop, hr, hcap', hlen, hent⟩ :=
      hq.updateLoop_ok plenty (fun _ => rfl) (fun _ => rfl) start items 0 .ok (h.entries_reclaim hsize hn hfit)
    rw [hloop]
    refine ⟨hr, hent, by rw [hcap', hleft.cacheSize, h.cacheSize], hlen.trans ?_⟩
    rw [hlru, length_take]
    omega

private theorem count_filterMap {f : Nat → Option Nat} (ks : List Nat) :
    (ks.filterMap f).count id = (ks.map f).count (some id) := by
  induction ks with
  | nil => rfl
  | cons k ks ih =>
    rw [map_cons]
    cases hk : f k with
    | none => rw [filterMap_cons_none hk, ih, count_cons_of_ne (by simp)]
    | some i =>
      rw [filterMap_cons_some hk, count_cons, count_cons, ih]
      simp

section

variable (h : Inv size s m)
include h

theorem lookup_isSome (k : Nat) : (m.lookup k).isSome = (s.pool.tree.lookup k).isSome := by
  rw [Bool.eq_iff_iff, Option.isSome_iff_exists, Option.isSome_iff_exists]
  constructor
  · rintro ⟨d, hd⟩
    rw [LruMap.lookup_eq_some, ← h.order] at hd
    obtain ⟨id, hid, hent⟩ := mem_filterMap.mp hd
    exact ⟨id, (h.sound.tree k id).mpr ⟨hid, d, hent⟩⟩
  · rintro ⟨id, hid⟩
    obtain ⟨hin, d, hd⟩ := (h.sound.tree k id).mp hid
    refine ⟨d, m.lookup_eq_some.mpr ?_⟩
    rw [← h.order]
    exact mem_filterMap.mpr ⟨id, hin, hd⟩

theorem find {start count : Nat} (hend : start + count < 2 ^ 64) :
    Inv size (s.step (.find start count)) (lruStep size m (.find start count)) := by
  have hits : ∀ e ∈ s.pool.tree.hits start count, s.pool.tree.lookup e.1 = some e.2 :=
    fun e he => (s.pool.tree.mem_hits.mp he).2
  obtain ⟨hq, ht⟩ := h.sound.touchLeaves (h.sound.mem_of_hits start count)
  have hpins : CachePool.addPins (pins s.held) ((s.pool.tree.hits start count).map Prod.snd) =
      pins ((List.range' start count).map s.pool.tree.lookup :: s.held) := by
    funext id
    rw [CachePool.addPins, OrderedMap.values_hits, count_filterMap, pins, pins, map_cons, sum_cons, Nat.add_comm]
  have hent := h.sound.entries_touchLeaves m h.order hits
  rw [OrderedMap.keys_hits] at hent
  simp only [← h.lookup_isSome] at hent
  rw [LruMap.touchAll_filter] at hent
  rw [CacheRun.step, h.sound.cacheFind start count hend]
  rw [hpins] at hq
  have hlen : (s.pool.touchLeaves ((s.pool.tree.hits start count).map Prod.snd)).lruList.length =
      s.pool.lruList.length :=
    ((perm_ext_iff_of_nodup hq.nodup h.sound.nodup).mpr ht.mem).length_eq
  exact ⟨hq, hent, ht.cacheSize.trans h.cacheSize, hlen ▸ h.room⟩

theorem put {n : Nat} (hn : n < s.held.length) :
    Inv size (s.step (.put n)) (lruStep size m (.put n)) := by
  have hpins (id : Nat) : pins s.held id = pins (s.held.eraseIdx n) id + s.held[n].count (some id) := by
    have hperm := (getElem_cons_eraseIdx_perm hn).map fun b : List (Option Nat) => b.count (some id)
    rw [pins, ← hperm.sum_eq, map_cons, sum_cons, Nat.add_comm]
    rfl
  obtain ⟨hq, hframe⟩ := h.sound.cachePut _ hpins
  rw [CacheRun.step, List.getElem?_eq_getElem hn]
  refine ⟨hq, ?_, hframe.cacheSize.trans h.cacheSize, ?_⟩
  · exact (congrArg₂ List.filterMap hframe.entryOf hframe.lruList).trans h.order
  · exact hframe.lruList ▸ h.room

theorem invalidate (start count : Nat) :
    Inv size (s.step (.invalidate start count)) (lruStep size m (.invalidate start count)) := by
  obtain ⟨hq, ⟨_, hleft⟩, hent⟩ := h.sound.cacheInvalidateVolLB start count
  have hlen := hq.length_entries
  rw [hent] at hlen
  have hle : (s.pool.cacheInvalidateVolLB start count).lruList.length ≤ s.pool.entries.length :=
    hlen ▸ length_filter_le _ _
  refine ⟨hq, ?_, hleft.cacheSize.trans h.cacheSize, ?_⟩
  · exact hent.trans (congrArg _ h.order)
  · exact (hle.trans_eq h.sound.length_entries).trans h.room

theorem invalidateAll :
    Inv size (s.step .invalidateAll) (lruStep size m .invalidateAll) := by
  obtain ⟨-, hq, hcap, hnil⟩ := h.sound.cacheInvalidateVol
  refine ⟨hq, ?_, hcap.trans h.cacheSize, ?_⟩
  · change (s.pool.cacheInvalidateVol).lruList.filterMap _ = m.recent.filter _
    rw [hnil, filterMap_nil, filter_eq_nil_iff.mpr (by simp)]
  · change (s.pool.cacheInvalidateVol).lruList.length ≤ _
    rw [hnil]
    exact Nat.zero_le _

theorem step (hsize : size < 2 ^ 32) (e : CacheEvent D) (he : s.enabled e) :
    Inv size (s.step e) (lruStep size m e) := by
  cases e with
  | update start items => exact h.update hsize he
  | find start count => exact h.find he
  | put n => exact h.put he
  | invalidate start count => exact h.invalidate start count
  | invalidateAll => exact h.invalidateAll

end

private theorem pins_pos {held : List (List (Option Nat))} : 0 < pins held id ↔ ∃ b ∈ held, some id ∈ b := by
  rw [pins, List.sum_pos_iff_exists_pos_nat]
  constructor
  · rintro ⟨n, hn, hpos⟩
    obtain ⟨b, hb, rfl⟩ := mem_map.mp hn
    exact ⟨b, hb, count_pos_iff.mp hpos⟩
  · rintro ⟨b, hb, hid⟩
    exact ⟨_, mem_map_of_mem hb, count_pos_iff.mpr hid⟩

private theorem lookup_data (h : Inv size s m) (k : Nat) :
    ((s.pool.tree.lookup k).bind fun id => (s.pool.leaves[id]?).map TreeLeaf.data) = m.lookup k := by
  refine Option.ext fun d => ?_
  rw [LruMap.lookup_eq_some, ← h.order, CachePool.entries, mem_filterMap, Option.bind_eq_some_iff]
  constructor
  · rintro ⟨id, hk, hd⟩
    obtain ⟨hin, d', hd'⟩ := (h.sound.tree k id).mp hk
    refine ⟨id, hin, hd'.trans ?_⟩
    have hdata := congrArg (Option.map Prod.snd) hd'
    rw [CachePool.entryOf, Option.map_map] at hdata
    rw [← Option.some.inj (hdata.symm.trans hd)]
  · rintro ⟨id, hin, hd⟩
    refine ⟨id, (h.sound.tree k id).mpr ⟨hin, d, hd⟩, ?_⟩
    have hdata := congrArg (Option.map Prod.snd) hd
    rwa [CachePool.entryOf, Option.map_map] at hdata

theorem refines (h : Inv size s m) (hsize : size < 2 ^ 32) : Refines s m where
  keys k := by
    rw [← h.lookup_isSome, Option.isSome_iff_exists]
    exact exists_congr fun v => m.lookup_eq_some
  order := h.order
  listed := h.length
  num := by rw [h.sound.num, h.length]
  size := by
    rw [h.cacheSize, ← h.length]
    exact h.room
  found start count hend := by
    rw [h.sound.cacheFind start count hend, map_map]
    exact map_congr_left fun k _ => h.lookup_data k
  evicted n hn e he f hf hout := by
    by_cases hsmall : size < 2 ^ 31
    · rw [h.entries_reclaim hsize (h.cacheSize ▸ hn) (.inl hsmall)] at he hout
      exact m.evict_oldest he (h.order ▸ hf) hout
    · have hcs := h.cacheSize
      rw [CachePool.reclaim_of_large (by omega) (by omega)] at hout
      exact absurd hf hout
  held b hb id hid := h.sound.lives.not_freed_of_held (pins_pos.mpr ⟨b, hb, hid⟩)
  freed id hid := by
    rw [h.sound.lives.count_freed hid]
    simp only [pins_pos]

end Inv

/-- In every run the pool stands for the map that the events make: tree, LRU list and counter agree, finds
return the values of the map, updates evict what was used least recently, and a leaf is freed once, when it
is neither in the pool nor held by a find. The size of a pool is a uint32_t. -/
theorem cache_pool_refines_lru_map (size : Nat) (hsize : size < 2 ^ 32) (es : List (CacheEvent D))
    (h : (machine D).Legal (create size) es) :
    Refines ((machine D).exec (create size) es) (es.foldl (lruStep size) LruMap.empty) := by
  have hinv : Inv size ((machine D).exec (create size) es) (es.foldl (lruStep size) LruMap.empty) := by
    refine GuardedMachine.exec_history (m := machine D)
      (R := fun past t => Inv size t (past.foldl (lruStep size) LruMap.empty)) (Inv.create size) ?_ h
    intro past t e ht he
    rw [foldl_append]
    exact ht.step hsize e he
  exact hinv.refines hsize

def evictedInUse : List (CacheEvent Nat) := [.update 10 [1, 2, 3], .find 10 1, .update 20 [4, 5, 6], .put 0]

-- The leaf in use is the last to be evicted, and is freed by the put.
example : ((machine Nat).exec (create 3) evictedInUse).pool.freedLeaves = [0, 2, 1] := by decide

theorem cache_pool_refines_evicted_in_use :
    (machine Nat).Legal (create 3) evictedInUse ∧
      Refines ((machine Nat).exec (create 3) evictedInUse) (evictedInUse.foldl (lruStep 3) LruMap.empty) := by
  have hlegal : (machine Nat).Legal (create 3) evictedInUse := by decide
  exact ⟨hlegal, cache_pool_refines_lru_map 3 (by decide) evictedInUse hlegal⟩

end CacheRun
end DiscoClient
