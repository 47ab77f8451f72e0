import DiscoClient.Common.CacheIndex
import DiscoClient.Lib.LruMap

namespace DiscoClient.CachePool
open List
variable {D : Type} {p : CachePool D} {pins : Nat → Nat} {id k : Nat}

def addPins (pins : Nat → Nat) (ids : List Nat) (id : Nat) : Nat := pins id + ids.count id

def touchLeaves (p : CachePool D) (ids : List Nat) : CachePool D := ids.foldr (fun id p => p.touchLeaf id) p

structure Touched (p q : CachePool D) (ids : List Nat) : Prop where
  cacheSize : q.cacheSize = p.cacheSize
  tree : q.tree = p.tree
  entryOf : q.entryOf = p.entryOf
  mem : ∀ i, i ∈ q.lruList ↔ i ∈ p.lruList

namespace Sound

theorem touchLeaves (h : Sound p pins) {ids : List Nat} (hsub : ∀ i ∈ ids, i ∈ p.lruList) :
    Sound (p.touchLeaves ids) (addPins pins ids) ∧ Touched p (p.touchLeaves ids) ids := by
  induction ids with
  | nil => exact ⟨h, rfl, rfl, rfl, fun _ => Iff.rfl⟩
  | cons id ids ih =>
    obtain ⟨hq, ht⟩ := ih fun i hi => hsub i (mem_cons_of_mem _ hi)
    have hid : id ∈ (p.touchLeaves ids).lruList := (ht.mem id).mpr (hsub id mem_cons_self)
    have hpins : addPins pins (id :: ids) =
        Function.update (addPins pins ids) id (addPins pins ids id + 1) := by
      funext i
      by_cases hi : i = id
      · subst hi
        rw [Function.update_self, addPins, addPins, count_cons_self, Nat.add_assoc]
      · rw [Function.update_of_ne hi, addPins, addPins, count_cons_of_ne (Ne.symm hi)]
    rw [hpins]
    refine ⟨hq.touchLeaf hid, ht.cacheSize, ht.tree, entryOf_touchLeaf.trans ht.entryOf, fun i => ?_⟩
    change i ∈ id :: (p.touchLeaves ids).lruList.erase id ↔ _
    by_cases hi : i = id
    · subst hi
      exact ⟨fun _ => hsub i mem_cons_self, fun _ => mem_cons_self⟩
    · rw [mem_cons, or_iff_right hi, mem_erase_of_ne hi, ht.mem]

theorem entries_touchLeaves (h : Sound p pins) (m : LruMap Nat D) (hm : p.entries = m.recent)
    {hits : List (Nat × Nat)} (hhits : ∀ e ∈ hits, p.tree.lookup e.1 = some e.2) :
    (p.touchLeaves (hits.map Prod.snd)).entries = (m.touchAll (hits.map Prod.fst)).recent := by
  induction hits with
  | nil => exact hm
  | cons e hits ih =>
    have hrest := ih fun f hf => hhits f (mem_cons_of_mem _ hf)
    have hk := hhits e mem_cons_self
    have hsub : ∀ i ∈ hits.map Prod.snd, i ∈ p.lruList := by
      intro i hi
      obtain ⟨f, hf, rfl⟩ := mem_map.mp hi
      exact ((h.tree f.1 f.2).mp (hhits f (mem_cons_of_mem _ hf))).1
    obtain ⟨hq, ht⟩ := h.touchLeaves hsub
    have hk' : (p.touchLeaves (hits.map Prod.snd)).tree.lookup e.1 = some e.2 := by rwa [ht.tree]
    obtain ⟨hin, d, hd⟩ := (hq.tree e.1 e.2).mp hk'
    have hlook : (m.touchAll (hits.map Prod.fst)).lookup e.1 = some d := by
      rw [LruMap.lookup_eq_some, ← hrest]
      exact mem_filterMap.mpr ⟨e.2, hin, hd⟩
    change ((p.touchLeaves (hits.map Prod.snd)).touchLeaf e.2).entries =
      ((m.touchAll (hits.map Prod.fst)).touch e.1).recent
    rw [hq.entries_touchLeaf hk' hd, LruMap.touch_of_lookup _ hlook, hrest]
    rfl

end Sound

/-- What the loop of cache_find keeps: the first i places still hold what the tree gave, and the
others what belongs there by its key. -/
structure Sorting (g : List (Nat × Nat)) (start count i : Nat) (basket : List (Option Nat)) : Prop where
  length : basket.length = count
  todo : ∀ j < i, basket[j]? = (g[j]?).map fun e => some e.2
  done : ∀ j, i ≤ j → j < count → basket[j]? = some ((g.drop i).lookup (start + j))

private theorem lookup_eq_none_of_lt {g : List (Nat × Nat)} {a : Nat} (h : ∀ e ∈ g, a < e.1) : g.lookup a = none := by
  rw [lookup_eq_none_iff]
  intro e he
  have := h e he
  simpa using Nat.ne_of_lt this

private theorem lookup_drop {g : List (Nat × Nat)} {i a : Nat} {e : Nat × Nat} (he : g[i]? = some e) :
    (g.drop i).lookup a = if a = e.1 then some e.2 else (g.drop (i + 1)).lookup a := by
  obtain ⟨hlt, hget⟩ := List.getElem?_eq_some_iff.mp he
  rw [drop_eq_getElem_cons hlt, hget, lookup_cons]
  by_cases ha : a = e.1
  · simp [ha]
  · rw [if_neg ha, show (a == e.1) = false by simpa using ha]

namespace Sorting
variable {g : List (Nat × Nat)} {start count i : Nat} {basket : List (Option Nat)} {e : Nat × Nat}

private theorem later (hg : g.Pairwise fun a b => a.1 < b.1) (he : g[i]? = some e) :
    ∀ f ∈ g.drop (i + 1), e.1 < f.1 := by
  obtain ⟨hlt, hget⟩ := List.getElem?_eq_some_iff.mp he
  have hdrop := hg.sublist (drop_sublist i g)
  rw [drop_eq_getElem_cons hlt, hget, pairwise_cons] at hdrop
  exact hdrop.1

theorem place (h : Sorting g start count (i + 1) basket) (hg : g.Pairwise fun a b => a.1 < b.1)
    (he : g[i]? = some e) (hpos : start + i ≤ e.1) (hin : e.1 < start + count) :
    Sorting g start count i ((basket.set i none).set (e.1 - start) (some e.2)) where
  length := by rw [length_set, length_set, h.length]
  todo j hj := by
    rw [List.getElem?_set_ne (by omega), List.getElem?_set_ne (by omega), h.todo j (by omega)]
  done j hi hj := by
    have hlen := h.length
    rw [lookup_drop he]
    by_cases hkey : start + j = e.1
    · rw [if_pos hkey, show e.1 - start = j by omega, List.getElem?_set_self (by rw [length_set]; omega)]
    · rw [if_neg hkey, List.getElem?_set_ne (by omega)]
      by_cases hji : j = i
      · subst hji
        rw [List.getElem?_set_self (by omega), lookup_eq_none_of_lt fun f hf => ?_]
        have := later hg he f hf
        omega
      · rw [List.getElem?_set_ne (Ne.symm hji), h.done j (by omega) hj]

theorem skip (h : Sorting g start count (i + 1) basket) (hg : g.Pairwise fun a b => a.1 < b.1)
    (he : g[i]? = some e) (hout : start + count ≤ e.1) (hi : i < count) :
    Sorting g start count i (basket.set i none) where
  length := by rw [length_set, h.length]
  todo j hj := by rw [List.getElem?_set_ne (by omega), h.todo j (by omega)]
  done j hij hj := by
    have hlen := h.length
    rw [lookup_drop he, if_neg (by omega)]
    by_cases hji : j = i
    · subst hji
      rw [List.getElem?_set_self (by omega), lookup_eq_none_of_lt fun f hf => ?_]
      have := later hg he f hf
      omega
    · rw [List.getElem?_set_ne (Ne.symm hji), h.done j (by omega) hj]

end Sorting

/-- With an end at or before the start the loop of cache_find drops every leaf. -/
theorem findLoop_drop {start retOff i : Nat} (hoff : retOff ≤ start) (p : CachePool D) {basket : List (Option Nat)}
    (hi : i ≤ basket.length) (rret : Nat) :
    findLoop start i retOff p basket rret = (p, List.replicate i none ++ basket.drop i, rret) := by
  induction i generalizing basket with
  | zero => rfl
  | succ i ih =>
    have hnext : findLoop start i retOff p (basket.set i none) rret =
        (p, List.replicate (i + 1) none ++ basket.drop (i + 1), rret) := by
      have hlen : i < (basket.set i none).length := by rw [length_set]; omega
      rw [ih hlen.le, drop_eq_getElem_cons hlen, getElem_set_self, drop_set_of_lt (Nat.lt_succ_self i),
        replicate_succ', append_assoc]
      rfl
    rw [findLoop]
    split
    · exact hnext
    · rw [if_neg (by omega)]
      exact hnext

/-- A range that ends at 2^64: the end wraps to 0 and nothing is found. -/
theorem cacheFind_wrap (p : CachePool D) {start count : Nat} (hend : start + count = 2 ^ 64) :
    p.cacheFind start count = (p, List.replicate count none, 0) := by
  have hlen := p.tree.length_gang_le start count
  simp only [CachePool.cacheFind, length_map]
  split_ifs
  · rw [findLoop_drop (by omega) p (by simp) 0]
    simp
    omega
  · rfl

namespace Sound
variable {start count : Nat}

/-- The loop of cache_find, from place i down, touches the leaves of the range, last key first, and sorts
the basket. -/
private theorem findLoop_eq (h : Sound p pins) {i : Nat} (retOff rret : Nat) {basket : List (Option Nat)}
    (hi : i ≤ (p.tree.gang start count).length) (hbasket : Sorting (p.tree.gang start count) start count i basket)
    (hoff : ∀ e ∈ (p.tree.gang start count).take i, e.1 < retOff ↔ e.1 < start + count) :
    ∃ basket', findLoop start i retOff
        (p.touchLeaves ((((p.tree.gang start count).drop i).filter fun e => e.1 < start + count).map Prod.snd))
        basket rret =
      (p.touchLeaves (((p.tree.gang start count).filter fun e => e.1 < start + count).map Prod.snd), basket',
        rret + (((p.tree.gang start count).take i).filter fun e => e.1 < start + count).length) ∧
      Sorting (p.tree.gang start count) start count 0 basket' := by
  induction i generalizing retOff basket rret with
  | zero => exact ⟨basket, rfl, hbasket⟩
  | succ i ih =>
    have hsorted := p.tree.sorted_gang start count
    have hmem {e : Nat × Nat} (he : e ∈ p.tree.gang start count) : start ≤ e.1 ∧ p.tree.lookup e.1 = some e.2 :=
      p.tree.of_mem_gang he
    generalize hgang : p.tree.gang start count = g at hi hbasket hoff hsorted hmem ih ⊢
    have hcount : g.length ≤ count := hgang ▸ p.tree.length_gang_le start count
    obtain ⟨e, he⟩ : ∃ e, g[i]? = some e := ⟨g[i], List.getElem?_eq_getElem hi⟩
    obtain ⟨hlow, hlook⟩ := hmem (mem_of_getElem? he)
    have hpos : start + i ≤ e.1 := OrderedMap.start_add_le hsorted (fun f hf => (hmem hf).1) he
    have hdrop : g.drop i = e :: g.drop (i + 1) := by
      obtain ⟨hlt, hget⟩ := List.getElem?_eq_some_iff.mp he
      rw [drop_eq_getElem_cons hlt, hget]
    have hbefore : ∀ f ∈ g.take i, f.1 < e.1 := by
      have hsplit := hsorted
      rw [← take_append_drop i g, pairwise_append, hdrop] at hsplit
      exact fun f hf => hsplit.2.2 f hf e mem_cons_self
    have htake : ∀ f ∈ g.take i, f ∈ g.take (i + 1) := fun f hf => (take_sublist_take_left (Nat.le_succ i)).mem hf
    have hsub : ∀ j ∈ ((g.drop (i + 1)).filter fun e => e.1 < start + count).map Prod.snd, j ∈ p.lruList := by
      intro j hj
      obtain ⟨f, hf, rfl⟩ := mem_map.mp hj
      exact ((h.tree f.1 f.2).mp (hmem (mem_of_mem_drop (mem_of_mem_filter hf))).2).1
    obtain ⟨hq, ht⟩ := h.touchLeaves hsub
    generalize hpool : p.touchLeaves (((g.drop (i + 1)).filter fun e => e.1 < start + count).map Prod.snd) = q at hq ht ⊢
    have hkey : q.leafBlkid e.2 = e.1 := hq.leafBlkid_eq (by rwa [ht.tree])
    have hmark : q.leafIsDelete e.2 = false := by
      obtain ⟨l, hl, -, hdel, -⟩ := hq.lives.exists_leaf ((ht.mem e.2).mpr ((h.tree e.1 e.2).mp hlook).1)
      rw [leafIsDelete, hl]
      exact hdel
    have hplace : basket[i]? = some (some e.2) := by rw [hbasket.todo i (Nat.lt_succ_self i), he, Option.map_some]
    have hiff := hoff e (mem_of_getElem? (i := i) (by rw [List.getElem?_take_of_lt (Nat.lt_succ_self i), he]))
    have htaken : g.take (i + 1) = g.take i ++ [e] := by rw [take_add_one, he, Option.toList_some]
    rw [findLoop, hplace, htaken, filter_append, length_append]
    simp only [Option.join_some, hkey, hmark]
    by_cases hin : e.1 < start + count
    · rw [if_pos ⟨hlow, hiff.mpr hin, trivial⟩, filter_cons_of_pos (by simpa using hin), filter_nil,
        length_singleton, ← Nat.add_assoc, Nat.add_right_comm]
      have hnext : q.touchLeaf e.2 =
          p.touchLeaves (((g.drop i).filter fun e => e.1 < start + count).map Prod.snd) := by
        rw [hdrop, filter_cons_of_pos (by simpa using hin), map_cons, ← hpool]
        rfl
      rw [hnext]
      exact ih _ _ (Nat.le_of_succ_le hi) (hbasket.place hsorted he hpos hin)
        fun f hf => ⟨fun hlt => hlt.trans hin, fun _ => hbefore f hf⟩
    · rw [if_neg (fun hc => hin (hiff.mp hc.2.1)), filter_cons_of_neg (by simpa using hin), filter_nil,
        length_nil, Nat.add_zero]
      have hnext : q = p.touchLeaves (((g.drop i).filter fun e => e.1 < start + count).map Prod.snd) := by
        rw [hdrop, filter_cons_of_neg (by simpa using hin), ← hpool]
      rw [hnext]
      exact ih _ _ (Nat.le_of_succ_le hi) (hbasket.skip hsorted he (by omega) (by omega)) fun f hf => hoff f (htake f hf)

private theorem sorted_basket {basket : List (Option Nat)}
    (hbasket : Sorting (p.tree.gang start count) start count 0 basket) :
    basket = (List.range' start count).map p.tree.lookup := by
  have hnodup : ((p.tree.gang start count).map Prod.fst).Nodup :=
    pairwise_map.mpr ((p.tree.sorted_gang start count).imp fun hlt => Nat.ne_of_lt hlt)
  refine ext_getElem? fun j => ?_
  by_cases hj : j < count
  · rw [hbasket.done j (Nat.zero_le j) hj, drop_zero, List.getElem?_map, List.getElem?_range' hj, Option.map_some,
      Nat.one_mul]
    refine congrArg some (Option.ext fun id => ?_)
    rw [lookup_eq_some_iff_mem hnodup]
    exact ⟨fun hmem => (p.tree.of_mem_gang hmem).2,
      fun hlook => p.tree.mem_gang (Nat.le_add_right _ _) (Nat.add_lt_add_left hj _) hlook⟩
  · rw [List.getElem?_eq_none (by rw [hbasket.length]; omega),
      List.getElem?_eq_none (by rw [length_map, length_range']; omega)]

/-- cache_find: the basket holds the leaf of each key of the range, and the leaves that were found
are touched, the one of the first key last. -/
theorem cacheFind (h : Sound p pins) (start count : Nat) (hend : start + count < 2 ^ 64) :
    p.cacheFind start count =
      (p.touchLeaves ((p.tree.hits start count).map Prod.snd), (List.range' start count).map p.tree.lookup,
        (p.tree.hits start count).length) := by
  have hlen := p.tree.length_gang_le start count
  rw [← p.tree.gang_filter]
  simp only [CachePool.cacheFind, length_map, Nat.mod_eq_of_lt hend]
  split_ifs with hfound
  · have hstart : Sorting (p.tree.gang start count) start count (p.tree.gang start count).length
        (((p.tree.gang start count).map Prod.snd).map some ++
          List.replicate (count - (p.tree.gang start count).length) none) := by
      refine ⟨?_, fun j hj => ?_, fun j hj hlt => ?_⟩
      · rw [length_append, length_map, length_map, length_replicate]
        omega
      · rw [List.getElem?_append_left (by simpa using hj), List.getElem?_map, List.getElem?_map, Option.map_map]
        rfl
      · rw [List.getElem?_append_right (by simpa using hj), List.getElem?_replicate,
          if_pos (by rw [length_map, length_map]; omega), drop_length]
        rfl
    obtain ⟨basket, heq, hsorted⟩ :=
      h.findLoop_eq (start + count) 0 (le_refl _) hstart fun _ _ => Iff.rfl
    rw [drop_length, take_length, Nat.zero_add, sorted_basket hsorted] at heq
    exact heq
  · have hnil : p.tree.gang start count = [] := length_eq_zero_iff.mp (by omega)
    have hstart : Sorting (p.tree.gang start count) start count 0 (List.replicate count none) := by
      refine ⟨length_replicate, fun j hj => absurd hj (Nat.not_lt_zero j), fun j _ hlt => ?_⟩
      rw [List.getElem?_replicate, if_pos hlt, hnil]
      rfl
    rw [sorted_basket hstart, hnil]
    rfl

/-- The leaves that cache_find finds are in the LRU list. -/
theorem mem_of_hits (h : Sound p pins) (start count : Nat) :
    ∀ i ∈ (p.tree.hits start count).map Prod.snd, i ∈ p.lruList := by
  intro i hi
  obtain ⟨⟨k, id⟩, hmem, rfl⟩ := mem_map.mp hi
  exact ((h.tree k id).mp (p.tree.mem_hits.mp hmem).2).1

/-- cache_put gives every leaf of the basket back. -/
theorem cachePut (h : Sound p pins) (basket : List (Option Nat)) {pins' : Nat → Nat}
    (hpins : ∀ id, pins id = pins' id + basket.count (some id)) :
    Sound (p.cachePut basket) pins' ∧ PutFrame p (p.cachePut basket) := by
  induction basket generalizing p pins with
  | nil =>
    obtain rfl : pins = pins' := funext fun id => (hpins id).trans (by rw [count_nil, Nat.add_zero])
    exact ⟨h, rfl, rfl, rfl, rfl, rfl⟩
  | cons b basket ih =>
    have hframe := putLeaf_frame (p := p) b
    have hput : ∃ pins'', Sound (p.putLeaf b) pins'' ∧ ∀ id, pins'' id = pins' id + basket.count (some id) := by
      cases b with
      | none => exact ⟨pins, h, fun id => by rw [hpins id, count_cons_of_ne (by simp)]⟩
      | some i =>
        have hi := hpins i
        rw [count_cons_self] at hi
        refine ⟨_, h.putLeaf (by omega), fun id => ?_⟩
        by_cases heq : id = i
        · subst heq
          rw [Function.update_self]
          omega
        · rw [Function.update_of_ne heq, hpins id, count_cons_of_ne (by simpa using Ne.symm heq)]
    obtain ⟨pins'', hsound, hpins''⟩ := hput
    obtain ⟨hend, hrest⟩ := ih hsound hpins''
    exact ⟨hend, hrest.cacheSize.trans hframe.cacheSize, hrest.cacheNum.trans hframe.cacheNum,
      hrest.tree.trans hframe.tree, hrest.lruList.trans hframe.lruList, hrest.entryOf.trans hframe.entryOf⟩

end Sound
end DiscoClient.CachePool
