import DiscoClient.Common.CacheLookup

namespace DiscoClient.CachePool
open List
variable {D : Type} {p : CachePool D} {pins : Nat → Nat} {id i start count : Nat} {ids : List Nat}

def leavesOf (p : CachePool D) (start count : Nat) : List Nat := (List.range' start count).filterMap p.tree.lookup

theorem leafRefCount_touchLeaf (hid : (p.leaves[id]?).isSome) :
    (p.touchLeaf id).leafRefCount i = p.leafRefCount i + if i = id then 1 else 0 := by
  rw [leafRefCount, leafRefCount, touchLeaf, List.getElem?_modify]
  by_cases hi : id = i
  · subst hi
    obtain ⟨l, hl⟩ := Option.isSome_iff_exists.mp hid
    simp [hl]
  · have hi' : ¬i = id := fun h => hi h.symm
    simp [hi, hi']

/-- Leaves that are found move to the front in their order; the others stay in theirs. -/
theorem lruList_touchLeaves (hnodup : p.lruList.Nodup) (hids : ids.Nodup) :
    (p.touchLeaves ids).lruList = ids ++ p.lruList.filter fun i => i ∉ ids := by
  induction ids with
  | nil => exact (filter_eq_self.mpr fun _ _ => decide_eq_true not_mem_nil).symm
  | cons id ids ih =>
    obtain ⟨hout, hrest⟩ := nodup_cons.mp hids
    change id :: (p.touchLeaves ids).lruList.erase id = _
    rw [ih hrest, erase_append_right _ hout, (hnodup.filter _).erase_eq_filter, filter_filter]
    refine congrArg (fun l => id :: (ids ++ l)) (filter_congr fun i _ => ?_)
    rw [Bool.eq_iff_iff, Bool.and_eq_true, bne_iff_ne, decide_eq_true_eq, decide_eq_true_eq, mem_cons, not_or]

namespace Sound

theorem nodup_leavesOf (h : Sound p pins) (start count : Nat) : (p.leavesOf start count).Nodup := by
  refine List.Nodup.filterMap (fun k k' id hk hk' => ?_) nodup_range'
  rw [← h.leafBlkid_eq hk, ← h.leafBlkid_eq hk']

theorem mem_of_leavesOf (h : Sound p pins) (hid : id ∈ p.leavesOf start count) : id ∈ p.lruList := by
  obtain ⟨k, -, hk⟩ := mem_filterMap.mp hid
  exact ((h.tree k id).mp hk).1

theorem leafRefCount_touchLeaves (h : Sound p pins) (hnodup : ids.Nodup) (hsub : ∀ i ∈ ids, i ∈ p.lruList) (i : Nat) :
    (p.touchLeaves ids).leafRefCount i = p.leafRefCount i + if i ∈ ids then 1 else 0 := by
  induction ids with
  | nil => rfl
  | cons id ids ih =>
    obtain ⟨hout, hrest⟩ := nodup_cons.mp hnodup
    have hsub' : ∀ i ∈ ids, i ∈ p.lruList := fun i hi => hsub i (mem_cons_of_mem _ hi)
    obtain ⟨hq, ht⟩ := h.touchLeaves hsub'
    obtain ⟨l, hl, -⟩ := hq.lives.exists_leaf ((ht.mem id).mpr (hsub id mem_cons_self))
    change ((p.touchLeaves ids).touchLeaf id).leafRefCount i = _
    rw [leafRefCount_touchLeaf (by rw [hl]; rfl), ih hrest hsub', Nat.add_assoc]
    refine congrArg _ ?_
    by_cases hi : i = id
    · subst hi
      rw [if_neg hout, if_pos rfl, if_pos mem_cons_self]
    · rw [if_neg hi, Nat.add_zero]
      exact if_congr (by rw [mem_cons, or_iff_right hi]) rfl rfl

end Sound

/-- cache_find should return the cached leaves of a range, each in the place of its key, and their number. Each
is counted once more, and they come to the front of the LRU list in the order of their keys. -/
structure Places (p : CachePool D) (start count : Nat) (r : CachePool D × List (Option Nat) × Nat) : Prop where
  found : r.2.2 = (p.leavesOf start count).length
  length : r.2.1.length = count
  placed : ∀ k < count, r.2.1[k]? = some (p.tree.lookup (start + k))
  counted : ∀ id, r.1.leafRefCount id = p.leafRefCount id + if id ∈ p.leavesOf start count then 1 else 0
  order : r.1.lruList = p.leavesOf start count ++ p.lruList.filter fun id => id ∉ p.leavesOf start count
  tree : r.1.tree = p.tree
  entryOf : r.1.entryOf = p.entryOf

theorem Sound.places (h : Sound p pins) (hend : start + count < 2 ^ 64) :
    Places p start count (p.cacheFind start count) := by
  have hfound : (p.tree.hits start count).map Prod.snd = p.leavesOf start count := p.tree.values_hits start count
  have hnodup := h.nodup_leavesOf start count
  have hsub : ∀ i ∈ p.leavesOf start count, i ∈ p.lruList := fun i hi => h.mem_of_leavesOf hi
  obtain ⟨-, ht⟩ := h.touchLeaves hsub
  have hlen : (p.tree.hits start count).length = (p.leavesOf start count).length := by rw [← hfound, length_map]
  rw [h.cacheFind start count hend, hlen, hfound]
  refine ⟨rfl, ?_, fun k hk => ?_, h.leafRefCount_touchLeaves hnodup hsub, lruList_touchLeaves h.nodup hnodup, ht.tree,
    ht.entryOf⟩
  · rw [length_map, length_range']
  · rw [List.getElem?_map, List.getElem?_range' hk, Nat.one_mul]
    rfl

theorem places_wrap_iff (hend : start + count = 2 ^ 64) :
    Places p start count (p.cacheFind start count) ↔ p.leavesOf start count = [] := by
  rw [cacheFind_wrap p hend]
  constructor
  · exact fun h => length_eq_zero_iff.mp h.found.symm
  · intro hnil
    refine ⟨by rw [hnil]; rfl, length_replicate, fun k hk => ?_, fun id => ?_, ?_, rfl, rfl⟩
    · rw [List.getElem?_replicate, if_pos hk]
      cases hk' : p.tree.lookup (start + k) with
      | none => rfl
      | some id =>
        have hmem : id ∈ p.leavesOf start count :=
          mem_filterMap.mpr ⟨start + k, mem_range'_1.mpr ⟨Nat.le_add_right _ _, Nat.add_lt_add_left hk _⟩, hk'⟩
        rw [hnil] at hmem
        exact absurd hmem not_mem_nil
    · rw [hnil, if_neg not_mem_nil, Nat.add_zero]
    · rw [hnil, nil_append]
      exact (filter_eq_self.mpr fun _ _ => decide_eq_true not_mem_nil).symm

/-- cache_find does so exactly when the range ends below 2^64 or nothing of it is cached. -/
theorem cache_find_places_iff (p : CachePool D) (pins : Nat → Nat) (h : Sound p pins) (start count : Nat)
    (hend : start + count ≤ 2 ^ 64) :
    Places p start count (p.cacheFind start count) ↔ start + count < 2 ^ 64 ∨ p.leavesOf start count = [] := by
  rcases Nat.lt_or_eq_of_le hend with hlt | heq
  · exact iff_of_true (h.places hlt) (.inl hlt)
  · rw [places_wrap_iff heq, heq, or_iff_right (Nat.lt_irrefl _)]

def gapPool : CachePool Nat := ((create 4).linkLeaf 7 70).linkLeaf 5 50

theorem gapPool_sound : Sound gapPool fun _ => 0 := by
  have hone : Sound ((create 4 : CachePool Nat).linkLeaf 7 70) fun _ => 0 :=
    (Sound.create 4).of_stored ((Sound.create 4).stored_linkLeaf rfl 70) ((Sound.create 4).lives.linkLeaf 7 70)
  exact hone.of_stored (hone.stored_linkLeaf rfl 50) (hone.lives.linkLeaf 5 50)

theorem cache_find_places_gap : ∃ q basket, gapPool.cacheFind 5 3 = (q, basket, 2) ∧ basket[1]? = some none ∧
    basket[2]? = some (some 0) ∧ q.lruList = [1, 0] := by
  have h := (cache_find_places_iff gapPool _ gapPool_sound 5 3 (by decide)).mpr (.inl (by decide))
  exact ⟨_, _, congrArg (fun n => (_, _, n)) h.found, h.placed 1 (by decide), h.placed 2 (by decide), h.order⟩

/-- The last key is cached, and a find of it alone returns nothing. -/
theorem last_key_not_found :
    let p := (create 4 : CachePool Nat).linkLeaf (2 ^ 64 - 1) 70
    p.leavesOf (2 ^ 64 - 1) 1 = [0] ∧ (p.cacheFind (2 ^ 64 - 1) 1).2 = ([none], 0) := by
  decide

end DiscoClient.CachePool
