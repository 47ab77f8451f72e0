import DiscoClient.Common.CacheRemoval
import DiscoClient.Lib.LruMap

namespace DiscoClient.CachePool
open List
variable {D : Type} {p q : CachePool D} {pins : Nat → Nat}

/-- A size of 2^31 or more is negative as an int32_t, and no leaf is removed. -/
theorem reclaim_of_large (hlow : 2 ^ 31 ≤ p.cacheSize) (hhigh : p.cacheSize < 2 ^ 32) (n : Nat) : p.reclaim n = p := by
  have hneg : toS32 p.cacheSize < 0 := by
    rw [toS32]
    omega
  rw [CachePool.reclaim, kickCount, if_neg]
  split_ifs <;> omega

namespace Sound

/-- The pool after room was made: what stays is the beginning of the LRU list. -/
theorem reclaim (h : Sound p pins) (hsize : p.cacheSize < 2 ^ 31) (hnum : p.lruList.length ≤ p.cacheSize) {n : Nat}
    (hn : n ≤ p.cacheSize) :
    Sound (p.reclaim n) pins ∧ (∃ ids, Left p (p.reclaim n) ids) ∧
      (p.reclaim n).lruList = p.lruList.take (p.cacheSize - n) := by
  have hcount : p.kickCount n = p.lruList.length + n - p.cacheSize := by
    rw [kickCount, h.num, toS32_of_small (by omega) (by omega), toS32_of_small (by omega) (by omega)]
    exact if_neg (by omega)
  rw [CachePool.reclaim, hcount]
  split_ifs with hpos
  · obtain ⟨c, hc⟩ : ∃ c : Nat, (p.lruList.length + n - p.cacheSize : Int) = c := ⟨_, (Int.toNat_of_nonneg hpos.le).symm⟩
    rw [hc] at hpos ⊢
    obtain ⟨ids, heq, hnodup, hsub, hkept⟩ := h.kickMetaCache (n := c) (by omega) fun _ => by omega
    obtain ⟨hq, hleft⟩ := h.removeAll hnodup hsub
    rw [heq]
    refine ⟨hq, ⟨ids, hleft⟩, ?_⟩
    rw [hleft.lruList, hkept, show p.lruList.length - c = p.cacheSize - n by omega]
  · exact ⟨h, ⟨[], Left.nil p⟩, (take_of_length_le (by omega)).symm⟩

theorem storeItem_ok (h : Sound p pins) (key : Nat) (data : D) {leafMem nodeMem : Bool} (hleaf : leafMem = true)
    (hnode : nodeMem = true ∨ (p.tree.lookup key).isSome = true) :
    ∃ q, p.storeItem key data leafMem nodeMem = (q, .ok, some data) ∧ Sound q pins ∧ Stored p q key data := by
  rw [CachePool.storeItem, if_pos hleaf]
  cases hk : p.tree.lookup key with
  | none =>
    have hstored := h.stored_linkLeaf hk data
    rw [hk] at hnode
    refine ⟨_, if_pos (hnode.resolve_right (by simp)), h.of_stored hstored (h.lives.linkLeaf key data), hstored⟩
  | some old =>
    have hstored := h.stored_dropLeaf hk data
    have hold := ((h.tree key old).mp hk).1
    refine ⟨_, rfl, h.of_stored hstored ?_, hstored⟩
    refine (h.lives.linkLeaf key data).dropLeaf ?_ (mem_cons_of_mem _ hold)
    exact nodup_cons.mpr ⟨(h.lives.fresh le_rfl).2.1, h.nodup⟩

theorem length_entries (h : Sound p pins) : p.entries.length = p.lruList.length := by
  have hmap (l : List Nat) (hl : ∀ i ∈ l, i ∈ p.lruList) : (l.filterMap p.entryOf).length = l.length := by
    induction l with
    | nil => rfl
    | cons i l ih =>
      obtain ⟨d, hd⟩ := h.entry (hl i mem_cons_self)
      rw [filterMap_cons_some hd, length_cons, length_cons, ih fun j hj => hl j (mem_cons_of_mem _ hj)]
  exact hmap _ fun _ hi => hi

theorem take_entries (h : Sound p pins) (n : Nat) : (p.lruList.take n).filterMap p.entryOf = p.entries.take n := by
  have hmap (l : List Nat) (hl : ∀ i ∈ l, i ∈ p.lruList) (n : Nat) :
      (l.take n).filterMap p.entryOf = (l.filterMap p.entryOf).take n := by
    induction l generalizing n with
    | nil => simp
    | cons i l ih =>
      obtain ⟨d, hd⟩ := h.entry (hl i mem_cons_self)
      cases n with
      | zero => rfl
      | succ n =>
        rw [take_succ_cons, filterMap_cons_some hd, filterMap_cons_some hd, take_succ_cons,
          ih fun j hj => hl j (mem_cons_of_mem _ hj)]
  exact hmap _ (fun _ hi => hi) n

/-- The loop of cache_update when every allocation succeeds. -/
theorem updateLoop_ok (h : Sound p pins) (mem : UpdateMem) (hleaf : ∀ i, mem.leaf i = true)
    (hnode : ∀ i, mem.node i = true) (start : Nat) (items : List D) (i : Nat) (ret : CacheRet) {m : LruMap Nat D}
    (hm : p.entries = m.recent) :
    ∃ q, updateLoop mem start items i p ret = (q, if items = [] then ret else .ok, items.map some) ∧ Sound q pins ∧
      q.cacheSize = p.cacheSize ∧ q.lruList.length ≤ p.lruList.length + items.length ∧
      q.entries = (m.storeAll ((items.zipIdx (start + i)).map Prod.swap)).recent := by
  induction items generalizing p i ret m with
  | nil => exact ⟨p, rfl, h, rfl, le_rfl, hm⟩
  | cons data items ih =>
    obtain ⟨q, heq, hq, hstored⟩ := h.storeItem_ok (start + i) data (hleaf i) (.inl (hnode i))
    have hent : q.entries = (m.store (start + i) data).recent := by
      rw [h.entries_of_stored hstored, hm]
      rfl
    obtain ⟨r, hloop, hr, hsize, hlen, hrec⟩ := ih hq (i + 1) .ok hent
    refine ⟨r, ?_, hr, hsize.trans hstored.cacheSize, ?_, hrec⟩
    · simp only [updateLoop, heq, hloop, ite_self, map_cons, reduceCtorEq, if_false]
    · have hothers : (others p (start + i)).length ≤ p.lruList.length := length_filter_le _ _
      rw [hstored.lruList, length_cons] at hlen
      rw [length_cons]
      omega

end Sound
end DiscoClient.CachePool
