import DiscoClient.Common.CacheIndex

namespace DiscoClient.CachePool
open List
variable {D : Type} {p q : CachePool D} {pins : Nat → Nat} {id i k key : Nat} {ids : List Nat}

def removeAll (p : CachePool D) (ids : List Nat) : CachePool D :=
  ids.foldl (fun p id => p.removeLeaf (p.leafBlkid id) id) p

structure Left (p q : CachePool D) (ids : List Nat) : Prop where
  cacheSize : q.cacheSize = p.cacheSize
  lruList : q.lruList = p.lruList.filter fun i => i ∉ ids
  entryOf : q.entryOf = p.entryOf
  items : q.leaves.map TreeLeaf.data = p.leaves.map TreeLeaf.data

theorem Left.nil (p : CachePool D) : Left p p [] :=
  ⟨rfl, (filter_eq_self.mpr fun _ _ => decide_eq_true not_mem_nil).symm, rfl, rfl⟩

theorem Left.cons {r : CachePool D} (hnodup : p.lruList.Nodup) (h : Sound.Removed p q id) (hr : Left q r ids) :
    Left p r (id :: ids) where
  cacheSize := hr.cacheSize.trans h.cacheSize
  lruList := by
    rw [hr.lruList, h.lruList, hnodup.erase_eq_filter, filter_filter]
    refine filter_congr fun i _ => ?_
    rw [Bool.eq_iff_iff, Bool.and_eq_true, bne_iff_ne, decide_eq_true_eq, decide_eq_true_eq, mem_cons, not_or,
      and_comm]
  entryOf := hr.entryOf.trans h.entryOf
  items := hr.items.trans h.items

theorem Left.trans {r : CachePool D} {ids' : List Nat} (h : Left p q ids) (hr : Left q r ids') : Left p r (ids ++ ids') where
  cacheSize := hr.cacheSize.trans h.cacheSize
  lruList := by
    rw [hr.lruList, h.lruList, filter_filter]
    refine filter_congr fun i _ => ?_
    rw [Bool.eq_iff_iff, Bool.and_eq_true, decide_eq_true_eq, decide_eq_true_eq, decide_eq_true_eq, mem_append,
      not_or, and_comm]
  entryOf := hr.entryOf.trans h.entryOf
  items := hr.items.trans h.items

theorem Left.lookup_of_lookup (hp : Sound p pins) (hq : Sound q pins) (h : Left p q ids)
    (hk : q.tree.lookup k = some id) : p.tree.lookup k = some id := by
  obtain ⟨hin, d, hd⟩ := (hq.tree k id).mp hk
  rw [h.lruList] at hin
  exact (hp.tree k id).mpr ⟨mem_of_mem_filter hin, d, h.entryOf ▸ hd⟩

namespace Sound

theorem removeAll (h : Sound p pins) (hnodup : ids.Nodup) (hsub : ∀ i ∈ ids, i ∈ p.lruList) :
    Sound (p.removeAll ids) pins ∧ Left p (p.removeAll ids) ids := by
  induction ids generalizing p with
  | nil => exact ⟨h, Left.nil p⟩
  | cons id ids ih =>
    obtain ⟨hout, hrest⟩ := nodup_cons.mp hnodup
    obtain ⟨hq, hremoved⟩ := h.removeLeaf (h.lookup (hsub id mem_cons_self))
    have hin (i : Nat) (hi : i ∈ ids) : i ∈ (p.removeLeaf (p.leafBlkid id) id).lruList := by
      rw [hremoved.lruList]
      exact (mem_erase_of_ne (ne_of_mem_of_not_mem hi hout)).mpr (hsub i (mem_cons_of_mem _ hi))
    obtain ⟨hr, hleft⟩ := ih hq hrest hin
    exact ⟨hr, hleft.cons h.nodup hremoved⟩

end Sound

/-- The loop of __kick_meta_cache without a criterion: all leaves for count -1, and otherwise as
many as are still to go, but at least one. -/
theorem kickLoop_eq (count : Int) (total : Nat) (ids : List Nat) (p : CachePool D) (nr : Nat) (flag : Bool) :
    (kickLoop none count total ids p nr flag).1 =
      p.removeAll (if count = -1 then ids else ids.take (max 1 (total - nr))) := by
  induction ids generalizing p nr flag with
  | nil => simp [kickLoop, removeAll]
  | cons id ids ih =>
    rw [kickLoop, if_neg (by simp)]
    dsimp only
    by_cases hall : count = -1
    · rw [if_neg (fun hc => hc.1 hall), ih, if_pos hall, if_pos hall]
      rfl
    · by_cases hend : nr + 1 ≥ total
      · rw [if_pos ⟨hall, hend⟩, if_neg hall, show max 1 (total - nr) = 1 by omega]
        rfl
      · rw [if_neg (fun hc => hend hc.2), ih, if_neg hall, if_neg hall,
          show max 1 (total - nr) = max 1 (total - (nr + 1)) + 1 by omega, take_succ_cons]
        rfl

theorem kickMetaCache_all (p : CachePool D) : (p.kickMetaCache (-1) none).1 = p.removeAll p.lruList.reverse := by
  rw [CachePool.kickMetaCache, if_pos (.inl rfl), kickLoop_eq, if_pos rfl]

theorem kickRetry_of_nil (n : Nat) {r : CachePool D × Bool} (hr : r.1.lruList = []) : kickRetry n r = r.1 := by
  induction n generalizing r with
  | zero => rfl
  | succ n ih =>
    have hagain : (r.1.kickMetaCache (-1) none).1 = r.1 := by
      rw [kickMetaCache_all, hr]
      rfl
    rw [kickRetry]
    split_ifs
    · rw [ih (by rwa [hagain]), hagain]
    · rfl

theorem filter_not_mem_drop {l : List Nat} (hl : l.Nodup) (n : Nat) : (l.filter fun i => i ∉ l.drop n) = l.take n := by
  have hsplit := take_append_drop n l
  have hdisj : ∀ i ∈ l.take n, i ∉ l.drop n := by
    rw [← hsplit, nodup_append] at hl
    exact fun i hi hd => hl.2.2 i hi i hd rfl
  conv_lhs => rw [← hsplit]
  rw [filter_append, hsplit, filter_eq_self.mpr fun i hi => decide_eq_true (hdisj i hi),
    filter_eq_nil_iff.mpr fun i hi => by simpa using hi, append_nil]

namespace Sound

/-- A kick of n leaves takes the last n of the LRU list. -/
theorem kickMetaCache (h : Sound p pins) {n : Nat} (hn : 0 < n) (hlen : p.lruList.length < n → p.lruList.length < 2 ^ 32) :
    ∃ ids, (p.kickMetaCache n none).1 = p.removeAll ids ∧ ids.Nodup ∧ (∀ i ∈ ids, i ∈ p.lruList) ∧
      (p.lruList.filter fun i => i ∉ ids) = p.lruList.take (p.lruList.length - n) := by
  have hne : ((n : Int) = -1) = False := eq_false (by omega)
  have hpick : ∃ t, (p.kickMetaCache n none).1 = p.removeAll (p.lruList.reverse.take t) ∧
      p.lruList.length - t = p.lruList.length - n := by
    rw [CachePool.kickMetaCache]
    simp only [hne, false_or]
    split_ifs with hbig hzero
    · refine ⟨_, by rw [kickLoop_eq, if_neg (by omega)], ?_⟩
      rw [h.num] at hbig ⊢
      rw [toU32]
      omega
    · omega
    · exact ⟨_, by rw [kickLoop_eq, if_neg (by omega)], by omega⟩
  obtain ⟨t, heq, hlast⟩ := hpick
  refine ⟨_, heq, (nodup_reverse.mpr h.nodup).sublist (List.take_sublist _ _),
    fun i hi => mem_reverse.mp (mem_of_mem_take hi), ?_⟩
  rw [take_reverse, hlast]
  simp only [mem_reverse]
  exact filter_not_mem_drop h.nodup _

theorem removeAll_reverse (h : Sound p pins) :
    Sound (p.removeAll p.lruList.reverse) pins ∧ Left p (p.removeAll p.lruList.reverse) p.lruList.reverse ∧
      (p.removeAll p.lruList.reverse).lruList = [] := by
  obtain ⟨hq, hleft⟩ := h.removeAll (nodup_reverse.mpr h.nodup) fun i hi => mem_reverse.mp hi
  refine ⟨hq, hleft, ?_⟩
  rw [hleft.lruList]
  exact filter_eq_nil_iff.mpr fun i hi => by simpa using hi

/-- cache_invalidate of a volume empties the pool. -/
theorem cacheInvalidateVol (h : Sound p pins) :
    p.cacheInvalidateVol = p.removeAll p.lruList.reverse ∧ Sound p.cacheInvalidateVol pins ∧
      p.cacheInvalidateVol.cacheSize = p.cacheSize ∧ p.cacheInvalidateVol.lruList = [] := by
  obtain ⟨hq, hleft, hempty⟩ := h.removeAll_reverse
  have heq : p.cacheInvalidateVol = p.removeAll p.lruList.reverse := by
    rw [CachePool.cacheInvalidateVol, kickRetry_of_nil _ (by rwa [kickMetaCache_all]), kickMetaCache_all]
  rw [heq]
  exact ⟨rfl, hq, hleft.cacheSize, hempty⟩

theorem invalidateKey (h : Sound p pins) (key : Nat) :
    Sound (p.invalidateKey key) pins ∧ (∃ ids, Left p (p.invalidateKey key) ids) ∧
      (p.invalidateKey key).entries = p.entries.filter fun e => e.1 != key := by
  rw [CachePool.invalidateKey]
  cases hk : p.tree.lookup key with
  | none =>
    refine ⟨h, ⟨[], Left.nil p⟩, (filter_eq_self.mpr fun e he => ?_).symm⟩
    obtain ⟨i, hi, hent⟩ := mem_filterMap.mp he
    rw [bne_iff_ne]
    rintro rfl
    rw [(h.tree e.1 i).mpr ⟨hi, e.2, hent⟩] at hk
    cases hk
  | some id =>
    obtain ⟨hq, hremoved⟩ := h.removeLeaf hk
    exact ⟨hq, ⟨[id], (Left.nil _).cons h.nodup hremoved⟩, h.entries_removeLeaf hk⟩

/-- cache_invalidate_volLB takes the keys of the range out. -/
theorem cacheInvalidateVolLB (h : Sound p pins) (start count : Nat) :
    Sound (p.cacheInvalidateVolLB start count) pins ∧
      (∃ ids, Left p (p.cacheInvalidateVolLB start count) ids) ∧
      (p.cacheInvalidateVolLB start count).entries =
        p.entries.filter fun e => !(decide (start ≤ e.1) && decide (e.1 < start + count)) := by
  induction count with
  | zero =>
    refine ⟨h, ⟨[], Left.nil p⟩, (filter_eq_self.mpr fun e _ => ?_).symm⟩
    rw [Bool.not_eq_true', Bool.and_eq_false_iff, decide_eq_false_iff_not, decide_eq_false_iff_not]
    omega
  | succ count ih =>
    obtain ⟨hq, ⟨ids, hleft⟩, hent⟩ := ih
    have hstep : p.cacheInvalidateVolLB start (count + 1) =
        (p.cacheInvalidateVolLB start count).invalidateKey (start + count) := by
      rw [CachePool.cacheInvalidateVolLB, range_succ, foldl_append]
      rfl
    obtain ⟨hr, ⟨ids', hleft'⟩, hent'⟩ := hq.invalidateKey (start + count)
    rw [hstep, hent', hent, filter_filter]
    refine ⟨hr, ⟨ids ++ ids', hleft.trans hleft'⟩, filter_congr fun e _ => ?_⟩
    rw [Bool.eq_iff_iff]
    simp only [Bool.and_eq_true, bne_iff_ne, Bool.not_eq_true', Bool.and_eq_false_iff, decide_eq_false_iff_not]
    omega

end Sound
end DiscoClient.CachePool
