import DiscoClient.Common.CacheUpdate
import Mathlib.Data.List.Induction

namespace DiscoClient.CachePool
open List
variable {D : Type} {p q : CachePool D} {pins : Nat → Nat} {mem : UpdateMem} {start : Nat}

def stores (p : CachePool D) (mem : UpdateMem) (start i : Nat) : Bool :=
  mem.leaf i && (mem.node i || (p.tree.lookup (start + i)).isSome)

def leafItems (mem : UpdateMem) (i : Nat) (items : List D) : List D :=
  ((items.zipIdx i).filter fun e => mem.leaf e.2).map Prod.fst

/-- The pool q after the items of an update, from place i on, were tried on p. -/
structure Tried (mem : UpdateMem) (start i : Nat) (items : List D) (pins : Nat → Nat) (p q : CachePool D) : Prop where
  sound : Sound q pins
  cacheSize : q.cacheSize = p.cacheSize
  length : q.lruList.length ≤ p.lruList.length + items.length
  leaves : q.leaves.map TreeLeaf.data = p.leaves.map TreeLeaf.data ++ leafItems mem i items
  old : ∀ id < p.leaves.length, q.entryOf id = p.entryOf id
  outside : ∀ k, k < start + i ∨ start + i + items.length ≤ k → q.tree.lookup k = p.tree.lookup k
  stored : ∀ j d, items[j]? = some d → p.stores mem start (i + j) = true → ∃ id, p.leaves.length ≤ id ∧
    q.tree.lookup (start + (i + j)) = some id ∧ q.entryOf id = some (start + (i + j), d)
  missed : ∀ j < items.length, p.stores mem start (i + j) = false →
    q.tree.lookup (start + (i + j)) = p.tree.lookup (start + (i + j))

theorem Tried.leaves_le {i : Nat} {items : List D} (h : Tried mem start i items pins p q) :
    p.leaves.length ≤ q.leaves.length := by
  have hlen := congrArg List.length h.leaves
  rw [length_append, length_map, length_map] at hlen
  omega

theorem Tried.nil (h : Sound p pins) (i : Nat) : Tried mem start i [] pins p p where
  sound := h
  cacheSize := rfl
  length := le_rfl
  leaves := (append_nil _).symm
  old _ _ := rfl
  outside _ _ := rfl
  stored _ _ hd := by cases hd
  missed _ hj := absurd hj (Nat.not_lt_zero _)

namespace Sound

theorem failLeaf (h : Sound p pins) (key : Nat) (data : D) :
    Sound (p.failLeaf key data) pins ∧ ∀ id < p.leaves.length, (p.failLeaf key data).entryOf id = p.entryOf id := by
  have hlives := h.lives.failLeaf key data
  rw [failLeaf_eq] at hlives ⊢
  have hentry : ∀ id < p.leaves.length,
      entryOf { p with
        leaves := p.leaves ++ [⟨data, key, 0, false⟩], freedLeaves := p.leaves.length :: p.freedLeaves } id =
          p.entryOf id := by
    intro id hid
    rw [entryOf, List.getElem?_append_left hid, entryOf]
  refine ⟨⟨h.nodup, h.num, fun k id => ?_, hlives⟩, hentry⟩
  refine (h.tree k id).trans (and_congr_right fun hin => ?_)
  rw [hentry id (h.live hin)]

theorem storeItem_tried (h : Sound p pins) (mem : UpdateMem) (start i : Nat) (data : D) :
    ∃ q, p.storeItem (start + i) data (mem.leaf i) (mem.node i) =
        (q, if p.stores mem start i then .ok else .enomem, if mem.leaf i then some data else none) ∧
      Tried mem start i [data] pins p q := by
  have hleafItems : leafItems mem i [data] = if mem.leaf i then [data] else [] := by
    rw [leafItems]
    cases hleaf : mem.leaf i <;> simp [hleaf]
  have hzero {j : Nat} {d : D} (hd : [data][j]? = some d) : j = 0 ∧ d = data := by
    cases j with
    | zero => exact ⟨rfl, (Option.some.inj hd).symm⟩
    | succ j => cases hd
  cases hleaf : mem.leaf i with
  | false =>
    have hno : p.stores mem start i = false := by rw [stores, hleaf, Bool.false_and]
    refine ⟨p, by simp [CachePool.storeItem, hno], h, rfl, Nat.le_add_right _ _, ?_, fun _ _ => rfl, fun _ _ => rfl,
      fun j d hd hs => ?_, fun _ _ _ => rfl⟩
    · rw [hleafItems, hleaf, if_neg Bool.false_ne_true, append_nil]
    · obtain ⟨rfl, rfl⟩ := hzero hd
      rw [Nat.add_zero, hno] at hs
      cases hs
  | true =>
    by_cases hroom : mem.node i = true ∨ (p.tree.lookup (start + i)).isSome = true
    · have hyes : p.stores mem start i = true := by
        rw [stores, hleaf, Bool.true_and, Bool.or_eq_true]
        exact hroom
      obtain ⟨q, heq, hq, hst⟩ := h.storeItem_ok (start + i) data rfl hroom
      refine ⟨q, by rw [heq, hyes]; rfl, hq, hst.cacheSize, ?_, ?_, hst.old, fun k hk => ?_, fun j d hd _ => ?_,
        fun j hj hs => ?_⟩
      · rw [hst.lruList, length_cons, length_singleton]
        exact Nat.succ_le_succ (length_filter_le _ _)
      · rw [hst.items, hleafItems, hleaf, if_pos rfl]
      · refine Option.ext fun id => ?_
        rw [hst.tree, OrderedMap.lookup_insert]
        have hne : k ≠ start + i := by rw [length_singleton] at hk; omega
        exact ⟨fun hor => (hor.resolve_left fun hc => hne hc.1).2, fun hlook => .inr ⟨hne, hlook⟩⟩
      · obtain ⟨rfl, rfl⟩ := hzero hd
        refine ⟨p.leaves.length, le_rfl, ?_, hst.new⟩
        rw [hst.tree, OrderedMap.lookup_insert]
        exact .inl ⟨rfl, rfl⟩
      · obtain rfl : j = 0 := Nat.lt_one_iff.mp hj
        rw [Nat.add_zero, hyes] at hs
        cases hs
    · have hno : p.stores mem start i = false := by
        rw [stores, hleaf, Bool.true_and, Bool.eq_false_iff, ne_eq, Bool.or_eq_true]
        exact hroom
      have hnode : mem.node i = false := Bool.eq_false_iff.mpr fun hc => hroom (.inl hc)
      have hnone : p.tree.lookup (start + i) = none := Option.not_isSome_iff_eq_none.mp fun hc => hroom (.inr hc)
      obtain ⟨hq, hold⟩ := h.failLeaf (start + i) data
      refine ⟨p.failLeaf (start + i) data, ?_, hq, ?_, ?_, ?_, hold, fun _ _ => ?_, fun j d hd hs => ?_,
        fun _ _ _ => ?_⟩
      · rw [CachePool.storeItem, if_pos rfl, hnone, hno, hnode]
        rfl
      · rw [failLeaf_eq]
      · rw [failLeaf_eq]
        exact Nat.le_add_right _ _
      · rw [failLeaf_eq, hleafItems, hleaf, if_pos rfl, map_append]
        rfl
      · rw [failLeaf_eq]
      · obtain ⟨rfl, rfl⟩ := hzero hd
        rw [Nat.add_zero, hno] at hs
        cases hs
      · rw [failLeaf_eq]

end Sound

theorem leafItems_cons (i : Nat) (data : D) (items : List D) :
    leafItems mem i (data :: items) = leafItems mem i [data] ++ leafItems mem (i + 1) items := by
  rw [leafItems, leafItems, leafItems, zipIdx_cons, zipIdx_cons, zipIdx_nil, ← map_append,
    ← filter_append, singleton_append]

theorem Tried.stores_eq {r : Nat} {i : Nat} {items : List D} (h : Tried mem start i items pins p q)
    (hr : i + items.length ≤ r) : q.stores mem start r = p.stores mem start r := by
  rw [stores, stores, h.outside _ (.inr (by omega))]

theorem Tried.cons {r : CachePool D} {i : Nat} {data : D} {items : List D} (h : Tried mem start i [data] pins p q)
    (hr : Tried mem start (i + 1) items pins q r) : Tried mem start i (data :: items) pins p r where
  sound := hr.sound
  cacheSize := hr.cacheSize.trans h.cacheSize
  length := by
    have hone := h.length
    have hrest := hr.length
    rw [length_singleton] at hone
    rw [length_cons]
    omega
  leaves := by rw [hr.leaves, h.leaves, leafItems_cons i data items, append_assoc]
  old id hid := (hr.old id (lt_of_lt_of_le hid h.leaves_le)).trans (h.old id hid)
  outside k hk := by
    rw [length_cons] at hk
    rw [hr.outside k (by omega), h.outside k (by rw [length_singleton]; omega)]
  stored j d hd hs := by
    cases j with
    | zero =>
      obtain ⟨id, hle, hlook, hent⟩ := h.stored 0 d hd hs
      have hlive := h.sound.live ((h.sound.tree _ _).mp hlook).1
      exact ⟨id, hle, (hr.outside _ (.inl (by omega))).trans hlook, (hr.old id hlive).trans hent⟩
    | succ j =>
      rw [show i + (j + 1) = i + 1 + j by omega] at hs ⊢
      rw [← h.stores_eq (by rw [length_singleton]; omega)] at hs
      obtain ⟨id, hle, hlook, hent⟩ := hr.stored j d hd hs
      exact ⟨id, h.leaves_le.trans hle, hlook, hent⟩
  missed j hj hs := by
    cases j with
    | zero =>
      rw [hr.outside _ (.inl (by omega))]
      exact h.missed 0 (Nat.succ_pos 0) hs
    | succ j =>
      rw [show i + (j + 1) = i + 1 + j by omega] at hs ⊢
      rw [← h.stores_eq (by rw [length_singleton]; omega)] at hs
      rw [hr.missed j (Nat.lt_of_succ_lt_succ hj) hs, h.outside _ (.inr (by rw [length_singleton]; omega))]

namespace Sound

/-- The loop of cache_update: its result is that of the last item. -/
theorem updateLoop_tried (h : Sound p pins) (mem : UpdateMem) (start : Nat) (items : List D) (i : Nat) (ret : CacheRet) :
    ∃ q, updateLoop mem start items i p ret =
        (q, if items = [] then ret else if p.stores mem start (i + items.length - 1) then .ok else .enomem,
          (items.zipIdx i).map fun e => if mem.leaf e.2 then some e.1 else none) ∧
      Tried mem start i items pins p q := by
  induction items generalizing p i ret with
  | nil => exact ⟨p, rfl, Tried.nil h i⟩
  | cons data items ih =>
    obtain ⟨q, heq, hq⟩ := h.storeItem_tried mem start i data
    obtain ⟨r, hloop, hr⟩ := ih hq.sound (i + 1) (if p.stores mem start i then .ok else .enomem)
    refine ⟨r, ?_, hq.cons hr⟩
    rw [updateLoop, heq]
    simp only [hloop, zipIdx_cons, map_cons, reduceCtorEq, if_false]
    cases items with
    | nil => simp
    | cons d items =>
      have hlast : q.stores mem start (i + 1 + (d :: items).length - 1) =
          p.stores mem start (i + (data :: d :: items).length - 1) := by
        rw [hq.stores_eq (by simp only [length_cons, length_nil]; omega), length_cons, length_cons,
          length_cons, show i + 1 + (items.length + 1) - 1 = i + (items.length + 1 + 1) - 1 by omega]
      rw [if_neg (cons_ne_nil _ _), hlast]

end Sound

private theorem countP_range {α : Type} (l : List α) (P : α → Bool) :
    (List.range l.length).countP (fun i => (l[i]?).any P) = l.countP P := by
  induction l using List.reverseRecOn with
  | nil => rfl
  | append_singleton l a ih =>
    have hbefore : (List.range l.length).countP (fun i => ((l ++ [a])[i]?).any P) =
        (List.range l.length).countP (fun i => (l[i]?).any P) := by
      refine countP_congr fun i hi => ?_
      rw [List.getElem?_append_left (mem_range.mp hi)]
    rw [length_append, length_singleton, range_succ, countP_append, hbefore, ih, countP_append,
      countP_singleton, countP_singleton, List.getElem?_concat_length, Option.any_some]

def leafSel (p : CachePool D) (P : D → Bool) (id : Nat) : Bool := (p.leaves[id]?).any fun l => P l.data

namespace Sound

private theorem countP_entries (h : Sound p pins) (P : D → Bool) :
    p.entries.countP (fun e => P e.2) = p.lruList.countP (p.leafSel P) := by
  rw [entries, countP_filterMap]
  refine countP_congr fun id hid => ?_
  obtain ⟨l, hl, -⟩ := h.lives.exists_leaf hid
  simp [entryOf, leafSel, hl]

theorem countP_entries_add_freed (h : Sound p pins) (P : D → Bool)
    (hfree : ∀ id, p.leafSel P id = true → pins id = 0) :
    p.entries.countP (fun e => P e.2) + p.freedLeaves.countP (p.leafSel P) =
      (p.leaves.map TreeLeaf.data).countP P := by
  rw [h.countP_entries, countP_map, ← countP_range p.leaves (P ∘ TreeLeaf.data)]
  change _ = (List.range p.leaves.length).countP (p.leafSel P)
  rw [countP_eq_length_filter, countP_eq_length_filter, countP_eq_length_filter, ← length_append]
  refine List.Perm.length_eq (perm_iff_count.mpr fun id => ?_)
  rw [count_append]
  by_cases hsel : p.leafSel P id = true
  · rw [count_filter hsel, count_filter hsel, count_filter hsel]
    have hlt : id < p.leaves.length := by
      by_contra hge
      rw [leafSel, List.getElem?_eq_none (by omega)] at hsel
      cases hsel
    have hpin := hfree id hsel
    have hone : (List.range p.leaves.length).count id = 1 :=
      count_eq_one_of_mem nodup_range (mem_range.mpr hlt)
    rw [h.lives.count_freed hlt, hpin, hone]
    by_cases hin : id ∈ p.lruList
    · rw [count_eq_one_of_mem h.nodup hin, if_pos (.inl hin)]
    · rw [count_eq_zero_of_not_mem hin, if_neg (by simpa using hin)]
  · have hzero (l : List Nat) : (l.filter (p.leafSel P)).count id = 0 :=
      count_eq_zero_of_not_mem fun hmem => hsel (of_mem_filter hmem)
    rw [hzero, hzero, hzero]

end Sound
end DiscoClient.CachePool
