import DiscoClient.Common.CachePool

namespace DiscoClient.CachePool
open List
variable {D : Type} {p : CachePool D} {pins : Nat → Nat} {id i n : Nat} {l : TreeLeaf D}

/-- The states of a leaf that n finds hold: whether it is allocated, whether it is in the LRU list,
and how often it was freed. -/
inductive LeafLife (n : Nat) : Option (TreeLeaf D) → Bool → Nat → Prop
  | absent (free : n = 0) : LeafLife n none false 0
  | linked (l : TreeLeaf D) (count : l.refcnt = n) (mark : l.deleted = false) : LeafLife n (some l) true 0
  | detached (l : TreeLeaf D) (count : l.refcnt = n) (held : 0 < n) (mark : l.deleted = true) :
      LeafLife n (some l) false 0
  | gone (l : TreeLeaf D) (count : l.refcnt = n) (free : n = 0) : LeafLife n (some l) false 1

def Lives (p : CachePool D) (pins : Nat → Nat) : Prop :=
  ∀ id, LeafLife (pins id) p.leaves[id]? (decide (id ∈ p.lruList)) (p.freedLeaves.count id)

def entryOf (p : CachePool D) (id : Nat) : Option (Nat × D) := (p.leaves[id]?).map fun l => (l.blkid, l.data)

theorem entryOf_modify {f : TreeLeaf D → TreeLeaf D} {q : CachePool D} (hq : q.leaves = p.leaves.modify id f)
    (hf : ∀ l, (f l).blkid = l.blkid ∧ (f l).data = l.data) : q.entryOf = p.entryOf := by
  funext i
  rw [entryOf, entryOf, hq, List.getElem?_modify]
  cases p.leaves[i]? with
  | none => rfl
  | some l =>
    by_cases hi : id = i
    · simp [hi, hf]
    · simp [hi]

theorem items_modify {f : TreeLeaf D → TreeLeaf D} {q : CachePool D} (hq : q.leaves = p.leaves.modify id f)
    (hf : ∀ l, (f l).data = l.data) : q.leaves.map TreeLeaf.data = p.leaves.map TreeLeaf.data := by
  refine ext_getElem? fun i => ?_
  rw [hq, List.getElem?_map, List.getElem?_map, List.getElem?_modify]
  cases p.leaves[i]? with
  | none => rfl
  | some l =>
    by_cases hi : id = i
    · simp [hi, hf]
    · simp [hi]

theorem releaseTreeLeaf_of_free (hl : p.leaves[id]? = some l) (hfree : l.refcnt = 0) :
    p.releaseTreeLeaf id = { p with freedLeaves := id :: p.freedLeaves } := by
  rw [releaseTreeLeaf, hl]
  exact if_neg (by omega)

theorem dropLeaf_cases (hl : p.leaves[id]? = some l) :
    (0 < l.refcnt ∧ p.dropLeaf id =
      { p with
        lruList := p.lruList.erase id, cacheNum := p.cacheNum - 1,
        leaves := p.leaves.modify id fun l => { l with deleted := true } }) ∨
    (l.refcnt = 0 ∧ p.dropLeaf id =
      { p with
        lruList := p.lruList.erase id, cacheNum := p.cacheNum - 1, freedLeaves := id :: p.freedLeaves }) := by
  have hcount : leafRefCount { p with lruList := p.lruList.erase id, cacheNum := p.cacheNum - 1 } id = l.refcnt := by
    rw [leafRefCount, hl]
    rfl
  rcases Nat.eq_zero_or_pos l.refcnt with hfree | hpos
  · refine .inr ⟨hfree, ?_⟩
    rw [dropLeaf, if_neg (by rw [hcount]; omega)]
    exact releaseTreeLeaf_of_free hl hfree
  · refine .inl ⟨hpos, ?_⟩
    rw [dropLeaf, if_pos (by rwa [hcount])]
    rfl

structure DropFrame (p q : CachePool D) (id : Nat) : Prop where
  cacheSize : q.cacheSize = p.cacheSize
  cacheNum : q.cacheNum = p.cacheNum - 1
  tree : q.tree = p.tree
  lruList : q.lruList = p.lruList.erase id
  entryOf : q.entryOf = p.entryOf
  items : q.leaves.map TreeLeaf.data = p.leaves.map TreeLeaf.data

theorem dropLeaf_frame (hl : p.leaves[id]? = some l) : DropFrame p (p.dropLeaf id) id := by
  obtain ⟨-, heq⟩ | ⟨-, heq⟩ := dropLeaf_cases hl
  · rw [heq]
    exact ⟨rfl, rfl, rfl, rfl, entryOf_modify rfl fun _ => ⟨rfl, rfl⟩, items_modify rfl fun _ => rfl⟩
  · rw [heq]
    exact ⟨rfl, rfl, rfl, rfl, rfl, rfl⟩

theorem Lives.exists_leaf (h : Lives p pins) (hid : id ∈ p.lruList) :
    ∃ l, p.leaves[id]? = some l ∧ l.refcnt = pins id ∧ l.deleted = false ∧ p.freedLeaves.count id = 0 := by
  have hlife := h id
  rw [decide_eq_true hid] at hlife
  generalize hleaf : p.leaves[id]? = leaf at hlife
  generalize hfreed : p.freedLeaves.count id = freed at hlife
  cases hlife with
  | linked l hcount hmark => exact ⟨l, rfl, hcount, hmark, rfl⟩

theorem Lives.count_freed (h : Lives p pins) (hid : id < p.leaves.length) :
    p.freedLeaves.count id = if id ∈ p.lruList ∨ 0 < pins id then 0 else 1 := by
  have hlife := h id
  rw [List.getElem?_eq_getElem hid] at hlife
  generalize hlinked : decide (id ∈ p.lruList) = linked at hlife
  generalize hleaf : some p.leaves[id] = leaf at hlife
  generalize hfreed : p.freedLeaves.count id = freed at hlife ⊢
  cases hlife with
  | absent _ => cases hleaf
  | linked _ _ _ => exact (if_pos (.inl (of_decide_eq_true hlinked))).symm
  | detached _ _ hheld _ => exact (if_pos (.inr hheld)).symm
  | gone _ _ hfree => exact (if_neg (not_or.mpr ⟨of_decide_eq_false hlinked, by omega⟩)).symm

theorem Lives.not_freed_of_held (h : Lives p pins) (hid : 0 < pins id) : id ∉ p.freedLeaves := by
  have hlife := h id
  generalize hlinked : decide (id ∈ p.lruList) = linked at hlife
  generalize hleaf : p.leaves[id]? = leaf at hlife
  rw [← count_eq_zero]
  generalize hfreed : p.freedLeaves.count id = freed at hlife ⊢
  cases hlife with
  | absent hfree => omega
  | linked _ _ _ => rfl
  | detached _ _ _ _ => rfl
  | gone _ _ hfree => omega

theorem LeafLife.of_eq {n n' freed freed' : Nat} {leaf leaf' : Option (TreeLeaf D)} {linked linked' : Bool}
    (h : LeafLife n leaf linked freed) (hn : n' = n) (hleaf : leaf' = leaf) (hlinked : linked' = linked)
    (hfreed : freed' = freed) : LeafLife n' leaf' linked' freed' := by
  subst hn hleaf hlinked hfreed
  exact h

theorem Lives.dropLeaf (h : Lives p pins) (hnodup : p.lruList.Nodup) (hid : id ∈ p.lruList) :
    Lives (p.dropLeaf id) pins := by
  obtain ⟨l, hl, hcount, hmark, hfreed⟩ := h.exists_leaf hid
  have hout : decide (id ∈ p.lruList.erase id) = false := decide_eq_false hnodup.not_mem_erase
  have hother {i : Nat} (hi : i ≠ id) : decide (i ∈ p.lruList.erase id) = decide (i ∈ p.lruList) :=
    decide_eq_decide.mpr (mem_erase_of_ne hi)
  intro i
  obtain ⟨hpos, heq⟩ | ⟨hfree, heq⟩ := dropLeaf_cases hl
  · rw [heq]
    by_cases hi : i = id
    · subst hi
      refine (LeafLife.detached { l with deleted := true } hcount (hcount ▸ hpos) rfl).of_eq rfl ?_ hout hfreed
      rw [List.getElem?_modify_eq, hl]
      rfl
    · exact (h i).of_eq rfl (List.getElem?_modify_ne _ _ (Ne.symm hi)) (hother hi) rfl
  · rw [heq]
    by_cases hi : i = id
    · subst hi
      refine (LeafLife.gone l hcount (hcount ▸ hfree)).of_eq rfl hl hout ?_
      rw [count_cons_self, hfreed]
    · exact (h i).of_eq rfl rfl (hother hi) (count_cons_of_ne (Ne.symm hi))

theorem Lives.touchLeaf (h : Lives p pins) (hid : id ∈ p.lruList) :
    Lives (p.touchLeaf id) (Function.update pins id (pins id + 1)) := by
  obtain ⟨l, hl, hcount, hmark, hfreed⟩ := h.exists_leaf hid
  intro i
  by_cases hi : i = id
  · subst hi
    refine (LeafLife.linked { l with refcnt := l.refcnt + 1 } (congrArg (· + 1) hcount) hmark).of_eq
      (Function.update_self _ _ _) ?_ (decide_eq_true mem_cons_self) hfreed
    change (p.leaves.modify i _)[i]? = _
    rw [List.getElem?_modify_eq, hl]
    rfl
  · refine (h i).of_eq (Function.update_of_ne hi _ _) (List.getElem?_modify_ne _ _ (Ne.symm hi)) ?_ rfl
    refine decide_eq_decide.mpr ?_
    change i ∈ id :: p.lruList.erase id ↔ _
    rw [mem_cons, mem_erase_of_ne hi, or_iff_right hi]

theorem putLeaf_cases (hl : p.leaves[id]? = some l) :
    ((l.deleted = false ∨ 1 < l.refcnt) ∧ p.putLeaf (some id) =
      { p with leaves := p.leaves.modify id fun l => { l with refcnt := l.refcnt - 1 } }) ∨
    ((l.deleted = true ∧ l.refcnt ≤ 1) ∧ p.putLeaf (some id) =
      { p with
        leaves := p.leaves.modify id fun l => { l with refcnt := l.refcnt - 1 },
        freedLeaves := id :: p.freedLeaves }) := by
  have hget : (p.leaves.modify id fun l => { l with refcnt := l.refcnt - 1 })[id]? =
      some { l with refcnt := l.refcnt - 1 } := by
    rw [List.getElem?_modify_eq, hl]
    rfl
  cases hmark : l.deleted with
  | false => exact .inl ⟨.inl rfl, by simp [putLeaf, leafIsDelete, hget, hmark]⟩
  | true =>
    by_cases hone : 1 < l.refcnt
    · exact .inl ⟨.inr hone, by simp [putLeaf, leafIsDelete, leafRefCount, hget, hmark, hone]⟩
    · refine .inr ⟨⟨rfl, by omega⟩, ?_⟩
      simp only [putLeaf, leafIsDelete, leafRefCount, hget, hmark, Option.map_some, Option.getD_some]
      rw [if_neg (by simp), if_neg (by omega)]
      exact releaseTreeLeaf_of_free (l := { l with refcnt := l.refcnt - 1 }) hget (Nat.sub_eq_zero_of_le (by omega))

theorem Lives.putLeaf (h : Lives p pins) (hpin : 0 < pins id) :
    Lives (p.putLeaf (some id)) (Function.update pins id (pins id - 1)) := by
  have hlife := h id
  generalize hleaf : p.leaves[id]? = leaf at hlife
  generalize hlinked : decide (id ∈ p.lruList) = linked at hlife
  generalize hfreed : p.freedLeaves.count id = freed at hlife
  have hget (l : TreeLeaf D) (hl : p.leaves[id]? = some l) :
      (p.leaves.modify id fun l => { l with refcnt := l.refcnt - 1 })[id]? =
        some { l with refcnt := l.refcnt - 1 } := by
    rw [List.getElem?_modify_eq, hl]
    rfl
  intro i
  cases hlife with
  | absent hfree => omega
  | gone l hcount hfree => omega
  | linked l hcount hmark =>
    obtain ⟨-, heq⟩ | ⟨hlast, -⟩ := putLeaf_cases hleaf
    · rw [heq]
      by_cases hi : i = id
      · subst hi
        exact (LeafLife.linked { l with refcnt := l.refcnt - 1 } (congrArg (· - 1) hcount) hmark).of_eq
          (Function.update_self _ _ _) (hget l hleaf) hlinked hfreed
      · exact (h i).of_eq (Function.update_of_ne hi _ _) (List.getElem?_modify_ne _ _ (Ne.symm hi)) rfl rfl
    · rw [hmark] at hlast
      cases hlast.1
  | detached l hcount hheld hmark =>
    obtain ⟨hmore, heq⟩ | ⟨hlast, heq⟩ := putLeaf_cases hleaf
    · rw [heq]
      by_cases hi : i = id
      · subst hi
        have hmore : 1 < l.refcnt := hmore.resolve_left (by rw [hmark]; exact Bool.noConfusion)
        exact (LeafLife.detached { l with refcnt := l.refcnt - 1 } (congrArg (· - 1) hcount) (by omega) hmark).of_eq
          (Function.update_self _ _ _) (hget l hleaf) hlinked hfreed
      · exact (h i).of_eq (Function.update_of_ne hi _ _) (List.getElem?_modify_ne _ _ (Ne.symm hi)) rfl rfl
    · rw [heq]
      by_cases hi : i = id
      · subst hi
        refine (LeafLife.gone { l with refcnt := l.refcnt - 1 } (congrArg (· - 1) hcount) (by omega)).of_eq
          (Function.update_self _ _ _) (hget l hleaf) hlinked ?_
        rw [count_cons_self, hfreed]
      · exact (h i).of_eq (Function.update_of_ne hi _ _) (List.getElem?_modify_ne _ _ (Ne.symm hi)) rfl
          (count_cons_of_ne (Ne.symm hi))

theorem Lives.fresh (h : Lives p pins) (hid : p.leaves.length ≤ id) :
    pins id = 0 ∧ id ∉ p.lruList ∧ p.freedLeaves.count id = 0 := by
  have hlife := h id
  rw [List.getElem?_eq_none hid] at hlife
  generalize hlinked : decide (id ∈ p.lruList) = linked at hlife
  generalize hfreed : p.freedLeaves.count id = freed at hlife
  cases hlife with
  | absent hfree => exact ⟨hfree, of_decide_eq_false hlinked, rfl⟩

private theorem getElem?_concat_of_ne {α : Type} {ls : List α} {a : α} {i : Nat} (hi : i ≠ ls.length) :
    (ls ++ [a])[i]? = ls[i]? := by
  rcases Nat.lt_or_gt_of_ne hi with hlt | hgt
  · exact List.getElem?_append_left hlt
  · rw [List.getElem?_eq_none (by rw [length_append, length_singleton]; omega),
      List.getElem?_eq_none (by omega)]

theorem Lives.linkLeaf (h : Lives p pins) (key : Nat) (data : D) : Lives (p.linkLeaf key data) pins := by
  obtain ⟨hpin, -, hfreed⟩ := h.fresh le_rfl
  intro i
  by_cases hi : i = p.leaves.length
  · subst hi
    exact (LeafLife.linked ⟨data, key, 0, false⟩ hpin.symm rfl).of_eq rfl List.getElem?_concat_length
      (decide_eq_true mem_cons_self) hfreed
  · refine (h i).of_eq rfl (getElem?_concat_of_ne hi) (decide_eq_decide.mpr ?_) rfl
    change i ∈ p.leaves.length :: p.lruList ↔ _
    rw [mem_cons, or_iff_right hi]

theorem failLeaf_eq (key : Nat) (data : D) : p.failLeaf key data =
    { p with
      leaves := p.leaves ++ [⟨data, key, 0, false⟩], freedLeaves := p.leaves.length :: p.freedLeaves } :=
  releaseTreeLeaf_of_free (l := ⟨data, key, 0, false⟩) List.getElem?_concat_length rfl

theorem Lives.failLeaf (h : Lives p pins) (key : Nat) (data : D) : Lives (p.failLeaf key data) pins := by
  obtain ⟨hpin, hout, hfreed⟩ := h.fresh le_rfl
  rw [failLeaf_eq]
  intro i
  by_cases hi : i = p.leaves.length
  · subst hi
    refine (LeafLife.gone ⟨data, key, 0, false⟩ hpin.symm hpin).of_eq rfl List.getElem?_concat_length
      (decide_eq_false hout) ?_
    rw [count_cons_self, hfreed]
  · exact (h i).of_eq rfl (getElem?_concat_of_ne hi) rfl (count_cons_of_ne (Ne.symm hi))

end DiscoClient.CachePool
