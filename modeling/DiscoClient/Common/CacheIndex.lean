import DiscoClient.Common.CacheLeaves

namespace DiscoClient.CachePool
open List
variable {D : Type} {p q : CachePool D} {pins : Nat → Nat} {id i k key : Nat} {d : D}

def entries (p : CachePool D) : List (Nat × D) := p.lruList.filterMap p.entryOf

structure Sound (p : CachePool D) (pins : Nat → Nat) : Prop where
  nodup : p.lruList.Nodup
  num : p.cacheNum = p.lruList.length
  tree : ∀ k id, p.tree.lookup k = some id ↔ id ∈ p.lruList ∧ ∃ d, p.entryOf id = some (k, d)
  lives : Lives p pins

theorem Sound.create (cacheSize : Nat) : Sound (create cacheSize : CachePool D) fun _ => 0 where
  nodup := nodup_nil
  num := rfl
  tree k id := by simp [CachePool.create, OrderedMap.lookup_eq_some, OrderedMap.empty]
  lives _ := LeafLife.absent rfl

namespace Sound

section

variable (h : Sound p pins)
include h

theorem entry (hid : id ∈ p.lruList) : ∃ d, p.entryOf id = some (p.leafBlkid id, d) := by
  obtain ⟨l, hl, -⟩ := h.lives.exists_leaf hid
  refine ⟨l.data, ?_⟩
  rw [entryOf, leafBlkid, hl]
  rfl

theorem lookup (hid : id ∈ p.lruList) : p.tree.lookup (p.leafBlkid id) = some id :=
  (h.tree _ _).mpr ⟨hid, h.entry hid⟩

theorem key_ne (hk : p.tree.lookup k = some id) (hi : i ∈ p.lruList) (hne : i ≠ id) {k' : Nat}
    (he : p.entryOf i = some (k', d)) : k' ≠ k := by
  rintro rfl
  have hlook := (h.tree k' i).mpr ⟨hi, d, he⟩
  rw [hk] at hlook
  exact hne (Option.some.inj hlook).symm

theorem leafBlkid_eq (hk : p.tree.lookup k = some id) : p.leafBlkid id = k := by
  obtain ⟨hid, d, hd⟩ := (h.tree k id).mp hk
  obtain ⟨d', hd'⟩ := h.entry hid
  rw [hd] at hd'
  exact (congrArg Prod.fst (Option.some.inj hd')).symm

theorem filterMap_erase (hk : p.tree.lookup k = some id) :
    (p.lruList.erase id).filterMap p.entryOf = p.entries.filter fun e => e.1 != k := by
  rw [h.nodup.erase_eq_filter, filterMap_filter, entries, filter_filterMap]
  refine filterMap_congr fun i hi => ?_
  by_cases hne : i = id
  · subst hne
    obtain ⟨-, d, hd⟩ := (h.tree k i).mp hk
    simp [hd, Option.filter]
  · obtain ⟨d, hd⟩ := h.entry hi
    have hkey := h.key_ne hk hi hne hd
    simp [hne, hd, hkey, Option.filter]

end

structure Removed (p q : CachePool D) (id : Nat) : Prop where
  cacheSize : q.cacheSize = p.cacheSize
  lruList : q.lruList = p.lruList.erase id
  entryOf : q.entryOf = p.entryOf
  items : q.leaves.map TreeLeaf.data = p.leaves.map TreeLeaf.data

theorem removeLeaf (h : Sound p pins) (hk : p.tree.lookup key = some id) :
    Sound (p.removeLeaf key id) pins ∧ Removed p (p.removeLeaf key id) id := by
  obtain ⟨hid, d, hd⟩ := (h.tree key id).mp hk
  obtain ⟨l, hl, -⟩ := h.lives.exists_leaf hid
  have hframe : DropFrame { p with tree := p.tree.erase key } (p.removeLeaf key id) id := dropLeaf_frame hl
  have hentry : (p.removeLeaf key id).entryOf = p.entryOf := hframe.entryOf
  have hlru : (p.removeLeaf key id).lruList = p.lruList.erase id := hframe.lruList
  refine ⟨⟨?_, ?_, ?_, ?_⟩, hframe.cacheSize, hlru, hentry, hframe.items⟩
  · rw [hlru]
    exact h.nodup.erase id
  · have hpos : 0 < p.lruList.length := length_pos_of_mem hid
    rw [hframe.cacheNum, hlru, length_erase_of_mem hid]
    change p.cacheNum - 1 = _
    rw [h.num]
    omega
  · intro k i
    rw [hframe.tree, hlru, hentry, OrderedMap.lookup_erase, h.tree, h.nodup.mem_erase_iff]
    constructor
    · rintro ⟨hne, hi, d', hd'⟩
      refine ⟨⟨?_, hi⟩, d', hd'⟩
      rintro rfl
      rw [hd] at hd'
      exact hne (congrArg Prod.fst (Option.some.inj hd')).symm
    · rintro ⟨⟨hne, hi⟩, d', hd'⟩
      exact ⟨h.key_ne hk hi hne hd', hi, d', hd'⟩
  · exact Lives.dropLeaf (p := { p with tree := p.tree.erase key }) h.lives h.nodup hid

theorem entries_removeLeaf (h : Sound p pins) (hk : p.tree.lookup key = some id) :
    (p.removeLeaf key id).entries = p.entries.filter fun e => e.1 != key := by
  obtain ⟨-, hremoved⟩ := h.removeLeaf hk
  rw [entries, hremoved.lruList, hremoved.entryOf, h.filterMap_erase hk]

theorem touchLeaf (h : Sound p pins) (hid : id ∈ p.lruList) :
    Sound (p.touchLeaf id) (Function.update pins id (pins id + 1)) where
  nodup := nodup_cons.mpr ⟨h.nodup.not_mem_erase, h.nodup.erase id⟩
  num := by
    have hpos : 0 < p.lruList.length := length_pos_of_mem hid
    change p.cacheNum = ((id :: p.lruList.erase id).length : Int)
    rw [length_cons, length_erase_of_mem hid, h.num]
    omega
  tree k i := by
    rw [entryOf_modify (q := p.touchLeaf id) rfl fun _ => ⟨rfl, rfl⟩]
    change p.tree.lookup k = some i ↔ i ∈ id :: p.lruList.erase id ∧ _
    rw [h.tree, mem_cons, h.nodup.mem_erase_iff]
    by_cases hi : i = id
    · simp [hi, hid]
    · simp [hi]
  lives := h.lives.touchLeaf hid

theorem entryOf_touchLeaf : (p.touchLeaf id).entryOf = p.entryOf := entryOf_modify rfl fun _ => ⟨rfl, rfl⟩

theorem entries_touchLeaf (h : Sound p pins) (hk : p.tree.lookup k = some id) (hd : p.entryOf id = some (k, d)) :
    (p.touchLeaf id).entries = (k, d) :: p.entries.filter fun e => e.1 != k := by
  rw [entries, entryOf_touchLeaf]
  change (id :: p.lruList.erase id).filterMap _ = _
  rw [filterMap_cons_some hd, h.filterMap_erase hk]

structure PutFrame (p q : CachePool D) : Prop where
  cacheSize : q.cacheSize = p.cacheSize
  cacheNum : q.cacheNum = p.cacheNum
  tree : q.tree = p.tree
  lruList : q.lruList = p.lruList
  entryOf : q.entryOf = p.entryOf

theorem putLeaf_frame (b : Option Nat) : PutFrame p (p.putLeaf b) := by
  cases b with
  | none => exact ⟨rfl, rfl, rfl, rfl, rfl⟩
  | some id =>
    cases hl : p.leaves[id]? with
    | none =>
      have hsame : p.putLeaf (some id) = { p with leaves := p.leaves.modify id fun l => { l with refcnt := l.refcnt - 1 } } := by
        have hget : (p.leaves.modify id fun l => { l with refcnt := l.refcnt - 1 })[id]? = none := by
          rw [List.getElem?_modify_eq, hl]
          rfl
        simp [putLeaf, leafIsDelete, hget]
      rw [hsame]
      exact ⟨rfl, rfl, rfl, rfl, entryOf_modify rfl fun _ => ⟨rfl, rfl⟩⟩
    | some l =>
      obtain ⟨-, heq⟩ | ⟨-, heq⟩ := putLeaf_cases hl
      · rw [heq]
        exact ⟨rfl, rfl, rfl, rfl, entryOf_modify rfl fun _ => ⟨rfl, rfl⟩⟩
      · rw [heq]
        exact ⟨rfl, rfl, rfl, rfl, entryOf_modify rfl fun _ => ⟨rfl, rfl⟩⟩

theorem putLeaf (h : Sound p pins) (hpin : 0 < pins id) :
    Sound (p.putLeaf (some id)) (Function.update pins id (pins id - 1)) := by
  have hframe := putLeaf_frame (p := p) (some id)
  refine ⟨?_, ?_, ?_, h.lives.putLeaf hpin⟩
  · rw [hframe.lruList]
    exact h.nodup
  · rw [hframe.cacheNum, hframe.lruList]
    exact h.num
  · intro k i
    rw [hframe.tree, hframe.lruList, hframe.entryOf]
    exact h.tree k i

theorem live (h : Sound p pins) (hid : id ∈ p.lruList) : id < p.leaves.length := by
  obtain ⟨l, hl, -⟩ := h.lives.exists_leaf hid
  exact (List.getElem?_eq_some_iff.mp hl).1

def others (p : CachePool D) (key : Nat) : List Nat := p.lruList.filter fun i => p.tree.lookup key != some i

/-- The pool after an item was stored in a new leaf, the head of the list. -/
structure Stored (p q : CachePool D) (key : Nat) (data : D) : Prop where
  cacheSize : q.cacheSize = p.cacheSize
  cacheNum : q.cacheNum = (others p key).length + 1
  tree : q.tree = p.tree.insert key p.leaves.length
  lruList : q.lruList = p.leaves.length :: others p key
  new : q.entryOf p.leaves.length = some (key, data)
  old : ∀ i < p.leaves.length, q.entryOf i = p.entryOf i
  items : q.leaves.map TreeLeaf.data = p.leaves.map TreeLeaf.data ++ [data]

theorem linkLeaf_entries (key : Nat) (data : D) :
    (p.linkLeaf key data).entryOf p.leaves.length = some (key, data) ∧
      ∀ i < p.leaves.length, (p.linkLeaf key data).entryOf i = p.entryOf i := by
  refine ⟨?_, fun i hi => ?_⟩
  · change ((p.leaves ++ [_])[p.leaves.length]?).map _ = _
    rw [List.getElem?_concat_length]
    rfl
  · change ((p.leaves ++ [_])[i]?).map _ = _
    rw [List.getElem?_append_left hi, entryOf]

variable (h : Sound p pins)
include h

theorem stored_linkLeaf (hk : p.tree.lookup key = none) (data : D) :
    Stored p (p.linkLeaf key data) key data := by
  have hall : others p key = p.lruList := by
    refine filter_eq_self.mpr fun i _ => ?_
    rw [hk]
    rfl
  obtain ⟨hnew, hold⟩ := linkLeaf_entries (p := p) key data
  refine ⟨rfl, ?_, rfl, ?_, hnew, hold, map_append⟩
  · rw [hall, ← h.num]
    rfl
  · rw [hall]
    rfl

theorem stored_dropLeaf {old : Nat} (hk : p.tree.lookup key = some old) (data : D) :
    Stored p ((p.linkLeaf key data).dropLeaf old) key data := by
  obtain ⟨hin, -⟩ := (h.tree key old).mp hk
  have hlt := h.live hin
  obtain ⟨l, hl, -⟩ := h.lives.exists_leaf hin
  have hget : (p.linkLeaf key data).leaves[old]? = some l := (List.getElem?_append_left hlt).trans hl
  have hframe := dropLeaf_frame hget
  have hothers : others p key = p.lruList.erase old := by
    rw [h.nodup.erase_eq_filter, others, hk]
    refine filter_congr fun i _ => ?_
    rw [Bool.eq_iff_iff, bne_iff_ne, bne_iff_ne]
    exact not_congr (Option.some_inj.trans eq_comm)
  obtain ⟨hnew, hold⟩ := linkLeaf_entries (p := p) key data
  refine ⟨hframe.cacheSize, ?_, hframe.tree, ?_, ?_, ?_, hframe.items.trans map_append⟩
  · have hpos : 0 < p.lruList.length := length_pos_of_mem hin
    rw [hframe.cacheNum, hothers, length_erase_of_mem hin]
    change p.cacheNum + 1 - 1 = _
    rw [h.num]
    omega
  · rw [hframe.lruList, hothers]
    exact erase_cons_tail (by simpa using Nat.ne_of_gt hlt)
  · rw [hframe.entryOf]
    exact hnew
  · rw [hframe.entryOf]
    exact hold

theorem mem_others : i ∈ others p key ↔ i ∈ p.lruList ∧ p.leafBlkid i ≠ key := by
  rw [others, mem_filter, bne_iff_ne]
  refine and_congr_right fun hi => not_congr ⟨fun hk => ?_, fun hk => hk ▸ h.lookup hi⟩
  exact h.leafBlkid_eq hk

theorem of_stored {data : D} (hq : Stored p q key data) (hlives : Lives q pins) :
    Sound q pins where
  nodup := by
    rw [hq.lruList, nodup_cons]
    exact ⟨fun hmem => (h.lives.fresh le_rfl).2.1 (mem_of_mem_filter hmem), h.nodup.filter _⟩
  num := by
    rw [hq.cacheNum, hq.lruList, length_cons]
    rfl
  tree k i := by
    rw [hq.tree, hq.lruList, OrderedMap.lookup_insert, mem_cons, h.mem_others, h.tree]
    constructor
    · rintro (⟨rfl, rfl⟩ | ⟨hne, hi, d, hd⟩)
      · exact ⟨.inl rfl, data, hq.new⟩
      · have hblk := h.leafBlkid_eq ((h.tree k i).mpr ⟨hi, d, hd⟩)
        exact ⟨.inr ⟨hi, hblk ▸ hne⟩, d, (hq.old i (h.live hi)).trans hd⟩
    · rintro ⟨rfl | ⟨hi, hne⟩, d, hd⟩
      · rw [hq.new] at hd
        exact .inl ⟨(congrArg Prod.fst (Option.some.inj hd)).symm, rfl⟩
      · rw [hq.old i (h.live hi)] at hd
        have hblk := h.leafBlkid_eq ((h.tree k i).mpr ⟨hi, d, hd⟩)
        exact .inr ⟨hblk ▸ hne, hi, d, hd⟩
  lives := hlives

theorem entries_of_stored {data : D} (hq : Stored p q key data) :
    q.entries = (key, data) :: p.entries.filter fun e => e.1 != key := by
  rw [entries, hq.lruList, filterMap_cons_some hq.new, entries, others, filterMap_filter,
    filter_filterMap]
  congr 1
  refine filterMap_congr fun i hi => ?_
  obtain ⟨d, hd⟩ := h.entry hi
  rw [hq.old i (h.live hi), hd]
  by_cases hk : p.leafBlkid i = key
  · have hlook := h.lookup hi
    rw [hk] at hlook
    simp [hlook, hk, Option.filter]
  · have hlook : p.tree.lookup key ≠ some i := fun hlook => hk (h.leafBlkid_eq hlook)
    simp [hlook, hk, Option.filter]

end Sound
end DiscoClient.CachePool
