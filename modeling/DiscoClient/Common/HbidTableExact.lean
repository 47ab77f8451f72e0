import DiscoClient.Common.CacheUpdate
import DiscoClient.Common.HbidTable

namespace DiscoClient
open List

namespace CachePool
variable {D : Type} {p q : CachePool D} {pins : Nat → Nat} {lb : Nat} {d : D}

def cached (p : CachePool D) (lb : Nat) : Option D :=
  (p.tree.lookup lb).bind fun id => (p.leaves[id]?).map TreeLeaf.data

namespace Sound

theorem cached_iff (h : Sound p pins) : p.cached lb = some d ↔ (lb, d) ∈ p.entries := by
  rw [cached, Option.bind_eq_some_iff, entries, mem_filterMap]
  constructor
  · rintro ⟨id, hid, hdata⟩
    obtain ⟨hin, d', hd'⟩ := (h.tree lb id).mp hid
    obtain ⟨leaf, hleaf, rfl⟩ := Option.map_eq_some_iff.mp hdata
    refine ⟨id, hin, ?_⟩
    rw [entryOf, hleaf, Option.map_some, Option.some_inj] at hd' ⊢
    rw [(Prod.mk.inj hd').1]
  · rintro ⟨id, hin, hd⟩
    obtain ⟨leaf, hleaf, heq⟩ := Option.map_eq_some_iff.mp hd
    refine ⟨id, (h.tree lb id).mpr ⟨hin, d, hd⟩, ?_⟩
    rw [hleaf, Option.map_some, (Prod.mk.inj heq).2]

theorem entry_unique (h : Sound p pins) {d' : D} (hd : (lb, d) ∈ p.entries) (hd' : (lb, d') ∈ p.entries) : d = d' := by
  rw [← h.cached_iff] at hd hd'
  exact Option.some.inj (hd.symm.trans hd')

theorem entries_reclaim (h : Sound p pins) (n : Nat) :
    (p.reclaim n).entries = p.entries.take (p.entries.length - (p.kickCount n).toNat) := by
  rw [CachePool.reclaim]
  split_ifs with hpos
  · obtain ⟨c, hc⟩ : ∃ c : Nat, p.kickCount n = c := ⟨_, (Int.toNat_of_nonneg hpos.le).symm⟩
    have hmax : p.kickCount n < 2 ^ 31 := by
      rw [kickCount]
      split_ifs
      · rw [toS32]
        omega
      · rw [toS32]
        omega
    rw [hc] at hpos hmax ⊢
    obtain ⟨ids, heq, hnodup, hsub, hkept⟩ := h.kickMetaCache (n := c) (by omega) fun _ => by omega
    obtain ⟨-, hleft⟩ := h.removeAll hnodup hsub
    rw [heq, entries, hleft.lruList, hleft.entryOf, hkept, h.take_entries, h.length_entries, Int.toNat_natCast]
  · rw [Int.toNat_of_nonpos (Int.not_lt.mp hpos), Nat.sub_zero, take_length]

theorem invalidateKeys (h : Sound p pins) (lbs : List Nat) :
    Sound (lbs.foldl CachePool.invalidateKey p) pins ∧
      ∀ e, e ∈ (lbs.foldl CachePool.invalidateKey p).entries ↔ e ∈ p.entries ∧ e.1 ∉ lbs := by
  induction lbs generalizing p with
  | nil => exact ⟨h, fun e => by simp⟩
  | cons lb lbs ih =>
    obtain ⟨hq, -, hent⟩ := h.invalidateKey lb
    obtain ⟨hr, hrest⟩ := ih hq
    refine ⟨hr, fun e => ?_⟩
    rw [foldl_cons, hrest, hent, mem_filter, bne_iff_ne, mem_cons, not_or, and_assoc]

end Sound
end CachePool

namespace ErcPool
variable {D : Type} {hbid : D → BitVec 64} {e : ErcPool D}

/-- The table holds an LB under an HBID just when it is cached with it, and invalidating an HBID takes exactly those
entries out of the pool. -/
structure Agrees (hbid : D → BitVec 64) (e : ErcPool D) : Prop where
  holds : ∀ h lb, e.hbidTable.Holds h lb ↔ (e.pool.cached lb).map hbid = some h
  invalidates : ∀ h lb, (e.cacheInvalidateByHbid h).pool.cached lb = (e.pool.cached lb).filter fun d => hbid d ≠ h

/-- The most recent entries, which stay when room is made for n items. -/
def staying (e : ErcPool D) (n : Nat) : List (Nat × D) :=
  e.pool.entries.take (e.pool.entries.length - (e.pool.kickCount n).toNat)

/-- An update that the pool has room for brings no other HBID to an LB that stays cached. -/
def SameHbids (hbid : D → BitVec 64) (e : ErcPool D) : ErcEvent D → Prop
  | .update start items => items.length ≤ e.pool.cacheSize → e.pool.cacheSize ≠ 0 →
      ∀ x ∈ items.zipIdx start, ∀ d, (x.2, d) ∈ e.staying items.length → hbid d = hbid x.1
  | _ => True

def Exact (hbid : D → BitVec 64) (e : ErcPool D) : Prop :=
  ∀ h lb, e.hbidTable.Holds h lb ↔ ∃ d, (lb, d) ∈ e.pool.entries ∧ hbid d = h

structure Inv (hbid : D → BitVec 64) (e : ErcPool D) : Prop where
  sound : e.pool.Sound fun _ => 0
  table : e.hbidTable.Ok
  exact : Exact hbid e

theorem inv_create (size : Nat) : Inv hbid (create size : ErcPool D) where
  sound := CachePool.Sound.create size
  table := ChainIndex.ok_empty
  exact _ _ := iff_of_false ChainIndex.not_holds_empty fun ⟨_, hd, _⟩ => absurd hd not_mem_nil

namespace Inv

variable (h : Inv hbid e)
include h

/-- An LB is cached with one HBID. -/
theorem holds_unique {a : BitVec 64} {lb : Nat} {d : D} (ha : e.hbidTable.Holds a lb)
    (hd : (lb, d) ∈ e.pool.entries) : hbid d = a := by
  obtain ⟨d', hd', rfl⟩ := (h.exact a lb).mp ha
  rw [h.sound.entry_unique hd hd']

theorem removeLeaf {key id : Nat} (hk : e.pool.tree.lookup key = some id) :
    Inv hbid (e.removeLeaf hbid key id) := by
  obtain ⟨hid, d, hd⟩ := (h.sound.tree key id).mp hk
  obtain ⟨leaf, hleaf, heq⟩ := Option.map_eq_some_iff.mp hd
  obtain ⟨rfl, rfl⟩ := Prod.mk.inj heq
  have hmem : (leaf.blkid, leaf.data) ∈ e.pool.entries := mem_filterMap.mpr ⟨id, hid, hd⟩
  have htable : (e.removeLeaf hbid leaf.blkid id).hbidTable = e.hbidTable.removeHbidTbl leaf.blkid (hbid leaf.data) := by
    rw [ErcPool.removeLeaf, hleaf]
  refine ⟨(h.sound.removeLeaf hk).1, htable ▸ h.table.modify fun c hc => hc.remove _ _, fun a lb => ?_⟩
  change (e.removeLeaf hbid leaf.blkid id).hbidTable.Holds a lb ↔
    ∃ d, (lb, d) ∈ (e.pool.removeLeaf leaf.blkid id).entries ∧ hbid d = a
  rw [htable, HbidTable.removeHbidTbl, ChainIndex.holds_remove h.table, h.sound.entries_removeLeaf hk]
  simp only [mem_filter, bne_iff_ne]
  constructor
  · rintro ⟨hheld, hother⟩
    obtain ⟨d, hd, rfl⟩ := (h.exact a lb).mp hheld
    refine ⟨d, ⟨hd, ?_⟩, rfl⟩
    rintro rfl
    exact hother ⟨by rw [h.sound.entry_unique hd hmem], rfl⟩
  · rintro ⟨d, ⟨hd, hne⟩, rfl⟩
    exact ⟨(h.exact _ _).mpr ⟨d, hd, rfl⟩, fun hsame => hne hsame.2⟩

theorem kickLoop (mdCmpFn : Option (D → Bool)) (count : Int) (total : Nat) {ids : List Nat}
    (hnodup : ids.Nodup) (hsub : ∀ i ∈ ids, i ∈ e.pool.lruList) (nr : Nat) (flag : Bool) :
    Inv hbid (kickLoop hbid mdCmpFn count total ids e nr flag).1 := by
  induction ids generalizing e nr flag with
  | nil => exact h
  | cons id ids ih =>
    obtain ⟨hout, hrest⟩ := nodup_cons.mp hnodup
    obtain ⟨hid, hothers⟩ := forall_mem_cons.mp hsub
    have hlook := h.sound.lookup hid
    have hleft : ∀ i ∈ ids, i ∈ (e.removeLeaf hbid (e.pool.leafBlkid id) id).pool.lruList := by
      intro i hi
      change i ∈ (e.pool.removeLeaf _ id).lruList
      rw [(h.sound.removeLeaf hlook).2.lruList]
      exact (mem_erase_of_ne (ne_of_mem_of_not_mem hi hout)).mpr (hothers i hi)
    rw [ErcPool.kickLoop]
    dsimp only
    split_ifs
    · exact ih h hrest hothers _ _
    · exact h.removeLeaf hlook
    · exact ih (h.removeLeaf hlook) hrest hleft _ _

theorem kickMetaCache (count : Int) (mdCmpFn : Option (D → Bool)) :
    Inv hbid (e.kickMetaCache hbid count mdCmpFn).1 := by
  have hnodup : e.pool.lruList.reverse.Nodup := nodup_reverse.mpr h.sound.nodup
  have hsub : ∀ i ∈ e.pool.lruList.reverse, i ∈ e.pool.lruList := fun i hi => mem_reverse.mp hi
  rw [ErcPool.kickMetaCache]
  split_ifs
  · exact h.kickLoop _ _ _ hnodup hsub _ _
  · exact h
  · exact h.kickLoop _ _ _ hnodup hsub _ _

theorem invalidateKey (key : Nat) : Inv hbid (e.invalidateKey hbid key) := by
  rw [ErcPool.invalidateKey]
  cases hk : e.pool.tree.lookup key with
  | none => exact h
  | some id => exact h.removeLeaf hk

theorem cacheInvalidateVolLB (start count : Nat) : Inv hbid (e.cacheInvalidateVolLB hbid start count) := by
  rw [ErcPool.cacheInvalidateVolLB]
  generalize List.range count = keys
  induction keys generalizing e with
  | nil => exact h
  | cons i keys ih => exact ih (h.invalidateKey (start + i))

/-- The entries after an HBID was invalidated. -/
theorem mem_entries_invalidated {a : BitVec 64} {lb : Nat} {d : D} :
    (lb, d) ∈ (e.cacheInvalidateByHbid a).pool.entries ↔ (lb, d) ∈ e.pool.entries ∧ hbid d ≠ a := by
  rw [cacheInvalidateByHbid, (h.sound.invalidateKeys _).2, HbidTable.removeHbid, Chain.mem_take (h.table _)]
  refine and_congr_right fun hd => not_congr ⟨fun hheld => h.holds_unique hheld hd, ?_⟩
  rintro rfl
  exact (h.exact _ _).mpr ⟨d, hd, rfl⟩

theorem cacheInvalidateByHbid (a : BitVec 64) : Inv hbid (e.cacheInvalidateByHbid a) := by
  refine ⟨(h.sound.invalidateKeys _).1, h.table.modify fun c hc => hc.take a, fun b lb => ?_⟩
  simp only [h.mem_entries_invalidated]
  change (e.hbidTable.modify a fun c => (Chain.take a c).2).Holds b lb ↔ _
  rw [ChainIndex.holds_take h.table, h.exact]
  constructor
  · rintro ⟨⟨d, hd, rfl⟩, hne⟩
    exact ⟨d, ⟨hd, hne⟩, rfl⟩
  · rintro ⟨d, ⟨hd, hne⟩, rfl⟩
    exact ⟨⟨d, hd, rfl⟩, hne⟩

theorem reclaim (n : Nat) : Inv hbid (e.reclaim hbid n) := by
  rw [ErcPool.reclaim]
  split_ifs
  · exact h.kickMetaCache _ _
  · exact h

theorem entries_reclaim (n : Nat) : (e.reclaim hbid n).pool.entries = e.staying n := by
  rw [pool_reclaim, h.sound.entries_reclaim, staying]

theorem agrees : Agrees hbid e where
  holds a lb := by
    rw [h.exact, Option.map_eq_some_iff]
    simp only [h.sound.cached_iff]
  invalidates a lb := by
    refine Option.ext fun d => ?_
    rw [(h.cacheInvalidateByHbid a).sound.cached_iff, h.mem_entries_invalidated, Option.filter_eq_some_iff,
      h.sound.cached_iff, decide_eq_true_eq]

end Inv

/-- The items of an update were stored from LB base on: pairs are only added to the table. -/
structure StoredAll (hbid : D → BitVec 64) (base : Nat) (items : List D) (e e' : ErcPool D) : Prop where
  sound : e'.pool.Sound fun _ => 0
  table : e'.hbidTable.Ok
  holds : ∀ h lb, e'.hbidTable.Holds h lb ↔ e.hbidTable.Holds h lb ∨ ∃ d, (d, lb) ∈ items.zipIdx base ∧ hbid d = h
  entries : ∀ lb d, (lb, d) ∈ e'.pool.entries ↔
    (d, lb) ∈ items.zipIdx base ∨ (lb, d) ∈ e.pool.entries ∧ ∀ x ∈ items.zipIdx base, x.2 ≠ lb

section Update
variable {base : Nat} {items : List D}

theorem storedAll_nil (hs : e.pool.Sound fun _ => 0) (ht : e.hbidTable.Ok) (base : Nat) : StoredAll hbid base [] e e :=
  ⟨hs, ht, fun _ _ => by simp, fun _ _ => by simp⟩

/-- One round of the loop of cache_update. -/
theorem storedAll_storeItem (hbid : D → BitVec 64) (hs : e.pool.Sound fun _ => 0) (ht : e.hbidTable.Ok) (key : Nat) (data : D) :
    StoredAll hbid key [data] e (e.storeItem hbid key data true true ⟨true, true⟩).1 := by
  obtain ⟨q, hq, hsound, hstored⟩ := hs.storeItem_ok key data (Eq.refl true) (.inl (Eq.refl true))
  have hpair : e.storeItem hbid key data true true ⟨true, true⟩ =
      (⟨q, e.hbidTable.modify (hbid data) (Chain.add (hbid data) key)⟩, .ok, some data) := by
    rw [storeItem, hq]
    simp [HbidTable.insertHbidHtbl]
  rw [hpair]
  refine ⟨hsound, ht.modify fun c hc => hc.add _ _, fun a lb => ?_, fun lb d => ?_⟩
  · rw [ChainIndex.holds_add]
    simp only [zipIdx_singleton, mem_singleton, Prod.mk.injEq]
    refine or_congr_right ⟨fun ⟨ha, hlb⟩ => ⟨data, ⟨rfl, hlb⟩, ha.symm⟩, ?_⟩
    rintro ⟨d, ⟨rfl, rfl⟩, rfl⟩
    exact ⟨rfl, rfl⟩
  · change (lb, d) ∈ q.entries ↔ _
    rw [hs.entries_of_stored hstored, mem_cons, mem_filter, bne_iff_ne]
    simp only [zipIdx_singleton, mem_singleton, Prod.mk.injEq, forall_eq]
    rw [and_comm (a := d = data), ne_comm]

theorem StoredAll.cons {data : D} {e₁ e₂ : ErcPool D} (h₁ : StoredAll hbid base [data] e e₁)
    (h₂ : StoredAll hbid (base + 1) items e₁ e₂) : StoredAll hbid base (data :: items) e e₂ := by
  refine ⟨h₂.sound, h₂.table, fun a lb => ?_, fun lb d => ?_⟩
  · have hfirst := h₁.holds a lb
    simp only [zipIdx_singleton, mem_singleton] at hfirst
    rw [h₂.holds, hfirst, or_assoc, ← exists_or]
    simp only [zipIdx_cons, mem_cons, or_and_right]
  · have hbehind : ∀ x ∈ items.zipIdx (base + 1), x.2 ≠ base := fun x hx heq => by
      have hle := le_snd_of_mem_zipIdx hx
      omega
    have hfirst := h₁.entries lb d
    simp only [zipIdx_singleton, mem_singleton, Prod.mk.injEq, forall_eq] at hfirst
    rw [h₂.entries, hfirst]
    simp only [zipIdx_cons, mem_cons, forall_eq_or_imp, Prod.mk.injEq]
    constructor
    · rintro (hrest | ⟨hnew | ⟨hold, hne⟩, hothers⟩)
      · exact .inl (.inr hrest)
      · exact .inl (.inl hnew)
      · exact .inr ⟨hold, hne, hothers⟩
    · rintro ((⟨rfl, rfl⟩ | hrest) | ⟨hold, hne, hothers⟩)
      · exact .inr ⟨.inl ⟨rfl, rfl⟩, hbehind⟩
      · exact .inl hrest
      · exact .inr ⟨.inr ⟨hold, hne⟩, hothers⟩

theorem storedAll_updateLoop (hbid : D → BitVec 64) (hs : e.pool.Sound fun _ => 0) (ht : e.hbidTable.Ok) (start : Nat)
    (items : List D) (i : Nat) (ret : CacheRet) :
    StoredAll hbid (start + i) items e
      (updateLoop hbid ⟨fun _ => true, fun _ => true⟩ (fun _ => ⟨true, true⟩) start items i e ret).1 := by
  induction items generalizing e i ret with
  | nil => exact storedAll_nil hs ht _
  | cons data items ih =>
    have hfirst := storedAll_storeItem hbid hs ht (start + i) data
    exact hfirst.cons (ih hfirst.sound hfirst.table (i + 1) _)

/-- Storing the items keeps the table exact just when none of them takes the place of one with another HBID. -/
theorem StoredAll.exact_iff {e' : ErcPool D} (h : Inv hbid e) (hst : StoredAll hbid base items e e') :
    Exact hbid e' ↔ ∀ x ∈ items.zipIdx base, ∀ d, (x.2, d) ∈ e.pool.entries → hbid d = hbid x.1 := by
  have hone {d d' : D} {lb : Nat} (hd : (d, lb) ∈ items.zipIdx base) (hd' : (d', lb) ∈ items.zipIdx base) : d = d' := by
    rw [mk_mem_zipIdx_iff_le_and_getElem?_sub] at hd hd'
    exact Option.some.inj (hd.2.symm.trans hd'.2)
  constructor
  · rintro hexact ⟨d, lb⟩ hx d' hd'
    -- the pair of the old entry is still in the table
    have hheld : e'.hbidTable.Holds (hbid d') lb := (hst.holds _ _).mpr (.inl ((h.exact _ _).mpr ⟨d', hd', rfl⟩))
    obtain ⟨d'', hd'', heq⟩ := (hexact _ _).mp hheld
    rcases (hst.entries _ _).mp hd'' with hnew | ⟨-, hnone⟩
    · rw [← heq, hone hnew hx]
    · exact absurd rfl (hnone _ hx)
  · intro hsame a lb
    rw [hst.holds]
    constructor
    · rintro (hheld | ⟨d, hd, rfl⟩)
      · obtain ⟨d, hd, rfl⟩ := (h.exact a lb).mp hheld
        by_cases hnew : ∃ x ∈ items.zipIdx base, x.2 = lb
        · obtain ⟨x, hx, rfl⟩ := hnew
          exact ⟨x.1, (hst.entries _ _).mpr (.inl hx), (hsame x hx d hd).symm⟩
        · exact ⟨d, (hst.entries _ _).mpr (.inr ⟨hd, fun x hx heq => hnew ⟨x, hx, heq⟩⟩), rfl⟩
      · exact ⟨d, (hst.entries _ _).mpr (.inl hd), rfl⟩
    · rintro ⟨d, hd, rfl⟩
      rcases (hst.entries _ _).mp hd with hnew | ⟨hold, -⟩
      · exact .inr ⟨d, hnew, rfl⟩
      · exact .inl ((h.exact _ _).mpr ⟨d, hold, rfl⟩)

end Update

theorem Agrees.exact (h : Agrees hbid e) (hs : e.pool.Sound fun _ => 0) : Exact hbid e := by
  intro a lb
  rw [h.holds, Option.map_eq_some_iff]
  simp only [hs.cached_iff]

/-- One call keeps the table in step just when it brings no other HBID to an LB that stays cached. -/
theorem Inv.step_iff (h : Inv hbid e) (ev : ErcEvent D) :
    (Agrees hbid (e.step hbid ev) ↔ SameHbids hbid e ev) ∧ (SameHbids hbid e ev → Inv hbid (e.step hbid ev)) := by
  cases ev with
  | evict count mdCmpFn =>
    have hinv := h.kickMetaCache count mdCmpFn
    exact ⟨iff_of_true hinv.agrees trivial, fun _ => hinv⟩
  | invalidate start count =>
    have hinv := h.cacheInvalidateVolLB start count
    exact ⟨iff_of_true hinv.agrees trivial, fun _ => hinv⟩
  | invalidateHb a =>
    have hinv := h.cacheInvalidateByHbid a
    exact ⟨iff_of_true hinv.agrees trivial, fun _ => hinv⟩
  | update start items =>
    rw [step, cacheUpdate, SameHbids]
    by_cases hbig : items.length > e.pool.cacheSize ∨ e.pool.cacheSize = 0
    · rw [if_pos hbig]
      exact ⟨iff_of_true h.agrees fun hle hpos => by omega, fun _ => h⟩
    · rw [if_neg hbig]
      have hroom := h.reclaim items.length
      have hst := storedAll_updateLoop hbid hroom.sound hroom.table start items 0 .ok
      have hiff := hst.exact_iff hroom
      rw [h.entries_reclaim] at hiff
      have hinv (hs : _) : Inv hbid _ := ⟨hst.sound, hst.table, hiff.mpr hs⟩
      refine ⟨⟨fun hagrees _ _ => hiff.mp (hagrees.exact hst.sound), fun hs => (hinv ?_).agrees⟩, fun hs => hinv ?_⟩
      · exact hs (by omega) (by omega)
      · exact hs (by omega) (by omega)

/-- The table and the pool agree at the beginning and after every call of a run, just when no update of the run brings
another HBID to an LB that stays cached. -/
theorem hbid_table_agrees_iff (hbid : D → BitVec 64) (size : Nat) (es : List (ErcEvent D)) :
    (∀ fs, fs <+: es → Agrees hbid ((machine hbid).exec (create size) fs)) ↔
      ((machine hbid).restrict (SameHbids hbid)).Legal (create size) es := by
  have general (e : ErcPool D) (h : Inv hbid e) : (∀ fs, fs <+: es → Agrees hbid ((machine hbid).exec e fs)) ↔
      ((machine hbid).restrict (SameHbids hbid)).Legal e es := by
    induction es generalizing e with
    | nil =>
      refine iff_of_true (fun fs hfs => ?_) trivial
      rw [prefix_nil.mp hfs]
      exact h.agrees
    | cons ev es ih =>
      obtain ⟨hiff, hinv⟩ := h.step_iff ev
      rw [GuardedMachine.legal_cons]
      constructor
      · intro hall
        have hsame : SameHbids hbid e ev := hiff.mp (hall [ev] (prefix_append [ev] es))
        refine ⟨⟨trivial, hsame⟩, (ih _ (hinv hsame)).mp fun fs hfs => ?_⟩
        exact hall (ev :: fs) ((prefix_cons_inj ev).mpr hfs)
      · rintro ⟨⟨-, hsame⟩, hrest⟩ fs hfs
        rcases prefix_cons_iff.mp hfs with rfl | ⟨gs, rfl, hgs⟩
        · exact h.agrees
        · exact (ih _ (hinv hsame)).mpr hrest gs hgs
  exact general _ (inv_create size)

def replacedRun : ErcPool (BitVec 64) := (machine id).exec (create 4) [.update 5 [1], .update 5 [2]]

/-- The table still has LB 5 under HBID 1, so that invalidating HBID 1 drops the entry with HBID 2. -/
theorem replaced_hbid_stays_in_table :
    replacedRun.hbidTable.Holds 1 5 ∧ replacedRun.pool.cached 5 = some 2 ∧
      (replacedRun.cacheInvalidateByHbid 1).pool.cached 5 = none := by
  refine ⟨?_, ?_, ?_⟩
  · decide
  · decide
  · decide

end ErcPool
end DiscoClient
