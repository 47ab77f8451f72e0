import Mathlib.Data.List.Basic
import Mathlib.Data.List.Nodup
import Mathlib.Data.List.Pairwise

/-! Finite maps on the naturals, kept as a list in the order of the keys. -/

open List

theorem lookup_eq_some_iff_mem {K V : Type*} [DecidableEq K] {l : List (K × V)} (hl : (l.map Prod.fst).Nodup)
    {k : K} {v : V} : l.lookup k = some v ↔ (k, v) ∈ l := by
  rw [lookup_eq_some_iff]
  constructor
  · rintro ⟨l₁, l₂, rfl, -⟩
    exact mem_append_right _ mem_cons_self
  · intro h
    obtain ⟨l₁, l₂, rfl⟩ := append_of_mem h
    refine ⟨l₁, l₂, rfl, ?_⟩
    intro e he
    rw [map_append, map_cons, nodup_append] at hl
    have hne := hl.2.2 e.1 (mem_map_of_mem he) k mem_cons_self
    simpa using Ne.symm hne

structure OrderedMap (V : Type*) where
  entries : List (Nat × V)
  sorted : entries.Pairwise fun a b => a.1 < b.1

namespace OrderedMap
variable {V : Type*} (m : OrderedMap V) {k a : Nat} {v w : V}

def empty : OrderedMap V := ⟨[], List.Pairwise.nil⟩

def lookup (k : Nat) : Option V := m.entries.lookup k

def erase (k : Nat) : OrderedMap V := ⟨m.entries.filter fun e => e.1 != k, m.sorted.filter _⟩

theorem sorted_insert (k : Nat) (v : V) :
    (m.entries.filter (fun e => e.1 < k) ++ (k, v) :: m.entries.filter fun e => k < e.1).Pairwise
      fun a b => a.1 < b.1 := by
  rw [pairwise_append, pairwise_cons]
  refine ⟨m.sorted.filter _, ⟨?_, m.sorted.filter _⟩, ?_⟩
  · intro e he
    simpa using (mem_filter.mp he).2
  · intro a ha b hb
    have hlt : a.1 < k := by simpa using (mem_filter.mp ha).2
    rcases mem_cons.mp hb with rfl | hb
    · exact hlt
    · have hgt : k < b.1 := by simpa using (mem_filter.mp hb).2
      exact Nat.lt_trans hlt hgt

def insert (k : Nat) (v : V) : OrderedMap V := ⟨_, m.sorted_insert k v⟩

def gang (start count : Nat) : List (Nat × V) := (m.entries.filter fun e => start ≤ e.1).take count

theorem nodup_keys : (m.entries.map Prod.fst).Nodup :=
  pairwise_map.mpr (m.sorted.imp fun h => Nat.ne_of_lt h)

theorem lookup_eq_some : m.lookup k = some v ↔ (k, v) ∈ m.entries := lookup_eq_some_iff_mem m.nodup_keys

theorem mem_insert : (a, w) ∈ (m.insert k v).entries ↔ (a = k ∧ w = v) ∨ (a ≠ k ∧ (a, w) ∈ m.entries) := by
  change (a, w) ∈ _ ++ (k, v) :: _ ↔ _
  rw [mem_append, mem_cons, mem_filter, mem_filter, Prod.mk.injEq]
  simp only [decide_eq_true_eq]
  constructor
  · rintro (⟨h, hlt⟩ | h | ⟨h, hlt⟩)
    · exact .inr ⟨Nat.ne_of_lt hlt, h⟩
    · exact .inl h
    · exact .inr ⟨Nat.ne_of_gt hlt, h⟩
  · rintro (h | ⟨hne, h⟩)
    · exact .inr (.inl h)
    · rcases Nat.lt_or_gt_of_ne hne with hlt | hlt
      · exact .inl ⟨h, hlt⟩
      · exact .inr (.inr ⟨h, hlt⟩)

theorem lookup_insert : (m.insert k v).lookup a = some w ↔ (a = k ∧ w = v) ∨ (a ≠ k ∧ m.lookup a = some w) := by
  rw [lookup_eq_some, mem_insert, lookup_eq_some]

theorem lookup_erase : (m.erase k).lookup a = some v ↔ a ≠ k ∧ m.lookup a = some v := by
  rw [lookup_eq_some, lookup_eq_some, erase, mem_filter, bne_iff_ne, and_comm]

theorem lookup_insert_self : (m.insert k v).lookup k = some v := m.lookup_insert.mpr (.inl ⟨rfl, rfl⟩)

theorem lookup_insert_of_ne (h : a ≠ k) : (m.insert k v).lookup a = m.lookup a := by
  refine Option.ext fun w => ?_
  rw [lookup_insert]
  exact ⟨fun hw => (hw.resolve_left fun heq => h heq.1).2, fun hw => .inr ⟨h, hw⟩⟩

theorem lookup_erase_self : (m.erase k).lookup k = none :=
  Option.eq_none_iff_forall_ne_some.mpr fun _ hw => (m.lookup_erase.mp hw).1 rfl

theorem lookup_erase_of_ne (h : a ≠ k) : (m.erase k).lookup a = m.lookup a := by
  refine Option.ext fun w => ?_
  rw [lookup_erase]
  exact ⟨fun hw => hw.2, fun hw => ⟨h, hw⟩⟩

theorem nodup_entries : m.entries.Nodup := m.sorted.imp fun hlt heq => Nat.ne_of_lt hlt (congrArg Prod.fst heq)

private theorem perm_of_mem {m' : OrderedMap V}
    (h : ∀ a w, (a, w) ∈ m'.entries ↔ (a = k ∧ w = v) ∨ (a ≠ k ∧ (a, w) ∈ m.entries)) :
    m'.entries.Perm ((k, v) :: (m.erase k).entries) := by
  have hmem (a : Nat) (w : V) : (a, w) ∈ (m.erase k).entries ↔ a ≠ k ∧ (a, w) ∈ m.entries := by
    rw [← lookup_eq_some, ← lookup_eq_some, lookup_erase]
  have hnot : (k, v) ∉ (m.erase k).entries := fun hin => ((hmem k v).mp hin).1 rfl
  refine (perm_ext_iff_of_nodup m'.nodup_entries (nodup_cons.mpr ⟨hnot, nodup_entries _⟩)).mpr ?_
  rintro ⟨a, w⟩
  rw [mem_cons, Prod.mk.injEq, hmem, h]

theorem perm_erase (h : m.lookup k = some v) : m.entries.Perm ((k, v) :: (m.erase k).entries) := by
  refine m.perm_of_mem fun a w => ?_
  rw [← lookup_eq_some]
  by_cases ha : a = k
  · subst ha
    simp [h, eq_comm]
  · simp [ha]

theorem perm_insert : (m.insert k v).entries.Perm ((k, v) :: (m.erase k).entries) :=
  m.perm_of_mem fun _ _ => m.mem_insert

theorem entries_erase (h : m.lookup k = none) : (m.erase k).entries = m.entries := by
  refine filter_eq_self.mpr ?_
  rintro ⟨a, w⟩ he
  rw [bne_iff_ne]
  rintro rfl
  rw [m.lookup_eq_some.mpr he] at h
  cases h

theorem sorted_gang (start count : Nat) : (m.gang start count).Pairwise fun a b => a.1 < b.1 :=
  (m.sorted.filter _).sublist (List.take_sublist _ _)

theorem length_gang_le (start count : Nat) : (m.gang start count).length ≤ count := length_take_le _ _

theorem of_mem_gang {start count : Nat} (h : (k, v) ∈ m.gang start count) : start ≤ k ∧ m.lookup k = some v := by
  obtain ⟨hmem, hle⟩ := mem_filter.mp (mem_of_mem_take h)
  exact ⟨by simpa using hle, m.lookup_eq_some.mpr hmem⟩

theorem start_add_le {l : List (Nat × V)} (hl : l.Pairwise fun a b => a.1 < b.1) {start i : Nat}
    (hstart : ∀ e ∈ l, start ≤ e.1) (h : l[i]? = some (k, v)) : start + i ≤ k := by
  induction l generalizing start i with
  | nil => cases h
  | cons e l ih =>
    cases i with
    | zero =>
      obtain rfl : e = (k, v) := by simpa using h
      exact hstart _ mem_cons_self
    | succ i =>
      obtain ⟨hhead, htail⟩ := pairwise_cons.mp hl
      have hle := hstart e mem_cons_self
      have hrest : ∀ f ∈ l, start + 1 ≤ f.1 := fun f hf => by have := hhead f hf; omega
      have hnext := ih htail hrest h
      omega

theorem mem_gang {start count : Nat} (hle : start ≤ k) (hlt : k < start + count) (h : m.lookup k = some v) :
    (k, v) ∈ m.gang start count := by
  have hmem : (k, v) ∈ m.entries.filter fun e => start ≤ e.1 :=
    mem_filter.mpr ⟨m.lookup_eq_some.mp h, by simpa using hle⟩
  obtain ⟨i, hi⟩ := List.getElem?_of_mem hmem
  have hpos := start_add_le (m.sorted.filter _) (fun e he => by simpa using (mem_filter.mp he).2) hi
  refine mem_of_getElem? (i := i) ?_
  rw [gang, List.getElem?_take_of_lt (by omega), hi]

theorem gang_one (h : m.lookup k = some v) : m.gang k 1 = [(k, v)] := by
  have hmem := m.mem_gang (Nat.le_refl k) (Nat.lt_add_one k) h
  have hlen := m.length_gang_le k 1
  match hgang : m.gang k 1 with
  | [] =>
    rw [hgang] at hmem
    exact absurd hmem not_mem_nil
  | [e] =>
    rw [hgang, mem_singleton] at hmem
    rw [hmem]
  | _ :: _ :: _ =>
    rw [hgang] at hlen
    exact absurd hlen (by simp)

def hits (start count : Nat) : List (Nat × V) :=
  (List.range' start count).filterMap fun k => (m.lookup k).map fun v => (k, v)

theorem mem_hits {start count : Nat} :
    (k, v) ∈ m.hits start count ↔ (start ≤ k ∧ k < start + count) ∧ m.lookup k = some v := by
  rw [hits, mem_filterMap]
  constructor
  · rintro ⟨j, hj, he⟩
    obtain ⟨w, hw, heq⟩ := Option.map_eq_some_iff.mp he
    obtain ⟨rfl, rfl⟩ := Prod.mk.inj heq
    exact ⟨mem_range'_1.mp hj, hw⟩
  · rintro ⟨hrange, hv⟩
    exact ⟨k, mem_range'_1.mpr hrange, by rw [hv, Option.map_some]⟩

theorem keys_hits (start count : Nat) :
    (m.hits start count).map Prod.fst = (List.range' start count).filter fun k => (m.lookup k).isSome := by
  rw [hits]
  induction List.range' start count with
  | nil => rfl
  | cons k ks ih =>
    cases h : m.lookup k with
    | none => rw [filterMap_cons_none (by rw [h]; rfl), ih, filter_cons_of_neg (by simp [h])]
    | some v =>
      rw [filterMap_cons_some (by rw [h]; rfl), map_cons, ih, filter_cons_of_pos (by simp [h])]

theorem values_hits (start count : Nat) :
    (m.hits start count).map Prod.snd = (List.range' start count).filterMap m.lookup := by
  rw [hits, map_filterMap]
  refine filterMap_congr fun k _ => ?_
  rw [Option.map_map]
  exact Option.map_id'

theorem sorted_hits (start count : Nat) : (m.hits start count).Pairwise fun a b => a.1 < b.1 := by
  refine pairwise_filterMap.mpr ((pairwise_lt_range' 1).imp fun hlt e he f hf => ?_)
  obtain ⟨v, -, rfl⟩ := Option.map_eq_some_iff.mp he
  obtain ⟨w, -, rfl⟩ := Option.map_eq_some_iff.mp hf
  exact hlt

theorem eq_of_mem_iff {l l' : List (Nat × V)} (hl : l.Pairwise fun a b => a.1 < b.1)
    (hl' : l'.Pairwise fun a b => a.1 < b.1) (h : ∀ k v, (k, v) ∈ l ↔ (k, v) ∈ l') : l = l' := by
  have hnodup {l : List (Nat × V)} (hl : l.Pairwise fun a b => a.1 < b.1) : l.Nodup :=
    hl.imp fun hlt heq => Nat.ne_of_lt hlt (congrArg Prod.fst heq)
  refine List.Perm.eq_of_pairwise (fun a b _ _ hab hba => absurd hba (Nat.lt_asymm hab)) hl hl' ?_
  exact (perm_ext_iff_of_nodup (hnodup hl) (hnodup hl')).mpr fun e => h e.1 e.2

theorem gang_filter (start count : Nat) :
    (m.gang start count).filter (fun e => e.1 < start + count) = m.hits start count := by
  refine eq_of_mem_iff ((m.sorted_gang start count).filter _) (m.sorted_hits start count) fun k v => ?_
  rw [mem_filter, mem_hits, decide_eq_true_eq]
  constructor
  · rintro ⟨hmem, hlt⟩
    obtain ⟨hle, hv⟩ := m.of_mem_gang hmem
    exact ⟨⟨hle, hlt⟩, hv⟩
  · rintro ⟨⟨hle, hlt⟩, hv⟩
    exact ⟨m.mem_gang hle hlt hv, hlt⟩

/-- The first count entries from a key on are those of a range that has as many, or after which there is none. -/
theorem gang_eq_hits {start n count : Nat} (hle : (m.hits start n).length ≤ count)
    (hend : (m.hits start n).length = count ∨ ∀ k, start + n ≤ k → m.lookup k = none) :
    m.gang start count = m.hits start n := by
  have hsplit : m.entries.filter (fun e => start ≤ e.1) =
      m.hits start n ++ m.entries.filter fun e => start + n ≤ e.1 := by
    refine eq_of_mem_iff (m.sorted.filter _) (pairwise_append.mpr ⟨m.sorted_hits start n, m.sorted.filter _, ?_⟩)
      fun k v => ?_
    · rintro ⟨a, v⟩ ha ⟨b, w⟩ hb
      have hlt := (m.mem_hits.mp ha).1.2
      have hge : start + n ≤ b := by simpa using (mem_filter.mp hb).2
      exact Nat.lt_of_lt_of_le hlt hge
    · rw [mem_append, mem_hits, mem_filter, mem_filter, lookup_eq_some]
      simp only [decide_eq_true_eq]
      rcases Nat.lt_or_ge k (start + n) with hk | hk
      · simp [hk, Nat.not_le.mpr hk, and_comm]
      · simp [hk, Nat.not_lt.mpr hk, Nat.le_trans (Nat.le_add_right start n) hk]
  rw [gang, hsplit]
  rcases hend with hfull | hnone
  · exact take_left' hfull
  · have hnil : (m.entries.filter fun e => start + n ≤ e.1) = [] := by
      refine filter_eq_nil_iff.mpr fun e he hge => ?_
      have hsome := m.lookup_eq_some.mpr he
      rw [hnone e.1 (by simpa using hge)] at hsome
      cases hsome
    rw [hnil, append_nil, take_of_length_le hle]

end OrderedMap
