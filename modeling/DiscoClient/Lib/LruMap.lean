import DiscoClient.Lib.OrderedMap

/-! Maps that know in which order their keys were last used. -/

open List

/-- The entries, the most recently used first, and every use of a key so far, the last one first. -/
structure LruMap (K V : Type*) [DecidableEq K] where
  recent : List (K × V)
  uses : List K
  used : ∀ e ∈ recent, e.1 ∈ uses
  ordered : recent.Pairwise fun a b => uses.idxOf a.1 < uses.idxOf b.1

namespace LruMap
variable {K V : Type*} [DecidableEq K] (m : LruMap K V) {k a : K} {v w : V}

def empty : LruMap K V := ⟨[], [], fun _ h => absurd h List.not_mem_nil, List.Pairwise.nil⟩

def lookup (k : K) : Option V := m.recent.lookup k

def keep (p : K × V → Bool) : LruMap K V :=
  ⟨m.recent.filter p, m.uses, fun e h => m.used e (List.mem_of_mem_filter h), m.ordered.filter _⟩

private theorem store_used (k : K) (v : V) :
    ∀ e ∈ (k, v) :: m.recent.filter (fun e => e.1 != k), e.1 ∈ k :: m.uses := by
  intro e he
  rcases mem_cons.mp he with rfl | he
  · exact mem_cons_self
  · exact mem_cons_of_mem _ (m.used e (mem_of_mem_filter he))

private theorem store_ordered (k : K) (v : V) :
    ((k, v) :: m.recent.filter fun e => e.1 != k).Pairwise
      fun a b => (k :: m.uses).idxOf a.1 < (k :: m.uses).idxOf b.1 := by
  have hlater {e : K × V} (he : e ∈ m.recent.filter fun e => e.1 != k) :
      (k :: m.uses).idxOf e.1 = m.uses.idxOf e.1 + 1 :=
    idxOf_cons_ne _ (Ne.symm (by simpa using (mem_filter.mp he).2))
  refine pairwise_cons.mpr ⟨?_, ?_⟩
  · intro e he
    rw [idxOf_cons_self, hlater he]
    exact Nat.succ_pos _
  · refine (m.ordered.filter _).imp_of_mem ?_
    intro e f he hf hlt
    rw [hlater he, hlater hf]
    exact Nat.succ_lt_succ hlt

def store (k : K) (v : V) : LruMap K V := ⟨_, _, m.store_used k v, m.store_ordered k v⟩

def touch (k : K) : LruMap K V := ((m.lookup k).map (m.store k)).getD m

def storeAll (es : List (K × V)) : LruMap K V := es.foldl (fun m e => m.store e.1 e.2) m

def evict (n : Nat) : LruMap K V :=
  ⟨m.recent.take (m.recent.length - n), m.uses, fun e h => m.used e (List.mem_of_mem_take h),
    m.ordered.sublist (List.take_sublist _ _)⟩

theorem nodup_keys : (m.recent.map Prod.fst).Nodup :=
  pairwise_map.mpr (m.ordered.imp fun h heq => Nat.ne_of_lt h (congrArg (m.uses.idxOf ·) heq))

theorem lookup_eq_some : m.lookup k = some v ↔ (k, v) ∈ m.recent := lookup_eq_some_iff_mem m.nodup_keys

theorem evict_oldest {n : Nat} {e f : K × V} (he : e ∈ (m.evict n).recent) (hf : f ∈ m.recent)
    (hout : f ∉ (m.evict n).recent) : m.uses.idxOf e.1 < m.uses.idxOf f.1 := by
  have hsplit := m.ordered
  rw [← take_append_drop (m.recent.length - n) m.recent, pairwise_append] at hsplit
  refine hsplit.2.2 e he f ?_
  rw [← take_append_drop (m.recent.length - n) m.recent] at hf
  exact (mem_append.mp hf).resolve_left hout

theorem touch_of_lookup (h : m.lookup k = some v) : m.touch k = m.store k v := by
  rw [touch, h]
  rfl

theorem touch_of_not_mem (h : m.lookup k = none) : m.touch k = m := by
  rw [touch, h]
  rfl

theorem lookup_touch (a k : K) : (m.touch k).lookup a = m.lookup a := by
  cases h : m.lookup k with
  | none => rw [m.touch_of_not_mem h]
  | some v =>
    rw [m.touch_of_lookup h]
    refine Option.ext fun w => ?_
    rw [lookup_eq_some, lookup_eq_some]
    change (a, w) ∈ (k, v) :: m.recent.filter _ ↔ _
    rw [mem_cons, mem_filter, bne_iff_ne, Prod.mk.injEq]
    have hkv := m.lookup_eq_some.mp h
    constructor
    · rintro (⟨rfl, rfl⟩ | ⟨hmem, -⟩)
      · exact hkv
      · exact hmem
    · intro hmem
      by_cases ha : a = k
      · subst ha
        exact .inl ⟨rfl, Option.some.inj ((m.lookup_eq_some.mpr hmem).symm.trans h)⟩
      · exact .inr ⟨hmem, ha⟩

def touchAll (ks : List K) : LruMap K V := ks.foldr (fun k m => m.touch k) m

theorem lookup_touchAll (ks : List K) (a : K) : (m.touchAll ks).lookup a = m.lookup a := by
  induction ks with
  | nil => rfl
  | cons k ks ih => exact ((m.touchAll ks).lookup_touch a k).trans ih

theorem touchAll_filter (ks : List K) :
    m.touchAll (ks.filter fun k => (m.lookup k).isSome) = m.touchAll ks := by
  induction ks with
  | nil => rfl
  | cons k ks ih =>
    cases h : m.lookup k with
    | none =>
      rw [filter_cons_of_neg (by simp [h]), ih]
      exact ((m.touchAll ks).touch_of_not_mem ((m.lookup_touchAll ks k).trans h)).symm
    | some v =>
      rw [filter_cons_of_pos (by simp [h])]
      exact congrArg (fun m : LruMap K V => m.touch k) ih

private theorem ordered_of_nodup {l : List (K × V)} (h : (l.map Prod.fst).Nodup) :
    l.Pairwise fun a b => (l.map Prod.fst).idxOf a.1 < (l.map Prod.fst).idxOf b.1 := by
  refine pairwise_iff_getElem.mpr fun i j hi hj hlt => ?_
  have hidx (i : Nat) (hi : i < l.length) : (l.map Prod.fst).idxOf l[i].1 = i := by
    have hget := h.idxOf_getElem i (by rw [length_map]; exact hi)
    rwa [getElem_map] at hget
  rw [hidx i hi, hidx j hj]
  exact hlt

def ofRecent (l : List (K × V)) (h : (l.map Prod.fst).Nodup) : LruMap K V :=
  ⟨l, l.map Prod.fst, fun _ he => List.mem_map_of_mem he, ordered_of_nodup h⟩

private theorem mem_take_filter {α : Type*} {l : List α} {p : α → Bool} {a : α} {n : Nat} (h : a ∈ l.take n)
    (ha : p a = true) : a ∈ (l.filter p).take n := by
  induction l generalizing n with
  | nil => rw [take_nil] at h; cases h
  | cons b l ih =>
    cases n with
    | zero => rw [take_zero] at h; cases h
    | succ n =>
      rw [take_succ_cons] at h
      rcases mem_cons.mp h with rfl | h
      · rw [filter_cons_of_pos ha, take_succ_cons]
        exact mem_cons_self
      · have hin := ih h
        cases hb : p b with
        | true =>
          rw [filter_cons_of_pos hb, take_succ_cons]
          exact mem_cons_of_mem _ hin
        | false =>
          rw [filter_cons_of_neg (by rw [hb]; exact Bool.false_ne_true)]
          exact (take_sublist_take_left (Nat.le_succ n)).subset hin

theorem mem_take_storeAll (es : List (K × V)) {e : K × V} {n : Nat} (h : e ∈ m.recent.take n)
    (hes : ∀ f ∈ es, e.1 ≠ f.1) : e ∈ (m.storeAll es).recent.take (n + es.length) := by
  induction es generalizing m n with
  | nil => exact h
  | cons f es ih =>
    have hne : (e.1 != f.1) = true := bne_iff_ne.mpr (hes f mem_cons_self)
    have hstep : e ∈ (m.store f.1 f.2).recent.take (n + 1) := mem_cons_of_mem _ (mem_take_filter h hne)
    have hrest := ih (m.store f.1 f.2) hstep fun g hg => hes g (mem_cons_of_mem _ hg)
    rwa [Nat.add_assoc, Nat.add_comm 1] at hrest

theorem mem_take_storeAll_self {es : List (K × V)} (hes : (es.map Prod.fst).Nodup) {e : K × V} (h : e ∈ es) :
    e ∈ (m.storeAll es).recent.take es.length := by
  induction es generalizing m with
  | nil => cases h
  | cons f es ih =>
    obtain ⟨hnot, hnodup⟩ := nodup_cons.mp hes
    rcases mem_cons.mp h with rfl | h
    · have hfirst : e ∈ (m.store e.1 e.2).recent.take 1 := mem_cons_self
      have hrest := (m.store e.1 e.2).mem_take_storeAll es hfirst fun g hg heq =>
        hnot (heq ▸ mem_map_of_mem hg)
      rwa [Nat.add_comm] at hrest
    · have hrest := ih (m.store f.1 f.2) hnodup h
      exact (take_sublist_take_left (Nat.le_succ _)).subset hrest

end LruMap
