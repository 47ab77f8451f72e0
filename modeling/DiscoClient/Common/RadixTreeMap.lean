import DiscoClient.Common.RadixTree

/-! What a radix tree holds, as a map from keys to items. -/
namespace DiscoClient.RadixTree
variable {α β : Type}
  {h i index : Nat} {node : Node (Cell α h)} {cell : Cell α h} {slot c : Option (Cell α h)} {mem : List Bool} {root : Root α}

/-! ### Digits of a key -/

theorem two_pow_shift (h : Nat) : 2 ^ (h * mapShift) = 64 ^ h := by
  rw [mapShift, Nat.mul_comm, Nat.pow_mul]

theorem offset_eq (h k : Nat) : offset h k = k / 64 ^ h % 64 := by
  rw [offset, Nat.shiftRight_eq_div_pow, two_pow_shift]
  exact Nat.and_two_pow_sub_one_eq_mod _ 6

theorem offset_lt (h k : Nat) : offset h k < 64 := by
  rw [offset_eq]
  exact Nat.mod_lt _ (by decide)

theorem mod_eq_iff_offset (h k i : Nat) :
    k % 64 ^ (h + 1) = i % 64 ^ (h + 1) ↔ offset h k = offset h i ∧ k % 64 ^ h = i % 64 ^ h := by
  rw [offset_eq, offset_eq]
  constructor
  · intro heq
    have hhigh := congrArg (· / 64 ^ h) heq
    have hlow := congrArg (· % 64 ^ h) heq
    simp only [Nat.pow_succ, Nat.mod_mul_right_div_self, Nat.mod_mul_right_mod] at hhigh hlow
    exact ⟨hhigh, hlow⟩
  · rintro ⟨hhigh, hlow⟩
    rw [Nat.mod_pow_succ, Nat.mod_pow_succ, hhigh, hlow]

theorem maxindex_eq (h : Nat) : maxindex h + 1 = min (64 ^ h) (2 ^ 64) := by
  by_cases hle : 11 ≤ h
  · have hpow : 64 ^ 11 ≤ 64 ^ h := Nat.pow_le_pow_right (by decide) hle
    rw [maxindex, if_pos (by rw [indexBits, mapShift]; omega)]
    omega
  · have hsmall : ∀ h < 11, maxindex h + 1 = min (64 ^ h) (2 ^ 64) := by decide
    exact hsmall h (Nat.lt_of_not_le hle)

theorem lt_pow_of_le_maxindex {h k : Nat} (hk : k ≤ maxindex h) : k < 64 ^ h := by
  have := maxindex_eq h
  omega

theorem maxindex_eleven : maxindex 11 = 2 ^ 64 - 1 := rfl

/-- A higher tree has room for the same keys, in its first slot, and for those above. -/
theorem maxindex_lt_iff {h k : Nat} (hk : k ≤ maxindex (h + 1)) : maxindex h < k ↔ offset h k ≠ 0 := by
  have hmax := maxindex_eq h
  have hmax' := maxindex_eq (h + 1)
  have hpow : 0 < 64 ^ h := Nat.pow_pos (by decide)
  have hlt := lt_pow_of_le_maxindex hk
  rw [Nat.pow_succ] at hlt
  have hdiv : k / 64 ^ h < 64 := Nat.div_lt_of_lt_mul hlt
  rw [offset_eq, Nat.mod_eq_of_lt hdiv, Ne, Nat.div_eq_zero_iff]
  omega

theorem maxindex_le_succ (h : Nat) : maxindex h ≤ maxindex (h + 1) := by
  have hmax := maxindex_eq h
  have hmax' := maxindex_eq (h + 1)
  have hpow : 64 ^ h ≤ 64 ^ (h + 1) := Nat.pow_le_pow_right (by decide) (Nat.le_succ h)
  omega

/-! ### The item of a key -/

def get (k : Nat) : (h : Nat) → Option (Cell α h) → Option α
  | 0, slot => slot
  | h + 1, slot => slot.bind fun (node : Node (Cell α h)) => get k h (node.slots (offset h k))

@[simp] theorem get_none (k h : Nat) : get k h (none : Option (Cell α h)) = none := by
  cases h <;> rfl

theorem get_node (k h : Nat) (node : Node (Cell α h)) :
    get k (h + 1) (some node : Option (Cell α (h + 1))) = get k h (node.slots (offset h k)) := rfl

def Root.find (root : Root α) (k : Nat) : Option α :=
  if maxindex root.height < k then none else get k root.height root.rnode

theorem find_mk (h : Nat) (slot : Option (Cell α h)) (k : Nat) :
    (⟨h, slot⟩ : Root α).find k = if maxindex h < k then none else get k h slot := rfl

theorem find_none (h k : Nat) : (⟨h, none⟩ : Root α).find k = none := by
  rw [find_mk, get_none, ite_self]

/-! ### Nodes and their counts -/

def occupied (slots : Nat → Option β) : Nat := ((Finset.range 64).filter fun i => (slots i).isSome).card

theorem occupied_fill {slots : Nat → Option β} (hi : i < 64) (c : β) :
    occupied (Function.update slots i (some c)) = if (slots i).isNone then occupied slots + 1 else occupied slots := by
  have hins : ((Finset.range 64).filter fun j => (Function.update slots i (some c) j).isSome) =
      insert i ((Finset.range 64).filter fun j => (slots j).isSome) := by
    ext j
    by_cases hj : j = i
    · subst hj
      simp [hi]
    · simp [hj]
  rw [occupied, hins]
  by_cases hs : (slots i).isSome
  · rw [Finset.insert_eq_of_mem (by simp [hi, hs]), if_neg (by simpa [Option.isSome_iff_ne_none] using hs)]
    rfl
  · rw [Finset.card_insert_of_notMem (by simp [hs]), if_pos (by simpa using hs)]
    rfl

theorem occupied_clear {slots : Nat → Option β} (hi : i < 64) (hs : (slots i).isSome) :
    occupied (Function.update slots i none) = occupied slots - 1 := by
  have hers : ((Finset.range 64).filter fun j => (Function.update slots i none j).isSome) =
      ((Finset.range 64).filter fun j => (slots j).isSome).erase i := by
    ext j
    by_cases hj : j = i
    · subst hj
      simp
    · simp [hj]
  rw [occupied, hers, Finset.card_erase_of_mem (by simp [hi, hs])]
  rfl

theorem slots_eq_none (slots : Nat → Option β) (hone : occupied slots ≤ 1) {i j : Nat} (hi : i < 64) (hj : j < 64)
    (hs : (slots i).isSome) (hne : j ≠ i) : slots j = none := by
  by_contra hn
  refine hne (Finset.card_le_one.mp hone j ?_ i ?_)
  · simp [hj, Option.isSome_iff_ne_none, hn]
  · simp [hi, hs]

/-- Every node counts its own slots that are in use. -/
def Counted : (h : Nat) → Cell α h → Prop
  | 0, _ => True
  | h + 1, (node : Node (Cell α h)) =>
    node.count = occupied node.slots ∧ ∀ i, ∀ child ∈ node.slots i, Counted h child

theorem counted_update {slots : Nat → Option (Cell α h)} (hold : ∀ i, ∀ child ∈ slots i, Counted h child)
    (i : Nat) (hnew : ∀ child ∈ c, Counted h child) :
    ∀ j, ∀ child ∈ Function.update slots i c j, Counted h child := by
  intro j
  by_cases hij : j = i
  · subst hij
    rwa [Function.update_self]
  · rw [Function.update_of_ne hij]
    exact hold j

theorem counted_put (hc : Counted (h + 1) node) (hi : i < 64) (hnew : ∀ child ∈ c, Counted h child)
    (hkeep : (node.slots i).isSome → c.isSome) :
    Counted (h + 1) (node.put i c) := by
  refine ⟨?_, counted_update hc.2 i hnew⟩
  change (if (node.slots i).isNone && c.isSome then node.count + 1 else node.count) =
    occupied (Function.update node.slots i c)
  cases c with
  | some c => rw [occupied_fill hi, hc.1, Option.isSome_some, Bool.and_true]
  | none =>
    have hnone : node.slots i = none := by simpa using hkeep
    rw [Option.isSome_none, Bool.and_false, if_neg Bool.false_ne_true, hc.1, ← hnone, Function.update_eq_self]

theorem counted_empty (h : Nat) : Counted (h + 1) (.empty : Node (Cell α h)) := by
  refine ⟨?_, fun _ child hc => absurd hc (Option.not_mem_none child)⟩
  simp [Node.empty, occupied]

/-- What a node holds after one of its slots was written. -/
theorem get_of_update (k : Nat) {node' : Node (Cell α h)}
    (hs : node'.slots = Function.update node.slots i c) :
    get k (h + 1) (some node') = if offset h k = i then get k h c else get k h (node.slots (offset h k)) := by
  rw [get_node, hs]
  by_cases hk : offset h k = i
  · rw [if_pos hk, hk, Function.update_self]
  · rw [if_neg hk, Function.update_of_ne hk]

/-- A tree whose root node has nothing but its first slot is the tree in that slot. -/
theorem find_first_slot (hrest : ∀ i < 64, i ≠ 0 → node.slots i = none) (k : Nat) :
    (⟨h + 1, some node⟩ : Root α).find k = (⟨h, node.slots 0⟩ : Root α).find k := by
  have hmono := maxindex_le_succ h
  by_cases hk : maxindex (h + 1) < k
  · rw [Root.find, Root.find, if_pos hk, if_pos (Nat.lt_of_le_of_lt hmono hk)]
  · have hiff := maxindex_lt_iff (Nat.le_of_not_lt hk)
    rw [Root.find, Root.find, if_neg hk, get_node]
    by_cases hoff : offset h k = 0
    · rw [if_neg (by simp [hiff, hoff]), hoff]
    · rw [if_pos (hiff.mpr hoff), hrest _ (offset_lt h k) hoff, get_none]

/-- What every call keeps: the table of largest keys has a place for the height, and the counts are right. -/
structure Root.Sound (root : Root α) : Prop where
  height_le : root.height ≤ 11
  counted : ∀ c ∈ root.rnode, Counted root.height c

/-! ### dms_radix_tree_insert -/

theorem false_mem_of_headD (h : ¬mem.headD true) : false ∈ mem := by
  match mem with
  | [] => exact absurd rfl h
  | true :: _ => exact absurd rfl h
  | false :: _ => exact List.mem_cons_self

section Insert
variable (index : Nat) (item : α)

/-- A level of the way down: the node could not be allocated, or there is one that holds what its slot held. -/
theorem insertAt_succ (slot : Option (Cell α (h + 1))) (mem : List Bool) :
    (slot = none ∧ false ∈ mem ∧ insertAt index item (h + 1) slot mem = (none, none)) ∨
    ∃ (node : Node (Cell α h)) (rest : List Bool), rest ⊆ mem ∧
      (∀ k, get k (h + 1) slot = get k h (node.slots (offset h k))) ∧
      ((∀ c ∈ slot, Counted (h + 1) c) → Counted (h + 1) node) ∧
      insertAt index item (h + 1) slot mem =
        (some (node.put (offset h index) (insertAt index item h (node.slots (offset h index)) rest).1),
          (insertAt index item h (node.slots (offset h index)) rest).2) := by
  cases slot with
  | some node =>
    right
    exact ⟨node, mem, List.Subset.refl _, fun _ => rfl, fun hc => hc node rfl, rfl⟩
  | none =>
    by_cases hmem : mem.headD true
    · right
      refine ⟨.empty, mem.tail, List.tail_subset mem, fun k => ?_, fun _ => counted_empty h, ?_⟩
      · rw [get_none]
        exact (get_none k h).symm
      · simp only [insertAt, nodeFor, if_pos hmem]
    · left
      exact ⟨rfl, false_mem_of_headD hmem, by simp only [insertAt, nodeFor, if_neg hmem]⟩

theorem isSome_insertAt (h : Nat) (slot : Option (Cell α h)) (mem : List Bool) (hs : slot.isSome) :
    (insertAt index item h slot mem).1.isSome := by
  cases h with
  | zero => rfl
  | succ h =>
    rcases insertAt_succ index item slot mem with ⟨rfl, -, -⟩ | ⟨node, rest, -, -, -, heq⟩
    · cases hs
    · rw [heq]
      rfl

theorem counted_insertAt (h : Nat) (slot : Option (Cell α h)) (mem : List Bool) (hc : ∀ c ∈ slot, Counted h c) :
    ∀ c ∈ (insertAt index item h slot mem).1, Counted h c := by
  induction h generalizing mem with
  | zero => exact fun _ _ => trivial
  | succ h ih =>
    rcases insertAt_succ index item slot mem with ⟨-, -, heq⟩ | ⟨node, rest, -, -, hnode, heq⟩
    · rw [heq]
      exact fun c hmem => absurd hmem (Option.not_mem_none c)
    · rw [heq]
      rintro c ⟨⟩
      exact counted_put (hnode hc) (offset_lt h index) (ih _ rest ((hnode hc).2 _))
        (isSome_insertAt index item h _ rest)

/-- -ENOMEM is for a key that has no item, and leaves every item where it was. -/
theorem get_insertAt_enomem
    (hr : (insertAt index item h slot mem).2 = none) :
    false ∈ mem ∧ get index h slot = none ∧ ∀ k, get k h (insertAt index item h slot mem).1 = get k h slot := by
  induction h generalizing mem with
  | zero => cases hr
  | succ h ih =>
    rcases insertAt_succ index item slot mem with ⟨rfl, hfalse, heq⟩ | ⟨node, rest, hsub, hget, -, heq⟩
    · rw [heq]
      exact ⟨hfalse, get_none _ _, fun _ => rfl⟩
    · rw [heq] at hr ⊢
      obtain ⟨hfalse, hnone, hsame⟩ := ih hr
      refine ⟨hsub hfalse, by rw [hget, hnone], fun k => ?_⟩
      rw [get_of_update k rfl, hget, hsame]
      split
      · next hoff => rw [hoff]
      · rfl

theorem get_insertAt {old : Option α}
    (hr : (insertAt index item h slot mem).2 = some old) :
    old = get index h slot ∧ ∀ k, get k h (insertAt index item h slot mem).1 =
      if k % 64 ^ h = index % 64 ^ h then some item else get k h slot := by
  induction h generalizing mem with
  | zero =>
    refine ⟨(Option.some.inj hr).symm, fun k => ?_⟩
    rw [Nat.pow_zero, Nat.mod_one, Nat.mod_one, if_pos rfl]
    rfl
  | succ h ih =>
    rcases insertAt_succ index item slot mem with ⟨-, -, heq⟩ | ⟨node, rest, -, hget, -, heq⟩
    · rw [heq] at hr
      cases hr
    · rw [heq] at hr ⊢
      obtain ⟨hold, hnew⟩ := ih hr
      refine ⟨by rw [hget, hold], fun k => ?_⟩
      rw [get_of_update k rfl, hget, hnew]
      simp only [mod_eq_iff_offset]
      by_cases hoff : offset h k = offset h index
      · simp [hoff]
      · simp [hoff]

end Insert

theorem heightFor_spec (hi : index < 2 ^ 64) {n h : Nat} (hn : 11 ≤ h + n) (hh : h ≤ 11) :
    h ≤ heightFor index n h ∧ heightFor index n h ≤ 11 ∧ index ≤ maxindex (heightFor index n h) := by
  induction n generalizing h with
  | zero =>
    obtain rfl : h = 11 := by omega
    have := maxindex_eleven
    exact ⟨Nat.le_refl _, hh, by rw [heightFor]; omega⟩
  | succ n ih =>
    rw [heightFor]
    split
    · next hlt =>
      have hne : h ≠ 11 := by
        rintro rfl
        rw [maxindex_eleven] at hlt
        omega
      obtain ⟨hle, hmax, hidx⟩ := ih (h := h + 1) (by omega) (by omega)
      exact ⟨by omega, hmax, hidx⟩
    · next hle => exact ⟨Nat.le_refl _, hh, Nat.le_of_not_lt hle⟩

/-- What the tree and the allocations left are after an extension: no item has moved, and a failure is
that of an allocation. -/
structure Grown (root : Root α) (mem : List Bool) (r : Root α × Bool × List Bool) : Prop where
  sound : r.1.Sound
  find_eq : ∀ k, r.1.find k = root.find k
  rest : r.2.2 ⊆ mem
  failed : r.2.1 = false → false ∈ mem

/-- A new root node with the tree in its first slot. -/
theorem counted_push {c : Cell α h} (hc : Counted h c) :
    Counted (h + 1) (⟨1, Function.update (fun _ => none) 0 (some c)⟩ : Node (Cell α h)) := by
  refine ⟨?_, counted_update (fun _ _ hmem => absurd hmem (Option.not_mem_none _)) 0 fun _ hmem => ?_⟩
  · rw [occupied_fill (by decide)]
    simp [occupied]
  · obtain rfl := Option.some.inj hmem
    exact hc

theorem growLoop_grown (n : Nat) {c : Cell α h} (mem : List Bool) (hc : Counted h c) (hn : h + n ≤ 11) :
    Grown ⟨h, some c⟩ mem (growLoop n ⟨h, some c⟩ mem) := by
  have hself : ∀ d ∈ some c, Counted h d := fun d hd => Option.some.inj hd ▸ hc
  induction n generalizing h mem with
  | zero => exact ⟨⟨hn, hself⟩, fun _ => rfl, List.Subset.refl _, fun hf => by cases hf⟩
  | succ n ih =>
    rw [growLoop]
    by_cases hmem : mem.headD true
    · have hpush := counted_push hc
      have hgrown := ih mem.tail hpush (by omega) fun d hd => Option.some.inj hd ▸ hpush
      rw [if_pos hmem]
      refine ⟨hgrown.sound, fun k => ?_, List.Subset.trans hgrown.rest (List.tail_subset mem), fun hf =>
        List.tail_subset mem (hgrown.failed hf)⟩
      have hrest : ∀ i < 64, i ≠ 0 → Function.update (fun _ => none) 0 (some c) i = none :=
        fun i _ hne => Function.update_of_ne hne _ _
      exact (hgrown.find_eq k).trans (find_first_slot hrest k)
    · rw [if_neg hmem]
      exact ⟨⟨Nat.le_trans (Nat.le_add_right h _) hn, hself⟩, fun _ => rfl, List.tail_subset mem, fun _ =>
        false_mem_of_headD hmem⟩

theorem growLoop_height {n : Nat} (h : (growLoop n root mem).2.1) :
    (growLoop n root mem).1.height = root.height + n := by
  induction n generalizing root mem with
  | zero => rfl
  | succ n ih =>
    rw [growLoop] at h ⊢
    split at h
    · next hmem =>
      rw [if_pos hmem, ih h]
      exact Nat.add_right_comm _ 1 n
    · cases h

theorem extend_grown (hs : root.Sound) (hi : index < 2 ^ 64)
    (hlt : maxindex root.height < index) (mem : List Bool) :
    Grown root mem (extend root index mem) ∧
      ((extend root index mem).2.1 → index ≤ maxindex (extend root index mem).1.height) := by
  obtain ⟨h, slot⟩ := root
  have hle : h ≤ 11 := hs.height_le
  have hne : h ≠ 11 := by
    rintro rfl
    have : 2 ^ 64 - 1 < index := hlt
    omega
  obtain ⟨hgrow, hmax, hidx⟩ := heightFor_spec hi (n := 12) (h := h + 1) (by omega) (by omega)
  cases slot with
  | none =>
    refine ⟨⟨⟨hmax, fun c hmem => absurd hmem (Option.not_mem_none c)⟩, fun k => ?_, List.Subset.refl _, ?_⟩,
      fun _ => hidx⟩
    · exact (find_none _ k).trans (find_none _ k).symm
    · exact fun hf => absurd hf Bool.true_eq_false_eq_False
  | some c =>
    have hsum : h + (heightFor index 12 (h + 1) - h) = heightFor index 12 (h + 1) := Nat.add_sub_cancel' (by omega)
    refine ⟨growLoop_grown _ mem (hs.counted c rfl) (hsum.le.trans hmax), fun hok => ?_⟩
    exact hidx.trans_eq (congrArg maxindex ((growLoop_height hok).trans hsum).symm)

/-- What an insertion leaves and answers: -ENOMEM, for a key that has no item, changes no item; otherwise
the answer is what the key had, and it has the item now. -/
def Stored (root : Root α) (index : Nat) (item : α) (mem : List Bool) (r : Root α × Option (Option α)) : Prop :=
  r.1.Sound ∧
    match r.2 with
    | none => false ∈ mem ∧ root.find index = none ∧ ∀ k, r.1.find k = root.find k
    | some old => old = root.find index ∧ ∀ k, r.1.find k = if k = index then some item else root.find k

theorem stored_place (hs : root.Sound) (hidx : index ≤ maxindex root.height) (item : α)
    (mem : List Bool) : Stored root index item mem (place index item (root, true, mem)) := by
  obtain ⟨h, slot⟩ := root
  have hin : ¬maxindex h < index := Nat.not_lt.mpr hidx
  refine ⟨⟨hs.height_le, counted_insertAt index item h slot mem hs.counted⟩, ?_⟩
  match hr : (insertAt index item h slot mem).2 with
  | none =>
    obtain ⟨hfalse, hnone, hsame⟩ := get_insertAt_enomem index item hr
    refine ⟨hfalse, (if_neg hin).trans hnone, fun k => ?_⟩
    exact (find_mk h _ k).trans (by rw [hsame, find_mk])
  | some old =>
    obtain ⟨hold, hnew⟩ := get_insertAt index item hr
    refine ⟨hold.trans (if_neg hin).symm, fun k => (find_mk h _ k).trans ?_⟩
    rw [hnew, find_mk]
    by_cases hk : maxindex h < k
    · rw [if_pos hk, if_pos hk, if_neg (by rintro rfl; exact hin hk)]
    · rw [if_neg hk, if_neg hk, Nat.mod_eq_of_lt (lt_pow_of_le_maxindex (Nat.le_of_not_lt hk)),
        Nat.mod_eq_of_lt (lt_pow_of_le_maxindex hidx)]

theorem Root.Sound.stored_insert (hs : root.Sound) (hi : index < 2 ^ 64) (item : α)
    (mem : List Bool) : Stored root index item mem (root.insert index item mem) := by
  rw [Root.insert]
  by_cases hlt : maxindex root.height < index
  · rw [if_pos hlt]
    obtain ⟨hgrown, hroom⟩ := extend_grown hs hi hlt mem
    match extend root index mem, hgrown, hroom with
    | (grown, false, _), hgrown, _ => exact ⟨hgrown.sound, hgrown.failed rfl, if_pos hlt, hgrown.find_eq⟩
    | (grown, true, rest), hgrown, hroom =>
      obtain ⟨hsound, hanswer⟩ := stored_place hgrown.sound (hroom rfl) item rest
      refine ⟨hsound, ?_⟩
      match (place index item (grown, true, rest)).2, hanswer with
      | none, ⟨hfalse, hnone, hsame⟩ =>
        exact ⟨hgrown.rest hfalse, (hgrown.find_eq index).symm.trans hnone, fun k => (hsame k).trans (hgrown.find_eq k)⟩
      | some old, ⟨hold, hnew⟩ =>
        exact ⟨hold.trans (hgrown.find_eq index), fun k => by rw [hnew, hgrown.find_eq]⟩
  · rw [if_neg hlt]
    exact stored_place hs (Nat.le_of_not_lt hlt) item mem

/-! ### dms_radix_tree_delete -/

theorem left_spec (hc : Counted (h + 1) node) (hi : i < 64)
    (hs : (node.slots i).isSome) (hnew : ∀ child ∈ c, Counted h child) :
    (∀ n ∈ node.left i c, Counted (h + 1) n) ∧ ∀ k, get k (h + 1) (node.left i c) =
      if offset h k = i then get k h c else get k h (node.slots (offset h k)) := by
  have hcount := hc.1
  cases c with
  | some child =>
    refine ⟨?_, fun k => get_of_update k rfl⟩
    rintro _ ⟨⟩
    refine ⟨?_, counted_update hc.2 i hnew⟩
    rw [occupied_fill hi, if_neg (by simpa [Option.isSome_iff_ne_none] using hs), hcount]
  | none =>
    rw [Node.left]
    split
    · next hlast =>
      refine ⟨fun n hn => absurd hn (Option.not_mem_none n), fun k => ?_⟩
      -- the count was one, so the other slots are empty
      have hrest := slots_eq_none node.slots (by omega) hi (offset_lt h k) hs
      rw [get_none, get_none]
      split
      · rfl
      · next hne => rw [hrest hne, get_none]
    · refine ⟨?_, fun k => get_of_update k rfl⟩
      rintro _ ⟨⟩
      refine ⟨?_, counted_update hc.2 i hnew⟩
      rw [occupied_clear hi hs, hcount]

theorem get_deleteAt (index : Nat) (hc : Counted h cell) :
    match deleteAt index h cell with
    | none => get index h (some cell) = none
    | some (item, left) => get index h (some cell) = some item ∧ (∀ c ∈ left, Counted h c) ∧
      ∀ k, get k h left = if k % 64 ^ h = index % 64 ^ h then none else get k h (some cell) := by
  induction h with
  | zero =>
    refine ⟨rfl, fun c hmem => absurd hmem (Option.not_mem_none c), fun k => ?_⟩
    rw [Nat.pow_zero, Nat.mod_one, Nat.mod_one, if_pos rfl]
    rfl
  | succ h ih =>
    rw [deleteAt]
    match hslot : Node.slots cell (offset h index) with
    | none => exact (congrArg (get index h) hslot).trans (get_none _ _)
    | some child =>
      have hchild := ih (hc.2 _ child hslot)
      dsimp only
      match deleteAt index h child, hchild with
      | none, hnone => exact (congrArg (get index h) hslot).trans hnone
      | some (item, left), ⟨hitem, hcounted, hget⟩ =>
        obtain ⟨hleft, hgetleft⟩ := left_spec hc (offset_lt h index) (by rw [hslot]; rfl) hcounted
        refine ⟨(congrArg (get index h) hslot).trans hitem, hleft, fun k => (hgetleft k).trans ?_⟩
        rw [hget, get_node k h cell]
        simp only [mod_eq_iff_offset]
        by_cases hoff : offset h k = offset h index
        · simp [hoff, hslot]
        · simp [hoff]

theorem sound_shrink (hh : h ≤ 11) (hc : Counted h cell) :
    (shrink h cell).Sound ∧ ∀ k, (shrink h cell).find k = (⟨h, some cell⟩ : Root α).find k := by
  have hself {h : Nat} {cell : Cell α h} (hh : h ≤ 11) (hc : Counted h cell) : (⟨h, some cell⟩ : Root α).Sound :=
    ⟨hh, fun d hd => Option.some.inj hd ▸ hc⟩
  induction h with
  | zero => exact ⟨hself hh hc, fun _ => rfl⟩
  | succ h ih =>
    rw [shrink]
    split
    · next child hslot =>
      split
      · next hone =>
        obtain ⟨hsound, hfind⟩ := ih (Nat.le_of_succ_le hh) (hc.2 0 child hslot)
        refine ⟨hsound, fun k => ?_⟩
        have hrest : ∀ i < 64, i ≠ 0 → Node.slots cell i = none := fun i hi hne =>
          slots_eq_none _ (by rw [← hc.1, hone]) (by decide) hi (by rw [hslot]; rfl) hne
        rw [hfind, find_first_slot hrest, hslot]
      · exact ⟨hself hh hc, fun _ => rfl⟩
    · exact ⟨hself hh hc, fun _ => rfl⟩

theorem sound_afterDelete {left : Option (Cell α h)} (hh : h ≤ 11) (hc : ∀ c ∈ left, Counted h c) (index : Nat) :
    (afterDelete index h left).Sound ∧ ∀ k, (afterDelete index h left).find k = (⟨h, left⟩ : Root α).find k := by
  cases left with
  | none =>
    refine ⟨⟨Nat.zero_le _, fun c hmem => absurd hmem (Option.not_mem_none c)⟩, fun k => ?_⟩
    exact (find_none 0 k).trans (find_none h k).symm
  | some cell =>
    rw [afterDelete]
    split
    · exact sound_shrink hh (hc cell rfl)
    · exact ⟨⟨hh, hc⟩, fun _ => rfl⟩

/-- dms_radix_tree_delete answers the item of the key and takes it out, and no other. -/
theorem Root.Sound.delete_spec (hs : root.Sound) (index : Nat) :
    (root.delete index).1.Sound ∧ (root.delete index).2 = root.find index ∧
      ∀ k, (root.delete index).1.find k = if k = index then none else root.find k := by
  have habsent (hnone : root.find index = none) : root.Sound ∧ none = root.find index ∧
      ∀ k, root.find k = if k = index then none else root.find k := by
    refine ⟨hs, hnone.symm, fun k => ?_⟩
    split
    · next heq => rw [heq, hnone]
    · rfl
  rw [Root.delete]
  by_cases hlt : maxindex root.height < index
  · rw [if_pos hlt]
    exact habsent (if_pos hlt)
  · rw [if_neg hlt]
    obtain ⟨h, slot⟩ := root
    have hin : (⟨h, slot⟩ : Root α).find index = get index h slot := if_neg hlt
    cases slot with
    | none => exact habsent (hin.trans (get_none index h))
    | some cell =>
      have hdel := get_deleteAt index (hs.counted cell rfl)
      rw [Option.bind_some]
      match deleteAt index h cell, hdel with
      | none, hnone => exact habsent (hin.trans hnone)
      | some (item, left), ⟨hitem, hcounted, hget⟩ =>
        obtain ⟨hsound, hfind⟩ := sound_afterDelete hs.height_le hcounted index
        refine ⟨hsound, (hin.trans hitem).symm, fun k => (hfind k).trans ?_⟩
        rw [find_mk, hget, find_mk]
        by_cases hk : maxindex h < k
        · rw [if_pos hk, if_pos hk, ite_self]
        · rw [if_neg hk, if_neg hk, Nat.mod_eq_of_lt (lt_pow_of_le_maxindex (Nat.le_of_not_lt hk)),
            Nat.mod_eq_of_lt (lt_pow_of_le_maxindex (Nat.le_of_not_lt hlt))]

end DiscoClient.RadixTree
