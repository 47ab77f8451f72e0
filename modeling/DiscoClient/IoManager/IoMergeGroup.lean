import DiscoClient.IoManager.IoMerge

namespace DiscoClient
open List

def rqSlots (rqs : Nat → BlkRq) (j : Nat) : List (Nat × Nat) :=
  (List.range (rqs j).sectors).map (Prod.mk j)

def slotsFrom (rqs : Nat → BlkRq) (n i off : Nat) : List (Nat × Nat) :=
  ((List.range' i (n - i)).flatMap (rqSlots rqs)).drop off

/-- Sectors one after another from sectS on, of one direction, in exactly the m requests from the i-th on.
-/
structure Chunk (rqs : Nat → BlkRq) (i m sectS : Nat) (xs : List (Nat × Nat)) : Prop where
  contiguous : ∀ k j o, xs[k]? = some (j, o) → ((rqs j).pos + o) % 2^64 = (sectS + k) % 2^64
  one_dir : ∀ j o, (j, o) ∈ xs → (rqs j).dir = (rqs i).dir
  members : ∀ j, (∃ o, (j, o) ∈ xs) ↔ i ≤ j ∧ j < i + m

variable {rqs : Nat → BlkRq} {n : Nat}

@[simp] theorem length_rqSlots (j : Nat) : (rqSlots rqs j).length = (rqs j).sectors := by
  simp [rqSlots]

theorem slotsFrom_of_le {i : Nat} (h : n ≤ i) (off : Nat) : slotsFrom rqs n i off = [] := by
  simp [slotsFrom, show n - i = 0 by omega]

theorem slotsFrom_split {i off : Nat} (hi : i < n) (hoff : off ≤ (rqs i).sectors) :
    slotsFrom rqs n i off = (rqSlots rqs i).drop off ++ slotsFrom rqs n (i + 1) 0 := by
  rw [slotsFrom, show n - i = (n - (i + 1)) + 1 by omega, range'_succ, flatMap_cons,
    drop_append_of_le_length (by simpa using hoff)]
  simp [slotsFrom]

theorem Chunk.extend {i m sectS t : Nat} {c : List (Nat × Nat)} (h : Chunk rqs i m sectS c) (ht : 0 < t)
    (hpos : (rqs (i + m)).pos % 2^64 = (sectS + c.length) % 2^64)
    (hdir : (rqs (i + m)).dir = (rqs i).dir) :
    Chunk rqs i (m + 1) sectS (c ++ (List.range t).map (Prod.mk (i + m))) := by
  refine ⟨?_, ?_, ?_⟩
  · intro k j o hk
    by_cases hlt : k < c.length
    · rw [List.getElem?_append_left hlt] at hk
      exact h.contiguous k j o hk
    · rw [List.getElem?_append_right (by omega), List.getElem?_map] at hk
      obtain ⟨x, hx, he⟩ := Option.map_eq_some_iff.mp hk
      obtain ⟨hxt, hxe⟩ := List.getElem?_eq_some_iff.mp hx
      rw [getElem_range] at hxe
      obtain ⟨rfl, rfl⟩ := Prod.mk.inj he
      omega
  · intro j o hm
    rcases mem_append.mp hm with hm | hm
    · exact h.one_dir j o hm
    · obtain ⟨x, -, he⟩ := mem_map.mp hm
      obtain ⟨rfl, -⟩ := Prod.mk.inj he
      exact hdir
  · intro j
    have hold := h.members j
    constructor
    · rintro ⟨o, hm⟩
      rcases mem_append.mp hm with hm | hm
      · have := hold.mp ⟨o, hm⟩
        omega
      · obtain ⟨x, -, he⟩ := mem_map.mp hm
        obtain ⟨rfl, -⟩ := Prod.mk.inj he
        omega
    · rintro ⟨h1, h2⟩
      by_cases hj : j < i + m
      · obtain ⟨o, ho⟩ := hold.mpr ⟨h1, hj⟩
        exact ⟨o, mem_append_left _ ho⟩
      · obtain rfl : j = i + m := by omega
        exact ⟨0, mem_append_right _ (mem_map.mpr ⟨0, mem_range.mpr ht, rfl⟩)⟩

theorem Chunk.first {i off sectS : Nat} (hoff : off < (rqs i).sectors)
    (hs : sectS % 2^64 = ((rqs i).pos + off) % 2^64) :
    Chunk rqs i 1 sectS ((rqSlots rqs i).drop off) := by
  have hmem (j o : Nat) : (j, o) ∈ (rqSlots rqs i).drop off → j = i := by
    intro hm
    obtain ⟨x, -, he⟩ := mem_map.mp (mem_of_mem_drop hm)
    exact (Prod.mk.inj he).1.symm
  refine ⟨?_, ?_, ?_⟩
  · intro k j o hk
    rw [List.getElem?_drop, rqSlots, List.getElem?_map] at hk
    obtain ⟨x, hx, he⟩ := Option.map_eq_some_iff.mp hk
    obtain ⟨hxt, hxe⟩ := List.getElem?_eq_some_iff.mp hx
    rw [getElem_range] at hxe
    obtain ⟨rfl, rfl⟩ := Prod.mk.inj he
    omega
  · intro j o hm
    rw [hmem j o hm]
  · intro j
    constructor
    · rintro ⟨o, hm⟩
      have := hmem j o hm
      omega
    · rintro ⟨h1, h2⟩
      obtain rfl : j = i := by omega
      refine ⟨off, mem_of_getElem? (i := 0) ?_⟩
      simp [rqSlots, hoff]

def GroupEnd (rqs : Nat → BlkRq) (i sectS : Nat) (g : MergeRes) (i' off' : Nat) : Prop :=
  if g.lastRqMultiRef then
    i' + 1 = i + g.mergeLen ∧ 0 < off' ∧ off' < (rqs i').sectors ∧
      (sectS + g.sectLen) % 2^64 = ((rqs i').pos + off') % 2^64
  else i' = i + g.mergeLen ∧ off' = 0

namespace GroupEnd
variable {i sectS i' off' : Nat} {g : MergeRes}

variable (h : GroupEnd rqs i sectS g i' off')
include h

theorem index_eq :
    (if g.lastRqMultiRef then i + g.mergeLen - 1 else i + g.mergeLen) = i' := by
  unfold GroupEnd at h
  split_ifs at h ⊢ <;> omega

theorem index_le : i' ≤ i + g.mergeLen := by
  unfold GroupEnd at h
  split_ifs at h <;> omega

theorem lt_index (hpos : 0 < g.mergeLen)
    (hshared : g.lastRqMultiRef = true → 1 < g.mergeLen) : i < i' := by
  rw [← h.index_eq]
  split_ifs with hm
  · have := hshared hm
    omega
  · omega

theorem off_lt : off' < (rqs i').sectors := by
  unfold GroupEnd at h
  split_ifs at h
  · exact h.2.2.1
  · rw [h.2]
    exact (rqs i').sectors_pos

theorem shared_iff (j : Nat) (hj : i' ≤ j) :
    j = i' ∧ 0 < off' ↔ j < i + g.mergeLen := by
  unfold GroupEnd at h
  split_ifs at h <;> omega

/-- The start sector of the next round of do_io_batch. -/
theorem next_sectS (hpos : 0 < g.mergeLen) (hi' : i' < n) :
    (if decide (i' = i + g.mergeLen - 1 + 1) = true then
      if i' ≤ n - 1 then (rqs i').pos else sectS else (sectS + g.sectLen) % 2^64) =
      ((rqs i').pos + off') % 2^64 := by
  unfold GroupEnd at h
  split_ifs at h with hm
  · rw [if_neg (by simp only [decide_eq_true_eq]; omega)]
    exact h.2.2.2
  · rw [if_pos (by simp only [decide_eq_true_eq]; omega), if_pos (by omega), h.2, Nat.add_zero,
      Nat.mod_eq_of_lt (rqs i').pos_lt]

end GroupEnd

def GroupSpec (rqs : Nat → BlkRq) (n i sectS m : Nat) (c : List (Nat × Nat)) (ref : Nat → Nat)
    (g : MergeRes) : Prop :=
  m ≤ g.mergeLen ∧ i + g.mergeLen ≤ n ∧ g.sectLen ≤ maxSectsPerRq ∧
  (g.lastRqMultiRef = true → m < g.mergeLen ∧ g.sectLen = maxSectsPerRq) ∧
  (∀ j, g.numRefIor j = if i + m ≤ j ∧ j < i + g.mergeLen then
    (if g.lastRqMultiRef = true ∧ j + 1 = i + g.mergeLen then 2 else 1) else ref j) ∧
  ∃ c' i' off', Chunk rqs i g.mergeLen sectS (c ++ c') ∧ (c ++ c').length = g.sectLen ∧
    slotsFrom rqs n (i + m) 0 = c' ++ slotsFrom rqs n i' off' ∧ GroupEnd rqs i sectS g i' off'

private theorem groupSpec_stop {i sectS m sectLen : Nat} {c : List (Nat × Nat)} {ref : Nat → Nat}
    (hn : i + m ≤ n) (hlen : c.length = sectLen) (hle : sectLen ≤ maxSectsPerRq)
    (hc : Chunk rqs i m sectS c) : GroupSpec rqs n i sectS m c ref ⟨sectLen, m, false, ref⟩ := by
  refine ⟨le_refl m, hn, hle, fun h => absurd h Bool.false_ne_true, fun j => ?_, [], i + m, 0, ?_, ?_, rfl, ?_⟩
  · rw [if_neg (by dsimp only; omega)]
  · simpa using hc
  · simpa using hlen
  · simp [GroupEnd]

section Merge
variable {i sectS m : Nat} {c : List (Nat × Nat)} {ref : Nat → Nat}

private theorem groupSpec_more {g : MergeRes} (hn : i + m < n)
    (hg : GroupSpec rqs n i sectS (m + 1) (c ++ rqSlots rqs (i + m)) (Function.update ref (i + m) 1) g) :
    GroupSpec rqs n i sectS m c ref g := by
  have hslots : slotsFrom rqs n (i + m) 0 = rqSlots rqs (i + m) ++ slotsFrom rqs n (i + (m + 1)) 0 :=
    slotsFrom_split hn (Nat.zero_le _)
  obtain ⟨h1, h2, h3, h4, h5, c', i', off', h6, h7, h8, h9⟩ := hg
  refine ⟨by omega, h2, h3, fun h => ⟨Nat.lt_of_succ_lt (h4 h).1, (h4 h).2⟩, fun j => ?_,
    rqSlots rqs (i + m) ++ c', i', off', by rwa [← append_assoc], by rwa [← append_assoc], ?_, h9⟩
  · rw [h5 j]
    by_cases hj : j = i + m
    · rw [if_neg (by omega), if_pos (by omega), if_neg fun h => by have := (h4 h.1).1; omega, hj,
        Function.update_self]
    · rw [Function.update_of_ne hj]
      by_cases hij : i + (m + 1) ≤ j ∧ j < i + g.mergeLen
      · have hij' : i + m ≤ j ∧ j < i + g.mergeLen := ⟨by omega, hij.2⟩
        rw [if_pos hij, if_pos hij']
      · have hij' : ¬ (i + m ≤ j ∧ j < i + g.mergeLen) := by omega
        rw [if_neg hij, if_neg hij']
  · rw [hslots, h8, append_assoc]

private theorem groupSpec_shared (hn : i + m < n) (hlt : c.length < maxSectsPerRq) (hc : Chunk rqs i m sectS c)
    (hpos : (rqs (i + m)).pos % 2^64 = (sectS + c.length) % 2^64) (hdir : (rqs (i + m)).dir = (rqs i).dir)
    (hgt : c.length + (rqs (i + m)).sectors > maxSectsPerRq) :
    GroupSpec rqs n i sectS m c ref
      ⟨maxSectsPerRq, m + 1, true, Function.update (Function.update ref (i + m) 1) (i + m) 2⟩ := by
  have htake : (rqSlots rqs (i + m)).take (maxSectsPerRq - c.length) =
      (List.range (maxSectsPerRq - c.length)).map (Prod.mk (i + m)) := by
    rw [rqSlots, ← map_take, take_range, Nat.min_eq_left (by omega)]
  refine ⟨Nat.le_succ m, hn, le_refl _, fun _ => ⟨Nat.lt_succ_self m, rfl⟩, fun j => ?_,
    (rqSlots rqs (i + m)).take (maxSectsPerRq - c.length), i + m, maxSectsPerRq - c.length, ?_, ?_, ?_, ?_⟩
  · dsimp only
    by_cases hj : j = i + m
    · rw [hj, Function.update_self, if_pos (by omega), if_pos ⟨rfl, by omega⟩]
    · rw [Function.update_of_ne hj, Function.update_of_ne hj, if_neg (by omega)]
  · rw [htake]
    exact hc.extend (by omega) hpos hdir
  · simp only [length_append, length_take, length_rqSlots]
    omega
  · have hall : slotsFrom rqs n (i + m) 0 = _ := slotsFrom_split hn (Nat.zero_le _)
    have hrest : slotsFrom rqs n (i + m) (maxSectsPerRq - c.length) = _ := slotsFrom_split hn (by omega)
    rw [hall, hrest, ← append_assoc, take_append_drop]
    rfl
  · simp only [GroupEnd, if_true]
    exact ⟨by omega, by omega, by omega, by omega⟩

private theorem groupSpec_full (hn : i + m < n) (hall : Chunk rqs i (m + 1) sectS (c ++ rqSlots rqs (i + m)))
    (hlen : c.length + (rqs (i + m)).sectors = maxSectsPerRq) :
    GroupSpec rqs n i sectS m c ref ⟨maxSectsPerRq, m + 1, false, Function.update ref (i + m) 1⟩ := by
  refine ⟨Nat.le_succ m, hn, le_refl _, fun h => absurd h Bool.false_ne_true,
    fun j => ?_, rqSlots rqs (i + m), i + (m + 1), 0, hall, ?_, slotsFrom_split hn (Nat.zero_le _), ?_⟩
  · dsimp only
    by_cases hj : j = i + m
    · rw [hj, Function.update_self, if_pos (by omega), if_neg fun h => Bool.false_ne_true h.1]
    · rw [Function.update_of_ne hj, if_neg (by omega)]
  · rw [length_append, length_rqSlots]
    exact hlen
  · simp [GroupEnd]

end Merge

theorem mergeLoop_spec (i sectS : Nat) (left m : Nat) (ref : Nat → Nat) (c : List (Nat × Nat))
    (hm : 0 < m) (hn : i + m + left = n) (hlt : c.length < maxSectsPerRq) (hc : Chunk rqs i m sectS c)
    (hend : ((rqs (i + m - 1)).pos + (rqs (i + m - 1)).sectors) % 2^64 = (sectS + c.length) % 2^64)
    (hdir : (rqs (i + m - 1)).dir = (rqs i).dir) :
    GroupSpec rqs n i sectS m c ref (mergeLoop rqs left (i + m) c.length m ref) := by
  induction left generalizing m ref c with
  | zero => exact groupSpec_stop (by omega) rfl (by omega) hc
  | succ left ih =>
    by_cases hmerge : rqMergable (rqs (i + m - 1)) (rqs (i + m)) = false
    · simp only [mergeLoop, hmerge, if_true]
      exact groupSpec_stop (by omega) rfl (by omega) hc
    obtain ⟨hd, hp⟩ : (rqs (i + m - 1)).dir = (rqs (i + m)).dir ∧
        (rqs (i + m)).pos = ((rqs (i + m - 1)).pos + (rqs (i + m - 1)).sectors) % 2^64 := by
      simpa [rqMergable] using hmerge
    have hsec := (rqs (i + m)).sectors_pos
    have hsecle := (rqs (i + m)).sectors_le
    have hmax : maxSectsPerRq = 256 := rfl
    have hnew : (c.length + (rqs (i + m)).sectors) % 2^32 = c.length + (rqs (i + m)).sectors := by omega
    have hpos : (rqs (i + m)).pos % 2^64 = (sectS + c.length) % 2^64 := by
      rw [hp, Nat.mod_mod, hend]
    have hdir' : (rqs (i + m)).dir = (rqs i).dir := by rw [← hd, hdir]
    have hlen : (c ++ rqSlots rqs (i + m)).length = c.length + (rqs (i + m)).sectors := by simp
    have hall : Chunk rqs i (m + 1) sectS (c ++ rqSlots rqs (i + m)) := hc.extend hsec hpos hdir'
    rw [mergeLoop, if_neg hmerge]
    simp only [hnew]
    by_cases hlt' : c.length + (rqs (i + m)).sectors < maxSectsPerRq
    · have hg := ih (m + 1) (Function.update ref (i + m) 1) (c ++ rqSlots rqs (i + m)) (by omega) (by omega)
        (by omega) hall (by rw [hlen]; simp only [← Nat.add_assoc, Nat.add_sub_cancel]; omega) hdir'
      rw [hlen] at hg
      rw [if_pos hlt']
      exact groupSpec_more (by omega) hg
    rw [if_neg hlt']
    by_cases hgt : c.length + (rqs (i + m)).sectors > maxSectsPerRq
    · rw [if_pos ⟨hgt, Nat.ne_of_lt hlt⟩]
      exact groupSpec_shared (by omega) hlt hc hpos hdir' hgt
    · rw [if_neg fun h => hgt h.1]
      exact groupSpec_full (by omega) hall (by omega)

/-- The 32-bit start sector and the 64-bit position give the right length modulo 2^32. -/
private theorem remaining_sectors {pos off sectors sectS : Nat} (hpos : pos < 2^64) (hoff : off < sectors)
    (hsec : sectors ≤ 256) (hs : sectS % 2^64 = (pos + off) % 2^64) :
    ((sectors + (2^64 - (sectS % 2^32 + (2^64 - pos)) % 2^64)) % 2^64) % 2^32 = sectors - off := by
  have hlow : sectS % 2^32 = (pos + off) % 2^32 := by
    have hmod : sectS % 2^64 % 2^32 = (pos + off) % 2^64 % 2^32 := by rw [hs]
    rwa [Nat.mod_mod_of_dvd _ (by decide), Nat.mod_mod_of_dvd _ (by decide)] at hmod
  rw [hlow]
  clear hs hlow
  omega

/-- get_merge_len, started at an offset of the i-th request. -/
theorem getMergeLen_spec {i off sectS : Nat} (ref : Nat → Nat) (hi : i < n)
    (hoff : off < (rqs i).sectors) (hs : sectS % 2^64 = ((rqs i).pos + off) % 2^64) :
    GroupSpec rqs n i sectS 1 ((rqSlots rqs i).drop off)
      (if ref i = 0 then Function.update ref i 1 else ref) (getMergeLen rqs i (n - 1) sectS ref) := by
  have hsec : (rqs i).sectors ≤ maxSectsPerRq := (rqs i).sectors_le
  have hlen : ((rqSlots rqs i).drop off).length = (rqs i).sectors - off := by simp
  have hle : ((rqSlots rqs i).drop off).length ≤ maxSectsPerRq := by omega
  have hsect := remaining_sectors (rqs i).pos_lt hoff hsec hs
  rw [← hlen] at hsect
  have hc := Chunk.first hoff hs
  have hbound : ¬ i > n - 1 := by omega
  rw [getMergeLen, if_neg hbound]
  simp only [hsect]
  clear hsect
  by_cases hstop : ((rqSlots rqs i).drop off).length = maxSectsPerRq ∨ (rqs i).dir = .read
  · rw [if_pos hstop]
    exact groupSpec_stop hi rfl hle hc
  · have hne : ((rqSlots rqs i).drop off).length ≠ maxSectsPerRq := fun h => hstop (Or.inl h)
    have hleft : i + 1 + (n - 1 - i) = n := by omega
    rw [if_neg hstop]
    refine mergeLoop_spec i sectS (n - 1 - i) 1 _ _ Nat.one_pos hleft (Nat.lt_of_le_of_ne hle hne) hc ?_ ?_
    · rw [Nat.add_sub_cancel, hlen]
      omega
    · rw [Nat.add_sub_cancel]

end DiscoClient
