import DiscoClient.Space.SmQuery

namespace DiscoClient
open Runs List
variable {chunks : List AsChunk} {mems : List CreateMem}

/-- The loop of _smcache_create_metadata makes an item for each run of LBs on the same data nodes. -/
theorem smcacheCreateMetadataLoop_isSome (alloc : Nat → Bool) (fuel cnUsed startLB : Nat) (hfuel : chunks.length ≤ fuel) :
    (smcacheCreateMetadataLoop alloc fuel cnUsed startLB chunks).isSome ↔
      ∀ j < (runs AsChunk.dataNodes chunks).length, alloc (cnUsed + j) = true := by
  induction fuel generalizing cnUsed startLB chunks with
  | zero =>
    obtain rfl := eq_nil_of_length_eq_zero (Nat.le_zero.mp hfuel)
    exact iff_of_true rfl fun j hj => absurd hj (Nat.not_lt_zero j)
  | succ fuel ih =>
    cases chunks with
    | nil => exact iff_of_true rfl fun j hj => absurd hj (Nat.not_lt_zero j)
    | cons head chunks =>
      have hshort : (chunks.dropWhile fun dest => dest.dataNodes == head.dataNodes).length ≤ fuel :=
        (dropWhile_sublist _).length_le.trans (Nat.le_of_succ_le_succ hfuel)
      rw [smcacheCreateMetadataLoop, getContlenAschunk, drop_first_run, runs_cons, length_cons]
      split_ifs with halloc
      · rw [Option.isSome_map, ih _ _ hshort]
        constructor
        · intro hall j hj
          cases j with
          | zero => exact halloc
          | succ j => rw [← Nat.add_assoc, Nat.add_right_comm]; exact hall j (Nat.lt_of_succ_lt_succ hj)
        · intro hall j hj
          have := hall (j + 1) (Nat.succ_lt_succ hj)
          rwa [← Nat.add_assoc, Nat.add_right_comm] at this
      · exact iff_of_false Bool.false_ne_true fun hall => halloc (hall 0 (Nat.succ_pos _))

theorem smcacheCreateMetadata_isSome (mem : CreateMem) (startLB : Nat) (chunks : List AsChunk) :
    (smcacheCreateMetadata mem startLB chunks).isSome ↔ mem.Suffices chunks := by
  rw [smcacheCreateMetadata, CreateMem.Suffices]
  split_ifs with harray
  · rw [smcacheCreateMetadataLoop_isSome _ _ _ _ (Nat.le_refl _)]
    simp only [Nat.zero_add, true_and, harray]
  · exact iff_of_false Bool.false_ne_true fun h => harray h.1

def CreateMem.plenty : CreateMem := ⟨true, fun _ => true⟩

def FirstTry (mems : List CreateMem) (rs : List (List AsChunk)) : Prop :=
  ∀ (k : Nat) (r : List AsChunk), rs[k]? = some r → (mems[k]?.getD CreateMem.plenty).Suffices r

structure Made (md : Metadata) (seg : Nat × List (Option AsChunk)) : Prop where
  start : md.lbidStart = BitVec.ofNat 64 seg.1
  len : md.lbidLen = seg.2.length
  items : if (seg.2.filterMap id) = [] then md.items = []
    else ∃ mem raw, smcacheCreateMetadata mem seg.1 (seg.2.filterMap id) = some raw ∧ md.items = raw.map smcacheMergeTriplet

theorem firstTry_cons {r : List AsChunk} {rs : List (List AsChunk)} :
    FirstTry mems (r :: rs) ↔ (mems.headD CreateMem.plenty).Suffices r ∧ FirstTry mems.tail rs := by
  have hhead : mems[0]?.getD CreateMem.plenty = mems.headD CreateMem.plenty := by cases mems <;> rfl
  have htail (k : Nat) : mems[k + 1]? = mems.tail[k]? := by rw [List.getElem?_tail]
  constructor
  · intro h
    refine ⟨hhead ▸ h 0 r rfl, fun k r' hr' => ?_⟩
    rw [← htail]
    exact h (k + 1) r' hr'
  · rintro ⟨hfirst, hrest⟩ k r' hr'
    cases k with
    | zero =>
      obtain rfl : r = r' := by simpa using hr'
      exact hhead ▸ hfirst
    | succ k =>
      rw [htail]
      exact hrest k r' hr'

theorem firstTry_nil (mems : List CreateMem) : FirstTry mems [] := fun _ _ hr => by cases hr

theorem filterMap_first_run (first : Option AsChunk) (rest : List (Option AsChunk)) :
    (first :: rest.takeWhile fun slot => slot.isSome == first.isSome).filterMap id = [] ↔ first.isSome = false := by
  obtain ⟨hsame, -⟩ := first_run Option.isSome first rest
  rw [filterMap_eq_nil_iff]
  constructor
  · intro h
    have hfirst : first = none := h first mem_cons_self
    rw [hfirst]
    rfl
  · intro hfirst slot hslot
    have hslot := (hsame slot hslot).trans hfirst
    exact Option.isNone_iff_eq_none.mp (Option.isSome_eq_false_iff.mp hslot)

theorem hitRuns_cons (first : Option AsChunk) (rest : List (Option AsChunk)) :
    hitRuns (first :: rest) =
      if first.isSome then
        ((first :: rest.takeWhile fun slot => slot.isSome == first.isSome).filterMap id) ::
          hitRuns (rest.dropWhile fun slot => slot.isSome == first.isSome)
      else hitRuns (rest.dropWhile fun slot => slot.isSome == first.isSome) := by
  have hempty := filterMap_first_run first rest
  rw [hitRuns, runs_cons, map_cons, filter_cons]
  split_ifs with hne hfirst hfirst
  · rfl
  · rw [decide_eq_true_eq] at hne
    exact absurd (hempty.mpr (Bool.eq_false_iff.mpr hfirst)) hne
  · rw [decide_eq_true_eq, not_not, hempty, hfirst] at hne
    cases hne
  · rfl

/-- A bucket for each segment, and one more counted for each attempt that failed; none did just when ok. -/
def Ends (out : Option (Nat × List Metadata)) (retBk : Nat) (segs : List (Nat × List (Option AsChunk))) (ok : Prop) : Prop :=
  ∃ mds failed, out = some (retBk + mds.length + failed, mds) ∧ List.Forall₂ Made mds segs ∧ (failed = 0 ↔ ok)

section
variable {out : Option (Nat × List Metadata)} {retBk : Nat} {segs : List (Nat × List (Option AsChunk))} {ok : Prop}

theorem Ends.bucket (h : Ends out (retBk + 1) segs ok) {md : Metadata} {seg : Nat × List (Option AsChunk)}
    (hmade : Made md seg) : Ends (out.map fun o => (o.1, md :: o.2)) retBk (seg :: segs) ok := by
  obtain ⟨mds, failed, rfl, hmds, hfailed⟩ := h
  refine ⟨md :: mds, failed, ?_, hmds.cons hmade, hfailed⟩
  rw [Option.map_some, length_cons]
  congr 2
  omega

theorem Ends.failed (h : Ends out (retBk + 1) segs ok) {ok' : Prop} (hok : ¬ok') : Ends out retBk segs ok' := by
  obtain ⟨mds, failed, rfl, hmds, -⟩ := h
  refine ⟨mds, failed + 1, ?_, hmds, iff_of_false (Nat.succ_ne_zero _) hok⟩
  congr 2
  omega

end

namespace SmCachePool

/-- The loop of smcache_query_MData. -/
theorem queryLoop_ends (fuel lbStart retBk : Nat) (slots : List (Option AsChunk)) (mems : List CreateMem)
    (hfuel : slots.length + mems.length ≤ fuel) :
    Ends (queryLoop fuel lbStart slots mems retBk) retBk (placed lbStart (runs Option.isSome slots))
      (FirstTry mems (hitRuns slots)) := by
  induction fuel generalizing lbStart retBk slots mems with
  | zero =>
    obtain rfl := eq_nil_of_length_eq_zero (show slots.length = 0 by omega)
    exact ⟨[], 0, rfl, List.Forall₂.nil, iff_of_true rfl (firstTry_nil mems)⟩
  | succ fuel ih =>
    cases slots with
    | nil => exact ⟨[], 0, rfl, List.Forall₂.nil, iff_of_true rfl (firstTry_nil mems)⟩
    | cons first rest =>
      have hempty := filterMap_first_run first rest
      have hlen : 1 + (rest.takeWhile fun slot => slot.isSome == first.isSome).length =
          (first :: rest.takeWhile fun slot => slot.isSome == first.isSome).length := Nat.add_comm _ _
      have hshort : (rest.dropWhile fun slot => slot.isSome == first.isSome).length ≤ rest.length :=
        (dropWhile_sublist _).length_le
      -- an attempt that fails leaves everything as it is
      have hsame := ih lbStart (retBk + 1) (first :: rest)
      rw [length_cons] at hfuel hsame
      rw [runs_cons, placed, hitRuns_cons] at hsame ⊢
      rw [queryLoop]
      simp only [getChitstatMaxSeglen, take_first_run, drop_first_run]
      rw [hlen]
      generalize (first :: rest.takeWhile fun slot => slot.isSome == first.isSome) = r at hempty hsame ⊢
      generalize (rest.dropWhile fun slot => slot.isSome == first.isSome) = left at hshort hsame ⊢
      by_cases hfirst : first.isSome = true
      · have hne : r.filterMap id ≠ [] := fun h => by rw [hempty.mp h] at hfirst; cases hfirst
        have hcreate := smcacheCreateMetadata_isSome (mems.headD CreateMem.plenty) lbStart (r.filterMap id)
        rw [if_pos hfirst] at hsame ⊢
        rw [if_pos hfirst, show (⟨true, fun _ => true⟩ : CreateMem) = CreateMem.plenty from rfl]
        cases hmd : smcacheCreateMetadata (mems.headD CreateMem.plenty) lbStart (r.filterMap id) with
        | none =>
          rw [hmd] at hcreate
          have hno : ¬(mems.headD CreateMem.plenty).Suffices (r.filterMap id) := fun h => Bool.false_ne_true (hcreate.mpr h)
          cases mems with
          | nil => exact absurd ⟨rfl, fun _ _ => rfl⟩ hno
          | cons mem mems =>
            rw [length_cons] at hfuel
            exact (hsame mems (by omega)).failed fun htry => hno (firstTry_cons.mp htry).1
        | some raw =>
          rw [hmd] at hcreate
          have hyes := hcreate.mp rfl
          have htry : FirstTry mems (r.filterMap id :: hitRuns left) ↔ FirstTry mems.tail (hitRuns left) := by
            rw [firstTry_cons]
            exact and_iff_right hyes
          rw [htry]
          refine (ih (lbStart + r.length) (retBk + 1) left mems.tail ?_).bucket ⟨rfl, rfl, ?_⟩
          · rw [length_tail]
            omega
          · rw [if_neg hne]
            exact ⟨_, raw, hmd, rfl⟩
      · rw [if_neg hfirst, if_neg hfirst]
        refine (ih (lbStart + r.length) (retBk + 1) left mems (by omega)).bucket ⟨rfl, rfl, ?_⟩
        rw [if_pos (hempty.mpr (Bool.eq_false_iff.mpr hfirst))]

end SmCachePool
end DiscoClient
