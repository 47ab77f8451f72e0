import DiscoClient.IoManager.IoMergeGroup

namespace DiscoClient

variable {rqs : Nat → BlkRq} {n start : Nat} {force : Bool} {ref : Nat → Nat}

theorem batchLoop_remain_lt {fuel i sectS r : Nat} {ios : List MergedIo} (hn : 0 < n)
    (h : (batchLoop rqs n start fuel i sectS force ios ref).remainIndexS = some r) : r < n := by
  induction fuel generalizing i sectS force ios ref with
  | zero => cases h
  | succ fuel ih =>
    rw [batchLoop] at h
    by_cases hlast : i ≤ n - 1
    · rw [if_pos hlast] at h
      dsimp only at h
      split at h
      · cases h
        omega
      · exact ih h
    · rw [if_neg hlast] at h
      cases h

theorem doIoBatch_remain_lt {sectStart r : Nat} (hn : 0 < n)
    (h : (doIoBatch rqs n sectStart force ref).remainIndexS = some r) : r < n := batchLoop_remain_lt hn h

/-- What do_io_batch may leave of an array: its requests from the r-th on, all of them writes, beginning at a
sector inside of the r-th. -/
structure LeftOver (rqs : Nat → BlkRq) (n r sectS : Nat) : Prop where
  lt : r < n
  inside : ∃ off < (rqs r).sectors, sectS = ((rqs r).pos + off) % 2^64
  writes : ∀ j, r ≤ j → j < n → (rqs j).dir = .write

theorem GroupSpec.leftOver {i sectS off : Nat} {g : MergeRes} (hi : i < n)
    (hoff : off < (rqs i).sectors) (hs : sectS = ((rqs i).pos + off) % 2^64)
    (hg : GroupSpec rqs n i sectS 1 ((rqSlots rqs i).drop off) ref g) (hdir : (rqs i).dir = .write)
    (hall : i + g.mergeLen - 1 = n - 1) : LeftOver rqs n i sectS := by
  obtain ⟨hlen, -, -, -, -, _, _, _, hchunk, -⟩ := hg
  refine ⟨hi, ⟨off, hoff, hs⟩, fun j h1 h2 => ?_⟩
  obtain ⟨o, ho⟩ := (hchunk.members j).mpr ⟨h1, by omega⟩
  rw [hchunk.one_dir j o ho, hdir]

theorem batchLoop_left {fuel i off sectS r : Nat} {ios : List MergedIo}
    (hn : 0 < n) (hoff : i < n → off < (rqs i).sectors) (hs : i < n → sectS = ((rqs i).pos + off) % 2^64)
    (h : (batchLoop rqs n start fuel i sectS force ios ref).remainIndexS = some r) :
    LeftOver rqs n r (batchLoop rqs n start fuel i sectS force ios ref).sectStart := by
  induction fuel generalizing i off sectS force ios ref with
  | zero => cases h
  | succ fuel ih =>
    rw [batchLoop] at h ⊢
    by_cases hlast : i ≤ n - 1
    · have hi : i < n := by omega
      have hstart : sectS % 2^64 = ((rqs i).pos + off) % 2^64 := by rw [hs hi, Nat.mod_mod]
      have hspec := getMergeLen_spec ref hi (hoff hi) hstart
      obtain ⟨g, hg⟩ : ∃ g, g = getMergeLen rqs i (n - 1) sectS ref := ⟨_, rfl⟩
      rw [← hg] at hspec
      rw [if_pos hlast] at h ⊢
      simp only [← hg] at h ⊢
      split at h
      · next hhold =>
        rw [if_pos hhold]
        cases h
        exact hspec.leftOver hi (hoff hi) (hs hi) hhold.1.1 hhold.1.2.2
      · next hgo =>
        rw [if_neg hgo]
        obtain ⟨hlen, -, -, -, -, _, i', off', -, -, -, hend⟩ := hspec
        rw [hend.index_eq] at h ⊢
        exact ih (fun _ => hend.off_lt) (hend.next_sectS (by omega)) h
    · rw [if_neg hlast] at h
      cases h

theorem doIoBatch_left {off sectStart r : Nat} (hn : 0 < n)
    (hoff : off < (rqs 0).sectors) (hs : sectStart = ((rqs 0).pos + off) % 2^64)
    (h : (doIoBatch rqs n sectStart force ref).remainIndexS = some r) :
    LeftOver rqs n r (doIoBatch rqs n sectStart force ref).sectStart :=
  batchLoop_left hn (fun _ => hoff) (fun _ => hs) h

end DiscoClient
