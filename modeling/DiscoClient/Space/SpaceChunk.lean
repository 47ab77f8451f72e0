import DiscoClient.Space.SpaceChunkFsm
import DiscoClient.Common.SysDef

/-! Chunks of preallocated space and what is carved from them: metadata_manager/space_chunk.c. -/
namespace DiscoClient

/-- mcache_dnloc_t. -/
structure McacheDnloc where
  ipaddr : Nat
  port : Nat
  rbid : Nat
  offset : Nat
  deriving DecidableEq, Repr

/-- fs_chunk_t: free space of chunkLen LBs, with one location for each of its replicas. -/
structure FsChunk where
  chunkID : Nat
  chunkLen : Nat
  hbidS : Nat
  chunkDNLoc : List McacheDnloc
  chunkState : FsChunkFsm
  deriving DecidableEq, Repr

/-- as_chunk_t: LBs that were given space, with the location of each replica. -/
structure AsChunk where
  fsChunkID : Nat
  lbidS : Nat
  lbLen : Nat
  hbidS : Nat
  chunkDNLoc : List McacheDnloc
  chunkState : AsChunkStat
  deriving DecidableEq, Repr

/-- fschunk_init_chunk and fschunk_init_chunk_DNLoc. -/
def fschunkInitChunk (chunkID len hbidS : Nat) (dnLoc : List McacheDnloc) : FsChunk :=
  ⟨chunkID, len, hbidS, dnLoc, initFschunkStateFsm⟩

namespace FsChunk

/-- The number of LBs taken, a uint32_t that is kept in the int32_t allocSize. -/
def allocSize (chunk : FsChunk) (lbLen : Nat) : Int :=
  Int.bmod (if lbLen ≤ chunk.chunkLen then lbLen else chunk.chunkLen) (2 ^ 32)

def advance (size : Int) (loc : McacheDnloc) : McacheDnloc :=
  { loc with offset := ((loc.offset + size) % 2 ^ 32).toNat }

/-- aschunk_init_chunk and aschunk_init_chunk_DNLoc, for the front of a chunk. -/
def aschunkInitChunk (chunk : FsChunk) (lbS : Nat) (size : Int) : AsChunk :=
  ⟨chunk.chunkID, lbS, (size % 2 ^ 32).toNat, chunk.hbidS, chunk.chunkDNLoc, .allocated⟩

/-- fschunk_alloc_space: mem says that there is memory for the allocated chunk. -/
def allocSpace (chunk : FsChunk) (lbS lbLen : Nat) (mem : Bool) : FsChunk × Option AsChunk :=
  if mem then
    let t := updateFschunkState chunk.chunkState .allocSpace
    if t.2 = .doAlloc then
      let size := chunk.allocSize lbLen
      ({ chunk with
          chunkLen := ((chunk.chunkLen - size) % 2 ^ 32).toNat
          hbidS := ((chunk.hbidS + size) % 2 ^ 64).toNat
          chunkDNLoc := chunk.chunkDNLoc.map (advance size)
          chunkState := (updateFschunkState t.1 .allocDone).1 },
        some (chunk.aschunkInitChunk lbS size))
    -- the record allocated for the chunk is not given back
    else ({ chunk with chunkState := t.1 }, none)
  else (chunk, none)

/-- fschunk_cleanup_chunk: whether the chunk may go. -/
def cleanupChunk (chunk : FsChunk) : FsChunk × Bool :=
  let t := updateFschunkState chunk.chunkState .cleanSpace
  ({ chunk with chunkState := t.1 }, t.2 == .doClean)

/-- fschunk_report_unuse: the first HBID that was not used. -/
def reportUnuse (chunk : FsChunk) : FsChunk × Option Nat :=
  let t := updateFschunkState chunk.chunkState .reportFree
  ({ chunk with chunkState := t.1 }, if t.2 = .doReport then some chunk.hbidS else none)

/-- How a try of fschunk_invalidate_chunk ends. -/
inductive InvalRet where
  | ok
  | eperm
  | retry
  deriving DecidableEq, Repr

/-- One round of fschunk_invalidate_chunk, which tries again while the chunk is allocating. -/
def invalidateChunk (chunk : FsChunk) : FsChunk × InvalRet :=
  let t := updateFschunkState chunk.chunkState .invalidateSpace
  ({ chunk with chunkState := t.1 },
    match t.2 with
    | .doInval => .ok
    | .doRetry => .retry
    | _ => .eperm)

end FsChunk

namespace AsChunk

/-- aschunk_commit_chunk. -/
def commitChunk (a : AsChunk) : AsChunk :=
  { a with chunkState := (updateAschunkState a.chunkState .commit).1 }

/-- aschunk_flush_chunk: whether the chunk is to be flushed. -/
def flushChunk (a : AsChunk) : AsChunk × Bool :=
  let t := updateAschunkState a.chunkState .flushSpace
  ({ a with chunkState := t.1 }, t.2 == .doFlush)

end AsChunk

/-! ### What a chunk does between two operations

An allocation is finished before the pool lock is given back, so no operation finds a chunk in the
middle of one. -/

namespace FsChunk

structure AtRest (chunk : FsChunk) : Prop where
  idle : chunk.chunkState.numAllocating = 0
  stat : chunk.chunkState.chunkStat ≠ .allocating ∧ chunk.chunkState.chunkStat ≠ .init

def IsFree (chunk : FsChunk) : Prop := chunk.chunkState.chunkStat = .free

instance (chunk : FsChunk) : Decidable chunk.IsFree := inferInstanceAs (Decidable (_ = _))

theorem atRest_init (chunkID len hbidS : Nat) (dnLoc : List McacheDnloc) :
    AtRest (fschunkInitChunk chunkID len hbidS dnLoc) :=
  ⟨rfl, by simp [fschunkInitChunk, initFschunkStateFsm]⟩

variable {chunk : FsChunk}

def taken (chunk : FsChunk) (lbLen : Nat) : Nat := min lbLen chunk.chunkLen

theorem taken_le (chunk : FsChunk) (lbLen : Nat) : chunk.taken lbLen ≤ chunk.chunkLen := Nat.min_le_right _ _

theorem allocSize_eq_bmod (chunk : FsChunk) (lbLen : Nat) :
    chunk.allocSize lbLen = Int.bmod (chunk.taken lbLen) (2 ^ 32) := by
  rw [allocSize]
  split_ifs with hle
  · rw [taken, Nat.min_eq_left hle]
  · rw [taken, Nat.min_eq_right (Nat.le_of_not_le hle)]

theorem allocSize_emod (hlen : chunk.chunkLen < 2 ^ 32) (lbLen : Nat) :
    (chunk.allocSize lbLen % 2 ^ 32).toNat = chunk.taken lbLen := by
  have hle := chunk.taken_le lbLen
  rw [allocSize_eq_bmod, show (2 : Int) ^ 32 = ((2 ^ 32 : Nat) : Int) by norm_num, Int.bmod_emod]
  omega

theorem sub_allocSize_emod (hlen : chunk.chunkLen < 2 ^ 32) (lbLen : Nat) :
    ((chunk.chunkLen - chunk.allocSize lbLen) % 2 ^ 32).toNat = chunk.chunkLen - chunk.taken lbLen := by
  have hle := chunk.taken_le lbLen
  rw [allocSize_eq_bmod, show (2 : Int) ^ 32 = ((2 ^ 32 : Nat) : Int) by norm_num, Int.sub_emod,
    Int.bmod_emod, ← Int.sub_emod]
  omega

/-- Requests come from IO requests; from 2^31 LBs on the size would be taken for negative. -/
theorem allocSize_eq (lbLen : Nat) (h : lbLen < 2 ^ 31) : chunk.allocSize lbLen = chunk.taken lbLen := by
  have hlt : chunk.taken lbLen < 2 ^ 31 := lt_of_le_of_lt (Nat.min_le_left _ _) h
  rw [allocSize_eq_bmod]
  exact Int.bmod_eq_of_le (by omega) (by omega)

structure Carved (chunk : FsChunk) (lbS n : Nat) (chunk' : FsChunk) (a : AsChunk) : Prop where
  len : chunk'.chunkLen + n = chunk.chunkLen
  state : chunk'.chunkState = chunk.chunkState
  chunkID : chunk'.chunkID = chunk.chunkID
  given : a = ⟨chunk.chunkID, lbS, n, chunk.hbidS, chunk.chunkDNLoc, .allocated⟩

theorem allocSpace_free (hrest : chunk.AtRest) (hfree : chunk.IsFree) (hlen : chunk.chunkLen < 2 ^ 32)
    (lbS lbLen : Nat) :
    ∃ chunk' a, chunk.allocSpace lbS lbLen true = (chunk', some a) ∧
      Carved chunk lbS (chunk.taken lbLen) chunk' a ∧
      (lbLen < 2 ^ 31 → chunk'.hbidS = (chunk.hbidS + chunk.taken lbLen) % 2 ^ 64 ∧
        chunk'.chunkDNLoc = chunk.chunkDNLoc.map fun loc =>
          { loc with offset := (loc.offset + chunk.taken lbLen) % 2 ^ 32 }) := by
  have hstate : chunk.chunkState = ⟨.free, 0⟩ := by
    rw [← hfree, ← hrest.idle]
  have hle := chunk.taken_le lbLen
  have halloc : chunk.allocSpace lbS lbLen true =
      ({ chunk with
          chunkLen := ((chunk.chunkLen - chunk.allocSize lbLen) % 2 ^ 32).toNat
          hbidS := ((chunk.hbidS + chunk.allocSize lbLen) % 2 ^ 64).toNat
          chunkDNLoc := chunk.chunkDNLoc.map (advance (chunk.allocSize lbLen)) },
        some (chunk.aschunkInitChunk lbS (chunk.allocSize lbLen))) := by
    simp [allocSpace, hstate, updateFschunkState]
  refine ⟨_, _, halloc, ⟨?_, rfl, rfl, ?_⟩, ?_⟩
  · rw [sub_allocSize_emod hlen]
    exact Nat.sub_add_cancel hle
  · rw [aschunkInitChunk, allocSize_emod hlen]
  · intro hreq
    rw [allocSize_eq lbLen hreq]
    refine ⟨?_, List.map_congr_left fun loc _ => ?_⟩
    · change ((chunk.hbidS + (chunk.taken lbLen : Int)) % 2 ^ 64).toNat = _
      omega
    · rw [advance]
      congr 1

theorem allocSpace_noMem (chunk : FsChunk) (lbS lbLen : Nat) : chunk.allocSpace lbS lbLen false = (chunk, none) := rfl

theorem allocSpace_notFree (hrest : chunk.AtRest) (hfree : ¬chunk.IsFree) (lbS lbLen : Nat) (mem : Bool) :
    chunk.allocSpace lbS lbLen mem = (chunk, none) := by
  obtain ⟨chunkID, len, hbidS, dnLoc, stat, num⟩ := chunk
  obtain ⟨-, hne, hinit⟩ := hrest
  cases mem with
  | false => rfl
  | true =>
    cases stat with
    | free => exact absurd rfl hfree
    | allocating => exact absurd rfl hne
    | init | invalidated | reporting | removable => rfl

theorem allocSpace_cases (hrest : chunk.AtRest) (hlen : chunk.chunkLen < 2 ^ 32) (lbS lbLen : Nat) (mem : Bool) :
    (¬(mem = true ∧ chunk.IsFree) ∧ chunk.allocSpace lbS lbLen mem = (chunk, none)) ∨
      ∃ chunk' a, (mem = true ∧ chunk.IsFree) ∧ Carved chunk lbS (chunk.taken lbLen) chunk' a ∧
        chunk.allocSpace lbS lbLen mem = (chunk', some a) := by
  by_cases hfree : chunk.IsFree
  · cases mem with
    | false => exact .inl ⟨fun h => Bool.false_ne_true h.1, rfl⟩
    | true =>
      obtain ⟨chunk', a, halloc, hcarved, -⟩ := allocSpace_free hrest hfree hlen lbS lbLen
      exact .inr ⟨chunk', a, ⟨rfl, hfree⟩, hcarved, halloc⟩
  · exact .inl ⟨fun h => hfree h.2, allocSpace_notFree hrest hfree _ _ _⟩

theorem Carved.used_up {lbS lbLen : Nat} {chunk' : FsChunk} {a : AsChunk} (h : Carved chunk lbS (chunk.taken lbLen) chunk' a)
    (hmore : 0 < lbLen - chunk.taken lbLen) : chunk.taken lbLen = chunk.chunkLen ∧ chunk'.chunkLen = 0 := by
  have hlen := h.len
  rw [taken] at hmore hlen ⊢
  omega

theorem invalidateChunk_eq (hrest : chunk.AtRest) :
    chunk.invalidateChunk =
      if chunk.IsFree then ({ chunk with chunkState := ⟨.invalidated, 0⟩ }, .ok) else (chunk, .eperm) := by
  obtain ⟨chunkID, len, hbidS, dnLoc, stat, num⟩ := chunk
  obtain ⟨hidle, hne, -⟩ := hrest
  obtain rfl : num = 0 := hidle
  cases stat with
  | allocating => exact absurd rfl hne
  | init | free | invalidated | reporting | removable => rfl

theorem reportUnuse_eq (hrest : chunk.AtRest) :
    chunk.reportUnuse =
      if chunk.chunkState.chunkStat = .invalidated then
        ({ chunk with chunkState := ⟨.reporting, 0⟩ }, some chunk.hbidS)
      else (chunk, none) := by
  obtain ⟨chunkID, len, hbidS, dnLoc, stat, num⟩ := chunk
  obtain rfl : num = 0 := hrest.idle
  cases stat <;> rfl

theorem cleanupChunk_eq (hrest : chunk.AtRest) :
    chunk.cleanupChunk =
      if chunk.chunkState.chunkStat = .reporting then
        ({ chunk with chunkState := ⟨.removable, 0⟩ }, true)
      else (chunk, false) := by
  obtain ⟨chunkID, len, hbidS, dnLoc, stat, num⟩ := chunk
  obtain rfl : num = 0 := hrest.idle
  cases stat <;> rfl

theorem AtRest.of_state {chunk' : FsChunk} (hrest : chunk.AtRest) (h : chunk'.chunkState = chunk.chunkState) :
    chunk'.AtRest :=
  ⟨by rw [h]; exact hrest.idle, by rw [h]; exact hrest.stat⟩

theorem AtRest.invalidateChunk (hrest : chunk.AtRest) : chunk.invalidateChunk.1.AtRest := by
  rw [invalidateChunk_eq hrest]
  split_ifs
  · exact ⟨rfl, by simp⟩
  · exact hrest

theorem AtRest.reportUnuse (hrest : chunk.AtRest) : chunk.reportUnuse.1.AtRest := by
  rw [reportUnuse_eq hrest]
  split_ifs
  · exact ⟨rfl, by simp⟩
  · exact hrest

theorem AtRest.cleanupChunk (hrest : chunk.AtRest) : chunk.cleanupChunk.1.AtRest := by
  rw [cleanupChunk_eq hrest]
  split_ifs
  · exact ⟨rfl, by simp⟩
  · exact hrest

end FsChunk
end DiscoClient
