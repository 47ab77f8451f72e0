import DiscoClient.Common.SysDef
import Mathlib.Logic.Function.Basic

/-! Merging of block requests into IO requests: io_worker_manager.c. Sector positions are 64-bit numbers. -/
namespace DiscoClient

structure BlkRq where
  pos : Nat
  sectors : Nat
  dir : IoDir
  pos_lt : pos < 2^64
  sectors_pos : 0 < sectors
  sectors_le : sectors ≤ maxSectsPerRq

/-- The arguments of one call of IOMgr_submit_IOReq. -/
structure MergedIo where
  indexS : Nat
  numRqs : Nat
  sectS : Nat
  sectLen : Nat
  deriving DecidableEq, Repr

/-- Results of get_merge_len: the lengths, whether the last request is shared with the
next group, and the reference counts. -/
structure MergeRes where
  sectLen : Nat
  mergeLen : Nat
  lastRqMultiRef : Bool
  numRefIor : Nat → Nat

def rqMergable (prev next : BlkRq) : Bool :=
  if prev.dir ≠ next.dir then false
  else next.pos == (prev.pos + prev.sectors) % 2^64

/-- Loop of get_merge_len over the requests that follow the first of a group. -/
def mergeLoop (rqs : Nat → BlkRq) : Nat → Nat → Nat → Nat → (Nat → Nat) → MergeRes
  | 0, _, sectLen, mergeLen, ref => ⟨sectLen, mergeLen, false, ref⟩
  | left + 1, i, sectLen, mergeLen, ref =>
    if rqMergable (rqs (i - 1)) (rqs i) = false then ⟨sectLen, mergeLen, false, ref⟩
    else
      let newSectLen := (sectLen + (rqs i).sectors) % 2^32
      let ref := Function.update ref i 1
      if newSectLen < maxSectsPerRq then
        mergeLoop rqs left (i + 1) newSectLen (mergeLen + 1) ref
      else if newSectLen > maxSectsPerRq ∧ sectLen ≠ maxSectsPerRq then
        ⟨maxSectsPerRq, mergeLen + 1, true, Function.update ref i 2⟩
      else ⟨maxSectsPerRq, mergeLen + 1, false, ref⟩

/-- get_merge_len. Its start sector is a 32-bit parameter; the subtractions are made in
64 bits and the length is stored in 32. -/
def getMergeLen (rqs : Nat → BlkRq) (indexS indexE sectS : Nat) (ref : Nat → Nat) : MergeRes :=
  if indexS > indexE then ⟨0, 0, false, ref⟩
  else
    let rq := rqs indexS
    let ref := if ref indexS = 0 then Function.update ref indexS 1 else ref
    let used := (sectS % 2^32 + (2^64 - rq.pos)) % 2^64
    let sectLen := ((rq.sectors + (2^64 - used)) % 2^64) % 2^32
    if sectLen = maxSectsPerRq ∨ rq.dir = .read then ⟨sectLen, 1, false, ref⟩
    else mergeLoop rqs (indexE - indexS) (indexS + 1) sectLen 1 ref

/-- Results of do_io_batch: the IO requests submitted, the index the left-over suffix
starts at, its start sector, and the reference counts. -/
structure BatchRes where
  ios : List MergedIo
  remainIndexS : Option Nat
  sectStart : Nat
  numRefIor : Nat → Nat

/-- Loop of do_io_batch; the fuel bounds the number of groups. -/
def batchLoop (rqs : Nat → BlkRq) (numRqs sectStart : Nat) :
    Nat → Nat → Nat → Bool → List MergedIo → (Nat → Nat) → BatchRes
  | 0, _, _, _, ios, ref => ⟨ios, none, sectStart, ref⟩
  | fuel + 1, indexS, sectS, forceIo, ios, ref =>
    let indexE := numRqs - 1
    if indexS ≤ indexE then
      let g := getMergeLen rqs indexS indexE sectS ref
      let newIndexS := if g.lastRqMultiRef then indexS + g.mergeLen - 1 else indexS + g.mergeLen
      let mergeEnd := indexS + g.mergeLen - 1
      let doNewStart := decide (newIndexS = mergeEnd + 1)
      let short := (rqs indexS).dir = .write ∧ g.sectLen < maxSectsPerRq ∧ mergeEnd = indexE
      let full := indexS = 0 ∧ numRqs = maxNumRqsMerge
      if short ∧ ¬ full ∧ (forceIo = false ∨ indexS > 0) then
        ⟨ios, some indexS, sectS, g.numRefIor⟩
      else
        batchLoop rqs numRqs sectStart fuel newIndexS
          (if doNewStart then (if newIndexS ≤ indexE then (rqs newIndexS).pos else sectS)
            else (sectS + g.sectLen) % 2^64)
          (if short ∧ full then true else forceIo)
          (ios ++ [⟨indexS, g.mergeLen, sectS, g.sectLen⟩]) g.numRefIor
    else ⟨ios, none, sectStart, ref⟩

/-- do_io_batch; an absent remaining index is the value -1. -/
def doIoBatch (rqs : Nat → BlkRq) (numRqs sectStart : Nat) (forceIo : Bool) (ref : Nat → Nat) : BatchRes :=
  batchLoop rqs numRqs sectStart (numRqs + 1) 0 sectStart forceIo [] ref

end DiscoClient
