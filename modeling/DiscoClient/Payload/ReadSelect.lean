import DiscoClient.Common.SysDef
import DiscoClient.Lib.CyclicScan

/-! Which replica is read: payload_manager/Read_Replica_Selector.c. -/
namespace DiscoClient

/-- What Check_DN_Resources_Is_Available looks at: whether the resource is available, and the number of timeouts. -/
structure DnResource where
  isAvailable : Bool
  numberTimeoutOccur : Int
  deriving DecidableEq, Repr

/-- RESOURCES_IS_FREE_TO_USE and RESOURCES_IS_NOT_AVAILABLE. -/
def resourcesIsFreeToUse : Int := 0
def resourcesIsNotAvailable : Int := 1

/-- Check_DN_Resources_Is_Available of a data node, which has a resource unless there was no memory to add it; the number
of timeouts is returned as an int32_t. -/
def checkDNResourcesIsAvailable : Option DnResource → Int
  | some res => if res.isAvailable then toS32 res.numberTimeoutOccur else resourcesIsNotAvailable
  | none => resourcesIsNotAvailable

/-- Read_DN_selector: a uint16_t and a uint32_t. -/
structure ReadDnSelector where
  readDNIdx : Nat
  readDNNumLB : Nat
  deriving DecidableEq, Repr

/-- The data nodes of the item, as the flow control knows them, and the number of its LBs. -/
structure ReadSelection where
  dnLocs : List (Option DnResource)
  numHbids : Nat
  maxReadBytes : Nat
  readRrOn : Bool
  deriving DecidableEq, Repr

namespace ReadSelection

/-- The number of locations, num_dnLoc. -/
def numDnLoc (s : ReadSelection) : Nat := s.dnLocs.length

def free (s : ReadSelection) (i : Nat) : Bool := checkDNResourcesIsAvailable (s.dnLocs[i]?.join) == resourcesIsFreeToUse

/-- _PLMgr_RoundRobin_selectDN. -/
def roundRobinSelectDN (s : ReadSelection) (dnSeltor : ReadDnSelector) : ReadDnSelector × Nat :=
  let numLB := toU32 (dnSeltor.readDNNumLB + s.numHbids)
  let seltor : ReadDnSelector :=
    if s.maxReadBytes ≤ numLB then ⟨(dnSeltor.readDNIdx + 1) % 2 ^ 16, 0⟩ else ⟨dnSeltor.readDNIdx, numLB⟩
  (seltor, seltor.readDNIdx % s.numDnLoc)

/-- The loop of _PLMgr_checkDN_health, if it ends within as many turns as there is fuel. -/
def checkLoop (s : ReadSelection) (selectDN : Nat) : Nat → Nat → Option Nat
  | 0, _ => none
  | fuel + 1, chkIdx =>
    if s.free chkIdx then some chkIdx
    else if (chkIdx + 1) % s.numDnLoc = selectDN then some ((chkIdx + 1) % s.numDnLoc)
    else checkLoop s selectDN fuel ((chkIdx + 1) % s.numDnLoc)

/-- _PLMgr_checkDN_health. -/
def checkDNHealth (s : ReadSelection) (selectDN fuel : Nat) : Option Nat := s.checkLoop selectDN fuel selectDN

/-- PLMgr_Read_selectDN. -/
def readSelectDN (s : ReadSelection) (dnSeltor : ReadDnSelector) (fuel : Nat) : Option (ReadDnSelector × Nat) :=
  let r := if s.readRrOn then s.roundRobinSelectDN dnSeltor else (dnSeltor, 0)
  (s.checkDNHealth r.2 fuel).map fun chkIndex =>
    if chkIndex ≠ r.2 then (if s.readRrOn then ⟨chkIndex, 0⟩ else r.1, chkIndex) else (r.1, r.2)

/-- Where the scan starts: at the round-robin index, one further when enough LBs were read from the current one. -/
def startPos (s : ReadSelection) (dnSeltor : ReadDnSelector) : Nat :=
  if s.readRrOn then
    (if s.maxReadBytes ≤ (dnSeltor.readDNNumLB + s.numHbids) % 2 ^ 32 then (dnSeltor.readDNIdx + 1) % 2 ^ 16
      else dnSeltor.readDNIdx) % s.numDnLoc
  else 0

def firstFree (s : ReadSelection) (start : Nat) : Nat := ((cyclicFrom s.numDnLoc start).find? s.free).getD start

/-- The selector after the selection: at the location chosen if that is not where the scan started. -/
def seltorLeft (s : ReadSelection) (dnSeltor : ReadDnSelector) : ReadDnSelector :=
  if ¬s.readRrOn then dnSeltor
  else if s.firstFree (s.startPos dnSeltor) ≠ s.startPos dnSeltor then ⟨s.firstFree (s.startPos dnSeltor), 0⟩
  else if s.maxReadBytes ≤ (dnSeltor.readDNNumLB + s.numHbids) % 2 ^ 32 then ⟨(dnSeltor.readDNIdx + 1) % 2 ^ 16, 0⟩
  else ⟨dnSeltor.readDNIdx, (dnSeltor.readDNNumLB + s.numHbids) % 2 ^ 32⟩

variable {s : ReadSelection} {dnSeltor : ReadDnSelector} {start fuel : Nat}

theorem startPos_lt (hn : 0 < s.numDnLoc) (dnSeltor : ReadDnSelector) : s.startPos dnSeltor < s.numDnLoc := by
  rw [startPos]
  by_cases hrr : s.readRrOn = true
  · rw [if_pos hrr]
    exact Nat.mod_lt _ hn
  · rwa [if_neg hrr]

theorem checkLoop_eq (hstart : start < s.numDnLoc) (j fuel : Nat) (hj : j < s.numDnLoc) (hfuel : s.numDnLoc ≤ j + fuel) :
    s.checkLoop start fuel ((start + j) % s.numDnLoc) =
      some ((((List.range' j (s.numDnLoc - j)).map fun i => (start + i) % s.numDnLoc).find? s.free).getD start) := by
  induction fuel generalizing j with
  | zero => omega
  | succ fuel ih =>
    have hnext : ((start + j) % s.numDnLoc + 1) % s.numDnLoc = (start + (j + 1)) % s.numDnLoc := by
      rw [Nat.mod_add_mod, Nat.add_assoc]
    obtain ⟨m, hm⟩ : ∃ m, s.numDnLoc - j = m + 1 := ⟨s.numDnLoc - j - 1, by omega⟩
    rw [checkLoop, hm, List.range'_succ, List.map_cons, List.find?_cons, hnext]
    cases hfree : s.free ((start + j) % s.numDnLoc) with
    | true => rfl
    | false =>
      rw [if_neg Bool.false_ne_true]
      rcases Nat.lt_or_ge (j + 1) s.numDnLoc with hlt | hge
      · -- the scan is not back at its start
        have hne : (start + (j + 1)) % s.numDnLoc ≠ start := by
          rcases Nat.lt_or_ge (start + (j + 1)) s.numDnLoc with hsmall | hbig
          · rw [Nat.mod_eq_of_lt hsmall]
            omega
          · rw [Nat.mod_eq_sub_mod hbig, Nat.mod_eq_of_lt (by omega)]
            omega
        rw [if_neg hne, ih (j + 1) hlt (by omega), show s.numDnLoc - (j + 1) = m by omega]
      · obtain rfl : m = 0 := by omega
        have hback : (start + (j + 1)) % s.numDnLoc = start := by
          rw [show j + 1 = s.numDnLoc by omega, Nat.add_mod_right, Nat.mod_eq_of_lt hstart]
        rw [hback, if_pos rfl]
        rfl

/-- _PLMgr_checkDN_health finds the first location that is free to use. -/
theorem checkDNHealth_eq (hstart : start < s.numDnLoc) (hfuel : s.numDnLoc ≤ fuel) :
    s.checkDNHealth start fuel = some (s.firstFree start) := by
  have hloop := checkLoop_eq hstart 0 fuel (Nat.zero_lt_of_lt hstart) (by omega)
  rw [Nat.add_zero, Nat.mod_eq_of_lt hstart, Nat.sub_zero, ← List.range_eq_range',
    ← CyclicScan.cyclicFrom_eq_map (Nat.le_of_lt hstart)] at hloop
  exact hloop

theorem firstFree_lt (hstart : start < s.numDnLoc) : s.firstFree start < s.numDnLoc := by
  rw [firstFree]
  cases hfind : (cyclicFrom s.numDnLoc start).find? s.free with
  | none => exact hstart
  | some i => exact (CyclicScan.mem_cyclicFrom (Nat.le_of_lt hstart)).mp (List.mem_of_find?_eq_some hfind)

theorem roundRobinSelectDN_eq (s : ReadSelection) (dnSeltor : ReadDnSelector) (hrr : s.readRrOn = true) :
    s.roundRobinSelectDN dnSeltor =
      (if s.maxReadBytes ≤ (dnSeltor.readDNNumLB + s.numHbids) % 2 ^ 32 then ⟨(dnSeltor.readDNIdx + 1) % 2 ^ 16, 0⟩
        else ⟨dnSeltor.readDNIdx, (dnSeltor.readDNNumLB + s.numHbids) % 2 ^ 32⟩, s.startPos dnSeltor) := by
  rw [startPos, if_pos hrr, roundRobinSelectDN, ← Nat.cast_add, toU32_natCast]
  split_ifs <;> rfl

theorem readSelectDN_eq (hn : 0 < s.numDnLoc) (dnSeltor : ReadDnSelector) (hfuel : s.numDnLoc ≤ fuel) :
    s.readSelectDN dnSeltor fuel = some (s.seltorLeft dnSeltor, s.firstFree (s.startPos dnSeltor)) := by
  have hcheck := checkDNHealth_eq (startPos_lt hn dnSeltor) hfuel
  cases hrr : s.readRrOn with
  | false =>
    have hpos : s.startPos dnSeltor = 0 := by rw [startPos, hrr, if_neg Bool.false_ne_true]
    rw [hpos] at hcheck ⊢
    rw [readSelectDN, seltorLeft, hrr, if_pos Bool.false_ne_true, if_neg Bool.false_ne_true, hcheck, Option.map_some]
    by_cases hstay : s.firstFree 0 = 0
    · rw [if_neg (not_not.mpr hstay), hstay]
    · rw [if_pos hstay, if_neg Bool.false_ne_true]
  | true =>
    rw [readSelectDN, seltorLeft, hrr, if_pos rfl, if_neg (not_not.mpr rfl), roundRobinSelectDN_eq s dnSeltor hrr, hcheck,
      Option.map_some]
    by_cases hstay : s.firstFree (s.startPos dnSeltor) = s.startPos dnSeltor
    · rw [if_neg (not_not.mpr hstay), if_neg (not_not.mpr hstay), hstay]
    · rw [if_pos hstay, if_pos hstay, if_pos rfl]

def selectAll (fuel : Nat) : ReadDnSelector → List ReadSelection → Option (ReadDnSelector × List Nat)
  | dnSeltor, [] => some (dnSeltor, [])
  | dnSeltor, s :: ss =>
    (s.readSelectDN dnSeltor fuel).bind fun r => (selectAll fuel r.1 ss).map fun out => (out.1, r.2 :: out.2)

theorem selectAll_isSome {ss : List ReadSelection} (hn : ∀ s ∈ ss, 0 < s.numDnLoc) (hfuel : ∀ s ∈ ss, s.numDnLoc ≤ fuel)
    (dnSeltor : ReadDnSelector) : ∃ seltor chosen, selectAll fuel dnSeltor ss = some (seltor, chosen) := by
  induction ss generalizing dnSeltor with
  | nil => exact ⟨dnSeltor, [], rfl⟩
  | cons s ss ih =>
    rw [List.forall_mem_cons] at hn hfuel
    obtain ⟨seltor, chosen, hrest⟩ := ih hn.2 hfuel.2 (s.seltorLeft dnSeltor)
    rw [selectAll, readSelectDN_eq hn.1 dnSeltor hfuel.1, Option.bind_some, hrest]
    exact ⟨seltor, _, rfl⟩

/-- Each selection of a sequence ends and chooses a location of its item: the first that is free to use, in circular order
from its starting position on, or the starting position. The selector is left for the next one as said. -/
theorem read_replica_first_free (dnSeltor : ReadDnSelector) (ss : List ReadSelection) (hn : ∀ s ∈ ss, 0 < s.numDnLoc)
    (fuel : Nat) (hfuel : ∀ s ∈ ss, s.numDnLoc ≤ fuel) (before : List ReadSelection) (s : ReadSelection)
    (after : List ReadSelection) (hss : ss = before ++ s :: after) :
    ∃ seltor chosen, selectAll fuel dnSeltor before = some (seltor, chosen) ∧
      s.readSelectDN seltor fuel = some (s.seltorLeft seltor, s.firstFree (s.startPos seltor)) ∧
      s.firstFree (s.startPos seltor) < s.numDnLoc := by
  subst hss
  rw [List.forall_mem_append, List.forall_mem_cons] at hn hfuel
  obtain ⟨seltor, chosen, hbefore⟩ := selectAll_isSome hn.1 hfuel.1 dnSeltor
  exact ⟨seltor, chosen, hbefore, readSelectDN_eq hn.2.1 seltor hfuel.2.1, firstFree_lt (startPos_lt hn.2.1 seltor)⟩

def secondTimedOut : ReadSelection := ⟨[some ⟨true, 0⟩, some ⟨true, 1⟩, some ⟨true, 0⟩], 1, 2, true⟩

/-- After a first selection the round robin comes to the data node that had a timeout and goes on to the next. -/
theorem read_replica_first_free_third :
    selectAll 3 ⟨0, 0⟩ [secondTimedOut] = some (⟨0, 1⟩, [0]) ∧
      secondTimedOut.readSelectDN ⟨0, 1⟩ 3 = some (⟨2, 0⟩, 2) := by
  obtain ⟨seltor, chosen, hbefore, hselect, -⟩ := read_replica_first_free ⟨0, 0⟩ [secondTimedOut, secondTimedOut]
    (by decide) 3 (by decide) [secondTimedOut] secondTimedOut [] rfl
  have hfirst : selectAll 3 ⟨0, 0⟩ [secondTimedOut] = some (⟨0, 1⟩, [0]) := by decide
  obtain ⟨rfl, rfl⟩ := Prod.mk.inj (Option.some.inj (hfirst.symm.trans hbefore))
  exact ⟨hfirst, hselect.trans (by decide)⟩

end ReadSelection
end DiscoClient
