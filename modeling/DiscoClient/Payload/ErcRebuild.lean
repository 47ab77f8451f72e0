import DiscoClient.Payload.PayloadReqFsm
import Mathlib.Data.BitVec
import Mathlib.Data.List.Perm.Basic

/-! Rebuilding erasure-coded data whose data node failed from the other locations: payload_Req_IODone.c. -/
namespace DiscoClient
open List

/-- A page of PAGE_SIZE bytes, as the words that _xor_computing goes over. -/
structure Page where
  words : List (BitVec 64)
  size : words.length = 512
  deriving DecidableEq, Repr

namespace Page

def word (p : Page) (i : Nat) : BitVec 64 := p.words[i]?.getD 0

def byte (p : Page) (k : Nat) : BitVec 8 := (p.word (k / 8)).extractLsb' (8 * (k % 8)) 8

/-- The loop of _xor_computing, from word i on. -/
def xorLoop (src : Page) : Nat → Nat → List (BitVec 64) → List (BitVec 64)
  | 0, _, dest => dest
  | n + 1, i, dest => xorLoop src n (i + 1) (dest.set i (dest[i]?.getD 0 ^^^ src.word i))

theorem length_xorLoop (src : Page) (n i : Nat) (dest : List (BitVec 64)) : (src.xorLoop n i dest).length = dest.length := by
  induction n generalizing i dest with
  | zero => rfl
  | succ n ih => rw [xorLoop, ih, length_set]

theorem size_xorLoop (dest src : Page) : (src.xorLoop 512 0 dest.words).length = 512 := by rw [length_xorLoop, dest.size]

/-- dest_ptr ^= src_ptr over PAGE_SIZE >> 3 words. -/
def xorInto (dest src : Page) : Page := ⟨src.xorLoop 512 0 dest.words, dest.size_xorLoop src⟩

theorem getElem?_xorLoop (src : Page) (n i : Nat) (dest : List (BitVec 64)) (hle : i + n ≤ dest.length) (j : Nat) :
    (src.xorLoop n i dest)[j]? = if i ≤ j ∧ j < i + n then some (dest[j]?.getD 0 ^^^ src.word j) else dest[j]? := by
  induction n generalizing i dest with
  | zero => rw [xorLoop, if_neg (by omega)]
  | succ n ih =>
    rw [xorLoop, ih _ _ (by rw [length_set]; omega), List.getElem?_set]
    by_cases hij : i = j
    · subst hij
      rw [if_neg (by omega), if_pos rfl, if_pos (by omega), if_pos (by omega)]
    · rw [if_neg hij]
      exact if_congr (by omega) rfl rfl

theorem word_xorInto (dest src : Page) (i : Nat) : (dest.xorInto src).word i = dest.word i ^^^ src.word i := by
  rw [word, xorInto, getElem?_xorLoop _ _ _ _ (by rw [dest.size])]
  split_ifs with hi
  · rfl
  · have hdest : dest.words[i]? = none := List.getElem?_eq_none (by rw [dest.size]; omega)
    have hsrc : src.words[i]? = none := List.getElem?_eq_none (by rw [src.size]; omega)
    rw [word, word, hdest, hsrc]
    rfl

end Page

/-- What metaD_item_t has for a rebuild; the counts are of type uint16_t. -/
structure ErcItem where
  numDnLoc : Nat
  ercCntDnresp : Nat
  ercBuffer : Page
  deriving DecidableEq, Repr

/-- _xor_computing: the item and the payload it leaves, and the number of data nodes it waits for. -/
def ErcItem.xorComputing (md : ErcItem) (payload : Page) : ErcItem × Page × Int :=
  let cnt : Nat := (md.ercCntDnresp + 1) % 2 ^ 16
  let numDnWait : Int := md.numDnLoc - cnt - 1
  if cnt = 1 then ({ md with ercCntDnresp := cnt, ercBuffer := payload }, payload, numDnWait)
  else if 0 < numDnWait then ({ md with ercCntDnresp := cnt, ercBuffer := md.ercBuffer.xorInto payload }, payload, numDnWait)
  else if numDnWait = 0 then ({ md with ercCntDnresp := cnt }, payload.xorInto md.ercBuffer, numDnWait)
  else ({ md with ercCntDnresp := cnt }, payload, numDnWait)

structure ErcRead where
  mdItem : ErcItem
  plReqStat : PlReqState
  copied : List Page
  deriving DecidableEq, Repr

/-- _PLReq_ReadDN_TrueMD_ERC_rebuild for UData_S_READ_OK. -/
def ErcRead.rebuild (r : ErcRead) (payload : Page) : ErcRead :=
  let x := r.mdItem.xorComputing payload
  if x.2.2 ≠ 0 then { r with mdItem := x.1 }
  else ⟨x.1, (plReqUpdateState r.plReqStat .ciCaller).1,
    if (plReqUpdateState r.plReqStat .ciCaller).2 = .doCiCaller then r.copied ++ [x.2.1] else r.copied⟩

namespace ErcRead

def run (r : ErcRead) (payloads : List Page) : ErcRead := payloads.foldl rebuild r

def xorWord (payloads : List Page) (i : Nat) : BitVec 64 := (payloads.map fun p => p.word i).foldr (· ^^^ ·) 0

def xorByte (payloads : List Page) (k : Nat) : BitVec 8 := (payloads.map fun p => p.byte k).foldr (· ^^^ ·) 0

theorem xorWord_concat (payloads : List Page) (p : Page) (i : Nat) :
    xorWord (payloads ++ [p]) i = xorWord payloads i ^^^ p.word i := by
  induction payloads with
  | nil => exact BitVec.xor_comm _ _
  | cons q payloads ih =>
    have ih : (List.map (fun p => p.word i) (payloads ++ [p])).foldr (· ^^^ ·) 0 = xorWord payloads i ^^^ p.word i := ih
    rw [xorWord, cons_append, map_cons, foldr_cons, ih, ← BitVec.xor_assoc]
    rfl

theorem xorWord_cons (p : Page) (payloads : List Page) (i : Nat) :
    xorWord (p :: payloads) i = p.word i ^^^ xorWord payloads i := rfl

theorem xorByte_eq (payloads : List Page) (k : Nat) :
    xorByte payloads k = (xorWord payloads (k / 8)).extractLsb' (8 * (k % 8)) 8 := by
  induction payloads with
  | nil => exact BitVec.extractLsb'_zero.symm
  | cons p payloads ih =>
    rw [xorWord_cons, BitVec.extractLsb'_xor, ← ih]
    rfl

theorem xorByte_perm {payloads payloads' : List Page} (h : payloads.Perm payloads') (k : Nat) :
    xorByte payloads k = xorByte payloads' k := by
  have hcomm : LeftCommutative fun x y : BitVec 8 => x ^^^ y := ⟨fun x y z => by
    rw [← BitVec.xor_assoc, BitVec.xor_comm x y, BitVec.xor_assoc]⟩
  exact (h.map _).foldr_eq _

/-! ### Arrivals -/

/-- After some payloads and before the last: nothing was copied, and the buffer has their exclusive-or. -/
structure Gathers (n : Nat) (stat : PlReqState) (arrived : List Page) (r : ErcRead) : Prop where
  locs : r.mdItem.numDnLoc = n
  count : r.mdItem.ercCntDnresp = arrived.length
  stat : r.plReqStat = stat
  copied : r.copied = []
  buffer : arrived ≠ [] → ∀ i, r.mdItem.ercBuffer.word i = xorWord arrived i

variable {n : Nat} {stat : PlReqState} {arrived : List Page} {r : ErcRead}

theorem xorComputing_wait (md : ErcItem) (hcnt : md.ercCntDnresp + 2 < md.numDnLoc) (hn : md.numDnLoc ≤ 2 ^ 16) (p : Page) :
    (md.xorComputing p).2.2 ≠ 0 ∧ (md.xorComputing p).1 = ⟨md.numDnLoc, md.ercCntDnresp + 1,
      if md.ercCntDnresp = 0 then p else md.ercBuffer.xorInto p⟩ := by
  have hmod : (md.ercCntDnresp + 1) % 2 ^ 16 = md.ercCntDnresp + 1 := Nat.mod_eq_of_lt (by omega)
  have hwait : (0 : Int) < (md.numDnLoc : Int) - (md.ercCntDnresp + 1 : Nat) - 1 := by omega
  rw [ErcItem.xorComputing, hmod]
  by_cases hzero : md.ercCntDnresp = 0
  · rw [if_pos (by omega), if_pos hzero]
    exact ⟨ne_of_gt hwait, rfl⟩
  · rw [if_neg (by omega), if_pos hwait, if_neg hzero]
    exact ⟨ne_of_gt hwait, rfl⟩

theorem xorComputing_last (md : ErcItem) (hcnt : md.ercCntDnresp + 2 = md.numDnLoc) (hn : md.numDnLoc ≤ 2 ^ 16) (p : Page) :
    (md.xorComputing p).2 = (if md.ercCntDnresp = 0 then p else p.xorInto md.ercBuffer, 0) := by
  have hmod : (md.ercCntDnresp + 1) % 2 ^ 16 = md.ercCntDnresp + 1 := Nat.mod_eq_of_lt (by omega)
  have hwait : (md.numDnLoc : Int) - (md.ercCntDnresp + 1 : Nat) - 1 = 0 := by omega
  rw [ErcItem.xorComputing, hmod]
  by_cases hzero : md.ercCntDnresp = 0
  · rw [if_pos (by omega), if_pos hzero, hwait]
  · rw [if_neg (by omega), if_neg (by omega), if_pos hwait, if_neg hzero, hwait]

theorem Gathers.next (h : Gathers n stat arrived r) (hn : n ≤ 2 ^ 16) (hlt : arrived.length + 2 < n) (p : Page) :
    Gathers n stat (arrived ++ [p]) (r.rebuild p) := by
  obtain ⟨hlocs, hcount, hstat, hcopied, hbuffer⟩ := h
  obtain ⟨hwait, hitem⟩ := xorComputing_wait r.mdItem (by omega) (by omega) p
  rw [rebuild, if_pos hwait, hitem]
  refine ⟨hlocs, ?_, hstat, hcopied, fun _ i => ?_⟩
  · rw [hcount, length_append]
    rfl
  · change (if r.mdItem.ercCntDnresp = 0 then p else r.mdItem.ercBuffer.xorInto p).word i = _
    rw [xorWord_concat]
    cases arrived with
    | nil =>
      rw [if_pos (show r.mdItem.ercCntDnresp = 0 from hcount)]
      exact (BitVec.zero_xor).symm
    | cons q arrived =>
      rw [if_neg (by rw [hcount, length_cons]; omega), Page.word_xorInto, hbuffer (cons_ne_nil q arrived)]

theorem Gathers.last (h : Gathers n stat arrived r) (hn : n ≤ 2 ^ 16) (heq : arrived.length + 2 = n)
    (hstat : stat = .waitIoDone ∨ stat = .toCheck) (p : Page) :
    ∃ page, (r.rebuild p).copied = [page] ∧ ∀ i, page.word i = xorWord (arrived ++ [p]) i := by
  obtain ⟨hlocs, hcount, rfl, hcopied, hbuffer⟩ := h
  have hlast := xorComputing_last r.mdItem (by omega) (by omega) p
  have haction : (plReqUpdateState r.plReqStat .ciCaller).2 = .doCiCaller := by
    rcases hstat with hstat | hstat
    · rw [hstat]
      rfl
    · rw [hstat]
      rfl
  rw [rebuild, hlast, if_neg (not_not.mpr rfl), if_pos haction, hcopied]
  refine ⟨_, rfl, fun i => ?_⟩
  rw [xorWord_concat]
  cases arrived with
  | nil =>
    rw [if_pos (show r.mdItem.ercCntDnresp = 0 from hcount)]
    exact (BitVec.zero_xor).symm
  | cons q arrived =>
    rw [if_neg (by rw [hcount, length_cons]; omega), Page.word_xorInto, hbuffer (cons_ne_nil q arrived),
      BitVec.xor_comm]

theorem Gathers.run (h : Gathers n stat arrived r) (hn : n ≤ 2 ^ 16) (payloads : List Page)
    (hlt : arrived.length + payloads.length + 1 < n) : Gathers n stat (arrived ++ payloads) (r.run payloads) := by
  induction payloads generalizing arrived r with
  | nil =>
    rw [append_nil]
    exact h
  | cons p payloads ih =>
    rw [length_cons] at hlt
    have hrest := ih (h.next hn (by omega) p) (by rw [length_append, length_singleton]; omega)
    rwa [append_assoc] at hrest

/-- Payloads of all locations but the failed one, in any order: nothing is copied to the caller before the
last arrives, and then one page whose bytes are the exclusive-or of theirs. -/
theorem erc_rebuild_xor (n : Nat) (hn : 2 ≤ n) (hmax : n < 2 ^ 16) (buffer : Page) (stat : PlReqState)
    (hstat : stat = .waitIoDone ∨ stat = .toCheck) (payloads arrivals : List Page) (hlen : payloads.length = n - 1)
    (hperm : arrivals.Perm payloads) :
    (∀ j < arrivals.length, (run ⟨⟨n, 0, buffer⟩, stat, []⟩ (arrivals.take j)).copied = []) ∧
      ∃ page, (run ⟨⟨n, 0, buffer⟩, stat, []⟩ arrivals).copied = [page] ∧ ∀ k, page.byte k = xorByte payloads k := by
  have hcount := hperm.length_eq
  have hstart : Gathers n stat [] ⟨⟨n, 0, buffer⟩, stat, []⟩ := ⟨rfl, rfl, rfl, rfl, fun h => absurd rfl h⟩
  constructor
  · intro j hj
    have hgathers := hstart.run (Nat.le_of_lt hmax) (arrivals.take j) (by rw [length_take, length_nil]; omega)
    exact hgathers.copied
  · rcases eq_nil_or_concat' arrivals with rfl | ⟨before, p, rfl⟩
    · rw [length_nil] at hcount
      omega
    · rw [length_append, length_singleton] at hcount
      have hgathers := hstart.run (Nat.le_of_lt hmax) before (by rw [length_nil]; omega)
      obtain ⟨page, hcopied, hwords⟩ := hgathers.last (Nat.le_of_lt hmax) (by rw [nil_append]; omega) hstat p
      refine ⟨page, ?_, fun k => ?_⟩
      · rw [run, foldl_concat]
        exact hcopied
      · rw [← xorByte_perm hperm, xorByte_eq, ← nil_append before, ← hwords]
        rfl

def pageOf (w : BitVec 64) : Page := ⟨List.replicate 512 w, List.length_replicate⟩

/-- Two of three locations answer, the second first. -/
theorem erc_rebuild_xor_two :
    (∀ j < [pageOf 6, pageOf 5].length, (run ⟨⟨3, 0, pageOf 0⟩, .waitIoDone, []⟩ ([pageOf 6, pageOf 5].take j)).copied = []) ∧
      ∃ page, (run ⟨⟨3, 0, pageOf 0⟩, .waitIoDone, []⟩ [pageOf 6, pageOf 5]).copied = [page] ∧
        ∀ k, page.byte k = xorByte [pageOf 5, pageOf 6] k :=
  erc_rebuild_xor 3 (by decide) (by decide) (pageOf 0) .waitIoDone (.inl rfl) [pageOf 5, pageOf 6] [pageOf 6, pageOf 5] rfl
    (List.Perm.swap _ _ _)

end ErcRead
end DiscoClient
