import DiscoClient.NnClient.MdRespParse
import Mathlib.Data.List.Induction

namespace DiscoClient
open Wire List

structure SentDnLoc where
  ip : DottedIp
  port : BitVec 32
  rlo : List (BitVec 64)
  rlo_length_le : rlo.length ≤ maxLbsPerIor

structure SentMdItem where
  hbids : List (BitVec 64)
  dnLocs : List SentDnLoc
  stat : BitVec 16
  hbids_length_le : hbids.length ≤ maxLbsPerIor
  dnLocs_length_le : dnLocs.length ≤ maxNumReplica

def SentDnLoc.bytes (loc : SentDnLoc) : List (BitVec 8) :=
  beU16 (BitVec.ofNat 16 loc.ip.str.length) ++ (loc.ip.str ++ (beU32 loc.port ++
    (beU16 (BitVec.ofNat 16 loc.rlo.length) ++ loc.rlo.flatMap beU64)))

def SentMdItem.bytes (item : SentMdItem) : List (BitVec 8) :=
  beU16 (BitVec.ofNat 16 item.hbids.length) ++ (item.hbids.flatMap beU64 ++
    (beU16 (BitVec.ofNat 16 item.dnLocs.length) ++ (item.dnLocs.flatMap SentDnLoc.bytes ++ beU16 item.stat)))

def FcPkt.bytes (fc : FcPkt) : List (BitVec 8) :=
  beU32 fc.rateSlowStart ++ (beU32 fc.rateSlowStartMaxReqs ++ (beU32 fc.rateAlloc ++ (beU32 fc.rateAllocMaxReqs ++
    beU32 fc.rateAgeTime)))

def mdRespBytes (mdId : BitVec 64) (items : List SentMdItem) (fc : FcPkt) : List (BitVec 8) :=
  beU64 mdId ++ (beU16 (BitVec.ofNat 16 items.length) ++ (items.flatMap SentMdItem.bytes ++ fc.bytes))

/-- A well-formed response: it has an item, and its 16-bit size counts the 8 bytes of the request ID too. -/
structure SentMdResp where
  mdId : BitVec 64
  items : List SentMdItem
  fc : FcPkt
  items_ne_nil : items ≠ []
  size_lt : (mdRespBytes mdId items fc).length + 8 < 2 ^ 16

/-! ### The string buffer of an item -/

/-- The byte left at a position by the last string of an item that is long enough. -/
def staleByte (earlier : List (List (BitVec 8))) (pos : Nat) : BitVec 8 :=
  (earlier.reverse.findSome? (·[pos]?)).getD 0#8

def staleDigits (earlier : List (List (BitVec 8))) (len : Nat) : List (BitVec 8) :=
  ((List.range (ipv4addrNmLen - len)).map fun k => staleByte earlier (len + k)).takeWhile isDigit

def ipv4addrBuf (strs : List (List (BitVec 8))) : List (BitVec 8) :=
  strs.foldl (fun buf s => overwrite buf 0 s) (List.replicate ipv4addrNmLen 0#8)

theorem ipv4addrBuf_concat (strs : List (List (BitVec 8))) (s : List (BitVec 8)) :
    ipv4addrBuf (strs ++ [s]) = overwrite (ipv4addrBuf strs) 0 s := by
  rw [ipv4addrBuf, foldl_append]
  rfl

theorem staleByte_concat (strs : List (List (BitVec 8))) (s : List (BitVec 8)) (pos : Nat) :
    staleByte (strs ++ [s]) pos = (s[pos]?).getD (staleByte strs pos) := by
  rw [staleByte, reverse_append, reverse_singleton, singleton_append, List.findSome?_cons, staleByte]
  cases s[pos]? <;> rfl

variable {strs : List (List (BitVec 8))}

theorem length_ipv4addrBuf (h : ∀ s ∈ strs, s.length ≤ ipv4addrNmLen) :
    (ipv4addrBuf strs).length = ipv4addrNmLen := by
  induction strs using List.reverseRecOn with
  | nil => rfl
  | append_singleton strs s ih =>
    have hstrs := ih fun t ht => h t (mem_append_left _ ht)
    have hs : s.length ≤ ipv4addrNmLen := h s (mem_append_right _ mem_cons_self)
    rw [ipv4addrBuf_concat, Overwrite.length_overwrite (by omega), hstrs]

theorem getElem?_ipv4addrBuf (h : ∀ s ∈ strs, s.length ≤ ipv4addrNmLen) {i : Nat} (hi : i < ipv4addrNmLen) :
    (ipv4addrBuf strs)[i]? = some (staleByte strs i) := by
  induction strs using List.reverseRecOn with
  | nil => rw [ipv4addrBuf, foldl_nil, List.getElem?_replicate_of_lt hi]; rfl
  | append_singleton strs s ih =>
    rw [ipv4addrBuf_concat, staleByte_concat]
    rcases Nat.lt_or_ge i s.length with his | his
    · have hmem : (overwrite (ipv4addrBuf strs) 0 s)[0 + i]? = s[i]? := Overwrite.getElem?_of_mem (Nat.zero_le _) his
      rw [← Nat.zero_add i, hmem, Nat.zero_add, List.getElem?_eq_getElem his, Option.getD_some]
    · rw [Overwrite.getElem?_of_ge (Nat.zero_le _) (by omega), ih fun t ht => h t (mem_append_left _ ht),
        List.getElem?_eq_none his, Option.getD_none]

theorem staleDigits_eq (h : ∀ s ∈ strs, s.length ≤ ipv4addrNmLen) (len : Nat) :
    ((ipv4addrBuf strs).drop len).takeWhile isDigit = staleDigits strs len := by
  rw [staleDigits]
  congr 1
  apply ext_getElem?
  intro i
  rw [List.getElem?_drop, List.getElem?_map]
  rcases Nat.lt_or_ge (len + i) ipv4addrNmLen with hi | hi
  · rw [getElem?_ipv4addrBuf h hi, List.getElem?_range (by omega), Option.map_some]
  · rw [List.getElem?_eq_none (by rw [length_ipv4addrBuf h]; exact hi),
      List.getElem?_eq_none (by rw [length_range]; omega), Option.map_none]

/-! ### What is parsed -/

def SentDnLoc.loc (l : SentDnLoc) : NnDnLoc := ⟨l.ip.addr, l.port, l.rlo⟩

/-- As it is parsed behind others of its item: digits that their strings left belong to the last value. -/
def SentDnLoc.parsed (earlier : List (List (BitVec 8))) (l : SentDnLoc) : NnDnLoc :=
  ⟨inetAddr (decNat l.ip.a.str) (decNat l.ip.b.str) (decNat l.ip.c.str)
    (decNat (l.ip.d.str ++ staleDigits earlier l.ip.str.length)), l.port, l.rlo⟩

def parsedDnLocs : List (List (BitVec 8)) → List SentDnLoc → List NnDnLoc
  | _, [] => []
  | earlier, l :: ls => l.parsed earlier :: parsedDnLocs (earlier ++ [l.ip.str]) ls

theorem toNat_ofNat_16 {n : Nat} (h : n < 2 ^ 16) : (BitVec.ofNat 16 n).toNat = n := by
  rw [BitVec.toNat_ofNat, Nat.mod_eq_of_lt h]

theorem SentDnLoc.length_bytes (l : SentDnLoc) : l.bytes.length = 2 + l.ip.str.length + 4 + 2 + 8 * l.rlo.length := by
  simp only [bytes, length_append, length_u16, length_u32, length_flatMap_u64]
  omega

theorem ccmaInetNtoa_buf (earlier : List (List (BitVec 8))) (h : ∀ s ∈ earlier, s.length ≤ ipv4addrNmLen)
    (ip : DottedIp) :
    ccmaInetNtoa (ipv4addrBuf (earlier ++ [ip.str])) =
      some (inetAddr (decNat ip.a.str) (decNat ip.b.str) (decNat ip.c.str)
        (decNat (ip.d.str ++ staleDigits earlier ip.str.length))) := by
  have hbuf : ipv4addrBuf (earlier ++ [ip.str]) = ip.str ++ (ipv4addrBuf earlier).drop ip.str.length := by
    rw [ipv4addrBuf_concat, overwrite, take_zero, nil_append, Nat.zero_add]
  rw [hbuf, ccmaInetNtoa_str, staleDigits_eq h]

theorem dnLocLoop_bytes (locs : List SentDnLoc) (earlier : List (List (BitVec 8)))
    (h : ∀ s ∈ earlier, s.length ≤ ipv4addrNmLen) (rest : List (BitVec 8)) (itemSize : Nat) :
    dnLocLoop locs.length (ipv4addrBuf earlier) (locs.flatMap SentDnLoc.bytes ++ rest) itemSize =
      some (parsedDnLocs earlier locs, itemSize + (locs.flatMap SentDnLoc.bytes).length) := by
  induction locs generalizing earlier itemSize with
  | nil => rfl
  | cons l locs ih =>
    have hstr := l.ip.length_str_le
    have hrlo : l.rlo.length ≤ 33 := l.rlo_length_le
    have hstrlen := toNat_ofNat_16 (show l.ip.str.length < 2 ^ 16 by omega)
    have hrlolen := toNat_ofNat_16 (show l.rlo.length < 2 ^ 16 by omega)
    have hearlier : ∀ s ∈ earlier ++ [l.ip.str], s.length ≤ ipv4addrNmLen :=
      forall_mem_append.mpr ⟨h, forall_mem_singleton.mpr (by rw [ipv4addrNmLen]; omega)⟩
    have hsize : itemSize + (l.bytes ++ locs.flatMap SentDnLoc.bytes).length =
        itemSize + 2 + l.ip.str.length + 4 + 2 + 8 * l.rlo.length + (locs.flatMap SentDnLoc.bytes).length := by
      rw [length_append, l.length_bytes]
      omega
    rw [length_cons, flatMap_cons, hsize, dnLocLoop, SentDnLoc.bytes]
    simp only [append_assoc, readU16_append, readU32_append, hstrlen, hrlolen, readBytes_append, readU64s_append,
      Option.bind_eq_bind, Option.bind_some, guard, if_pos (show l.ip.str.length ≤ 16 by omega), ipv4addrNmLen,
      if_pos l.rlo_length_le, ← ipv4addrBuf_concat, ccmaInetNtoa_buf earlier h, ih _ hearlier]
    rfl

def SentMdItem.parsed (startLB : Nat) (item : SentMdItem) : NnMdItem :=
  ⟨startLB, item.hbids, parsedDnLocs [] item.dnLocs, item.stat, false⟩

theorem getMDRespMDItemNtoh_bytes (item : SentMdItem) (startLB : Nat) (rest : List (BitVec 8)) :
    getMDRespMDItemNtoh startLB (item.bytes ++ rest) = some (item.parsed startLB, item.bytes.length) := by
  have hhbids : item.hbids.length ≤ 33 := item.hbids_length_le
  have hdns : item.dnLocs.length ≤ 3 := item.dnLocs_length_le
  have hhbidslen := toNat_ofNat_16 (show item.hbids.length < 2 ^ 16 by omega)
  have hdnslen := toNat_ofNat_16 (show item.dnLocs.length < 2 ^ 16 by omega)
  have hlocs : nnAckDNLocNtohOrder item.dnLocs.length (item.dnLocs.flatMap SentDnLoc.bytes ++ (beU16 item.stat ++ rest)) =
      some (parsedDnLocs [] item.dnLocs, (item.dnLocs.flatMap SentDnLoc.bytes).length) := by
    rw [nnAckDNLocNtohOrder, if_pos item.dnLocs_length_le]
    refine (dnLocLoop_bytes item.dnLocs [] (by simp) _ 0).trans ?_
    rw [Nat.zero_add]
  have hsize : item.bytes.length =
      2 + 8 * item.hbids.length + 2 + (item.dnLocs.flatMap SentDnLoc.bytes).length + 2 := by
    simp only [SentMdItem.bytes, length_append, length_u16, length_flatMap_u64]
    omega
  rw [hsize, getMDRespMDItemNtoh, SentMdItem.bytes]
  simp only [append_assoc, readU16_append, hhbidslen, hdnslen, readU64s_append, Option.bind_eq_bind, Option.bind_some,
    guard, if_pos item.hbids_length_le, hlocs, drop_left]
  rfl

end DiscoClient
