import Mathlib.Algebra.BigOperators.Ring.List
import DiscoClient.Payload.WriteData
import DiscoClient.Lib.Blocks

namespace DiscoClient
open List

abbrev Byte : Type := BitVec 8

def bitLenSectSize : Nat := 9
def lenMemChunkModNum : Nat := 128 * 1024 - 1

theorem shiftLeft_bitLenSectSize (x : Nat) : x <<< bitLenSectSize = 512 * x := by
  rw [Nat.shiftLeft_eq, Nat.mul_comm]
  rfl

/-- A block request with its data: its first sector, and the bytes of each segment. -/
structure RqData where
  pos : Nat
  segs : List (List Byte)
  deriving DecidableEq, Repr

namespace RqData

def bytes (rq : RqData) : List Byte := rq.segs.flatten

/-- blk_rq_sectors -/
def sectors (rq : RqData) : Nat := rq.bytes.length >>> bitLenSectSize

structure WellFormed (rq : RqData) : Prop where
  nonempty : rq.segs ≠ []
  seg_pos : ∀ seg ∈ rq.segs, 0 < seg.length
  seg_sects : ∀ seg ∈ rq.segs, 512 ∣ seg.length

def Contiguous : Nat → List RqData → Prop
  | _, [] => True
  | pos, rq :: rqs => rq.pos = pos ∧ Contiguous (pos + rq.sectors) rqs

def shape (rq : RqData) : Nat × List Nat := (rq.pos, rq.segs.map List.length)

def allBytes (rqs : List RqData) : List Byte := rqs.flatMap bytes

theorem WellFormed.length_bytes {rq : RqData} (h : rq.WellFormed) : rq.bytes.length = 512 * rq.sectors ∧ 0 < rq.bytes.length := by
  have hdvd : 512 ∣ rq.bytes.length := by
    rw [bytes, List.length_flatten]
    refine dvd_sum fun n hn => ?_
    obtain ⟨seg, hseg, rfl⟩ := mem_map.mp hn
    exact h.seg_sects seg hseg
  refine ⟨?_, ?_⟩
  · rw [sectors, Nat.shiftRight_eq_div_pow]
    exact (Nat.mul_div_cancel' hdvd).symm
  · obtain ⟨seg, segs, hsegs⟩ := exists_cons_of_ne_nil h.nonempty
    have hseg := h.seg_pos seg (by rw [hsegs]; exact mem_cons_self)
    rw [bytes, hsegs, flatten_cons, length_append]
    omega

theorem length_bytes_congr {rq rq' : RqData} (h : rq'.shape = rq.shape) : rq'.bytes.length = rq.bytes.length := by
  rw [bytes, bytes, List.length_flatten, List.length_flatten, show rq'.segs.map List.length = _ from congrArg Prod.snd h]
  rfl

theorem WellFormed.congr {rq rq' : RqData} (h : rq.WellFormed) (hshape : rq'.shape = rq.shape) : rq'.WellFormed := by
  have hlens : rq'.segs.map List.length = rq.segs.map List.length := congrArg Prod.snd hshape
  have hmem : ∀ seg ∈ rq'.segs, ∃ seg' ∈ rq.segs, seg'.length = seg.length := fun seg hseg =>
    mem_map.mp (hlens ▸ mem_map_of_mem hseg)
  refine ⟨fun hnil => h.nonempty ?_, fun seg hseg => ?_, fun seg hseg => ?_⟩
  · rw [hnil, map_nil] at hlens
    exact map_eq_nil_iff.mp hlens.symm
  · obtain ⟨seg', hseg', hlen⟩ := hmem seg hseg
    rw [← hlen]
    exact h.seg_pos seg' hseg'
  · obtain ⟨seg', hseg', hlen⟩ := hmem seg hseg
    rw [← hlen]
    exact h.seg_sects seg' hseg'

theorem wellFormed_congr {rqs rqs' : List RqData} (h : ∀ rq ∈ rqs, rq.WellFormed) (hshape : rqs'.map shape = rqs.map shape) :
    ∀ rq ∈ rqs', rq.WellFormed := by
  intro rq' hrq'
  obtain ⟨rq, hrq, heq⟩ := mem_map.mp (hshape ▸ mem_map_of_mem hrq' : rq'.shape ∈ rqs.map shape)
  exact (h rq hrq).congr heq.symm

theorem length_allBytes_congr {rqs rqs' : List RqData} (hshape : rqs'.map shape = rqs.map shape) :
    (allBytes rqs').length = (allBytes rqs).length := by
  have hsum (rqs : List RqData) : (allBytes rqs).length = ((rqs.map shape).map fun sh => sh.2.sum).sum := by
    rw [allBytes, length_flatMap, map_map]
    refine congrArg List.sum (map_congr_left fun rq _ => ?_)
    rw [bytes, List.length_flatten]
    rfl
  rw [hsum, hsum, hshape]

theorem contiguous_congr {rqs rqs' : List RqData} {pos : Nat} (h : Contiguous pos rqs) (hshape : rqs'.map shape = rqs.map shape) :
    Contiguous pos rqs' := by
  induction rqs generalizing rqs' pos with
  | nil =>
    obtain rfl : rqs' = [] := map_eq_nil_iff.mp hshape
    trivial
  | cons rq rqs ih =>
    cases rqs' with
    | nil => cases hshape
    | cons rq' rqs' =>
      rw [map_cons, map_cons, List.cons.injEq] at hshape
      refine ⟨(congrArg Prod.fst hshape.1).trans h.1, ?_⟩
      rw [sectors, length_bytes_congr hshape.1]
      exact ih h.2 hshape.2

end RqData

/-- triple_cmp_type_t -/
inductive TripleCmp where
  | cmp1stMin
  | cmp2ndMin
  | cmp3rdMin
  deriving DecidableEq, Repr

def cmpTripleInt (num1 num2 num3 : Int) : TripleCmp :=
  if num1 ≥ num2 then (if num2 ≥ num3 then .cmp3rdMin else .cmp2ndMin)
  else (if num1 ≥ num3 then .cmp3rdMin else .cmp1stMin)

def TripleCmp.pick (num1 num2 num3 : Int) : TripleCmp → Int
  | .cmp1stMin => num1
  | .cmp2ndMin => num2
  | .cmp3rdMin => num3

theorem pick_cmpTripleInt (a b d : Int) : (cmpTripleInt a b d).pick a b d = min a (min b d) := by
  rw [cmpTripleInt]
  split_ifs
  all_goals
    simp only [TripleCmp.pick]
    omega

theorem cmpTripleInt_eq_2nd {a b d : Int} : cmpTripleInt a b d = .cmp2ndMin ↔ b ≤ a ∧ b < d := by
  rw [cmpTripleInt]
  split_ifs
  all_goals
    simp only [true_iff, false_iff]
    omega

theorem cmpTripleInt_eq_3rd {a b d : Int} : cmpTripleInt a b d = .cmp3rdMin ↔ d ≤ a ∧ d ≤ b := by
  rw [cmpTripleInt]
  split_ifs
  all_goals
    simp only [true_iff, false_iff]
    omega

structure ChunkPos where
  cnt : Nat
  off : Nat
  rLen : Int
  deriving DecidableEq, Repr

def getChunkPtr (chunkItemSize : List Nat) (cnt off len : Nat) : ChunkPos :=
  let cnt := cnt + len >>> bitLenMemChunk
  let off := off + (len &&& lenMemChunkModNum)
  if cnt ≥ chunkItemSize.length then ⟨chunkItemSize.length, 0, 0⟩
  else if off ≥ maxSizeKernelMemChunk then
    if cnt + 1 ≥ chunkItemSize.length then ⟨chunkItemSize.length, 0, 0⟩
    else ⟨cnt + 1, off &&& lenMemChunkModNum, (chunkItemSize[cnt + 1]?.getD 0 : Nat) - (off &&& lenMemChunkModNum : Nat)⟩
  else ⟨cnt, off, (chunkItemSize[cnt]?.getD 0 : Nat) - (off : Nat)⟩

def readAt (mem : List Byte) (off len : Int) : Option (List Byte) :=
  if 0 ≤ off ∧ 0 ≤ len ∧ off + len ≤ mem.length then some (slice mem off.toNat len.toNat) else none

def writeAt (bufs : List (List Byte)) (k off : Nat) (data : List Byte) : Option (List (List Byte)) :=
  if bufs[k]?.any fun buf => off + data.length ≤ buf.length then some (bufs.modify k fun buf => overwrite buf off data)
  else none

theorem readAt_of_le {mem : List Byte} {off len : Nat} (h : off + len ≤ mem.length) :
    readAt mem off len = some (slice mem off len) := by
  rw [readAt, if_pos (by omega), Int.toNat_natCast, Int.toNat_natCast]

theorem writeAt_of_le {bufs : List (List Byte)} {k off : Nat} {buf data : List Byte} (hbuf : bufs[k]? = some buf)
    (h : off + data.length ≤ buf.length) :
    writeAt bufs k off data = some (bufs.modify k fun buf => overwrite buf off data) := by
  rw [writeAt, hbuf, Option.any_some, if_pos (by simpa using h)]

def ChunkSizes (n : Nat) (sizes : List Nat) : Prop :=
  ∀ k, sizes[k]? = if k * 32 < n then some (min 32 (n - k * 32) * 4096) else none

def chunkAt (n a : Nat) : ChunkPos :=
  ⟨a / 131072, a % 131072, (min (131072 - a % 131072) (n * 4096 - a) : Nat)⟩

section
variable {n a : Nat} {sizes : List Nat} (hsizes : ChunkSizes n sizes)
include hsizes

theorem ChunkSizes.lt_length_iff {k : Nat} : k < sizes.length ↔ k * 32 < n := by
  have hk := hsizes k
  split_ifs at hk with hlt
  · exact iff_of_true (List.getElem?_eq_some_iff.mp hk).1 hlt
  · exact iff_of_false (not_lt.mpr (List.getElem?_eq_none_iff.mp hk)) hlt

private theorem rLen_eq {k off : Nat} (hoff : off < 131072) (hin : k * 131072 + off < n * 4096) :
    (⟨k, off, (sizes[k]?.getD 0 : Nat) - (off : Nat)⟩ : ChunkPos) = chunkAt n (k * 131072 + off) := by
  have hdiv : (k * 131072 + off) / 131072 = k := by omega
  have hmod : (k * 131072 + off) % 131072 = off := by omega
  rw [chunkAt, hdiv, hmod, hsizes k, if_pos (by omega), Option.getD_some]
  congr 1
  omega

/-- get_chunk_ptr moves a position that stays in the payload. -/
theorem getChunkPtr_chunkAt (len : Nat) (hin : a + len < n * 4096) :
    getChunkPtr sizes (chunkAt n a).cnt (chunkAt n a).off len = chunkAt n (a + len) := by
  have hand (x : Nat) : x &&& lenMemChunkModNum = x % 131072 := Nat.and_two_pow_sub_one_eq_mod x 17
  have hshift : len >>> bitLenMemChunk = len / 131072 := Nat.shiftRight_eq_div_pow len 17
  have hlen {k : Nat} (hk : k * 131072 < n * 4096) : ¬ k ≥ sizes.length :=
    not_le.mpr ((hsizes.lt_length_iff).mpr (by omega))
  change getChunkPtr sizes (a / 131072) (a % 131072) len = _
  rw [getChunkPtr, hand, hand, hshift, show maxSizeKernelMemChunk = 131072 from rfl, if_neg (hlen (by omega))]
  split_ifs with hoff hcnt
  · exact absurd hcnt (hlen (by omega))
  · rw [rLen_eq hsizes (by omega) (by omega)]
    congr 1
    omega
  · rw [rLen_eq hsizes (by omega) (by omega)]
    congr 1
    omega

end

structure PayloadMem (n : Nat) (sizes : List Nat) (chunks : List (List Byte)) : Prop where
  blocked : Blocked 131072 chunks
  chunkSizes : ChunkSizes n sizes
  length_eq : chunks.length = sizes.length

namespace PayloadMem
variable {n a : Nat} {sizes : List Nat} {chunks chunks' : List (List Byte)}

variable (h : PayloadMem n sizes chunks)
include h

theorem le_length : n * 4096 ≤ chunks.flatten.length := by
  have hge : ¬ sizes.length * 32 < n := fun hlt => absurd (h.chunkSizes.lt_length_iff.mpr hlt) (lt_irrefl _)
  rw [h.blocked.length_flatten, h.length_eq]
  omega

theorem chunkAt_inside (ha : a < n * 4096) :
    (chunkAt n a).cnt < sizes.length ∧ (chunkAt n a).off < sizes[(chunkAt n a).cnt]?.getD 0 := by
  have hcnt : (chunkAt n a).cnt * 32 < n := show a / 131072 * 32 < n by omega
  refine ⟨h.chunkSizes.lt_length_iff.mpr hcnt, ?_⟩
  rw [h.chunkSizes, if_pos hcnt, Option.getD_some]
  simp only [chunkAt]
  omega

theorem congr (hlen : chunks'.map List.length = chunks.map List.length) :
    PayloadMem n sizes chunks' := by
  have hcount := congrArg List.length hlen
  rw [length_map, length_map] at hcount
  exact ⟨h.blocked.congr hlen, h.chunkSizes, hcount.trans h.length_eq⟩

theorem writeAt_chunkAt (data : List Byte) (ha : a < n * 4096)
    (hdata : data.length ≤ (chunkAt n a).rLen) :
    ∃ chunks', writeAt chunks (chunkAt n a).cnt (chunkAt n a).off data = some chunks' ∧
      chunks'.flatten = overwrite chunks.flatten a data ∧ chunks'.map List.length = chunks.map List.length := by
  have hlen := h.le_length
  obtain ⟨b, hb, hblen⟩ := h.blocked.exists_block (a := a) (by omega)
  have hfit : a % 131072 + data.length ≤ b.length := by
    simp only [chunkAt] at hdata
    omega
  exact ⟨_, writeAt_of_le hb hfit, h.blocked.flatten_modify_block (by omega) hb hfit, Overwrite.map_length_modify hb hfit⟩

theorem readAt_chunkAt (ha : a < n * 4096) {m : Nat} (hm : m ≤ (chunkAt n a).rLen) :
    readAt (chunks[(chunkAt n a).cnt]?.getD []) (chunkAt n a).off m = some (slice chunks.flatten a m) := by
  have hlen := h.le_length
  obtain ⟨b, hb, hblen⟩ := h.blocked.exists_block (a := a) (by omega)
  have hfit : a % 131072 + m ≤ b.length := by
    simp only [chunkAt] at hm
    omega
  change readAt (chunks[a / 131072]?.getD []) (a % 131072 : Nat) m = _
  rw [hb, Option.getD_some, readAt_of_le hfit, h.blocked.slice_block (by omega) hb hfit]

end PayloadMem

theorem IoPayload.payloadMem (d : IoPayload Byte) : PayloadMem d.lbidLen d.chunkItemSize d.chunks :=
  ⟨⟨by decide, d.chunk_size⟩, d.chunkItemSize_spec.2, d.length_chunks⟩

end DiscoClient
