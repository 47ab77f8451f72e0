import DiscoClient.IoManager.CopyChunks
import DiscoClient.IoManager.LbMask
import DiscoClient.Lib.MemoSlots
import DiscoClient.Payload.WritePlacement

/-! The fingerprints of the data of a write, and the cache that the requests of one IO request share:
fingerprint.c. -/
namespace DiscoClient
open List

/-- fp_method_t. -/
inductive FpMethod where
  | disable
  | sha1
  | md5
  deriving DecidableEq, Repr

def fpLength : Nat := 20

def bitLenByte : Nat := 3

def byteModNum : Nat := 8 - 1

def maxSizeFpmap : Nat := (maxLbsPerIor + byteModNum) >>> bitLenByte

structure FpHash where
  sum : List Byte → List Byte
  length_sum : ∀ data, (sum data).length = fpLength

/-- sha1 and md5_sum. -/
structure FpHashes where
  sha1 : FpHash
  md5 : FpHash

def FpHashes.of (hs : FpHashes) : FpMethod → Option FpHash
  | .disable => none
  | .sha1 => some hs.sha1
  | .md5 => some hs.md5

/-- fp_map and fp_cache of an IO request. -/
structure FpMem where
  fpMap : List (BitVec 8)
  fpCache : List Byte
  deriving DecidableEq, Repr

/-- The loops of _cal_fingerprint: the LB they are at, and what has been stored from fp_dst_ptr on. -/
structure FpLoop where
  mem : FpMem
  lbOff : Nat
  fpDst : List Byte
  deriving DecidableEq, Repr

/-- The inner body of _cal_fingerprint with 32-bit offsets. None outside the arrays. -/
def FpLoop.turn (h : FpHash) (s : FpLoop) (data : List Byte) : Option FpLoop :=
  let fpMIndex := s.lbOff >>> bitLenByte
  let fpMOffset := s.lbOff &&& byteModNum
  let fpSrc := s.lbOff * fpLength % 2 ^ 32
  (s.mem.fpMap[fpMIndex]?).bind fun fpValue =>
    if fpSrc + fpLength ≤ s.mem.fpCache.length then
      let fpMap := s.mem.fpMap.set fpMIndex (Bitmap.putBit fpValue fpMOffset true)
      let lbOff := (s.lbOff + 1) % 2 ^ 32
      some (if fpValue.getLsbD fpMOffset then
        ⟨⟨fpMap, s.mem.fpCache⟩, lbOff, s.fpDst ++ slice s.mem.fpCache fpSrc fpLength⟩
        else ⟨⟨fpMap, overwrite s.mem.fpCache fpSrc (h.sum data)⟩, lbOff, s.fpDst ++ h.sum data⟩)
    else none

/-- What get_fingerprint leaves in the map and the cache, what it stores, and the size it returns. -/
structure FpOut where
  mem : FpMem
  fpDst : List Byte
  fpTotalLen : Nat
  deriving DecidableEq, Repr

/-- A data node request of a write: its item, its replica, and the first of its LBs in the payload. -/
structure FpReq where
  item : WriteItem
  dnLocIdx : Nat
  lbFirst : Nat
  deriving DecidableEq, Repr

namespace IoPayload
variable (d : IoPayload Byte)

/-- The inner loop of _cal_fingerprint, from byte j of a vector on with left turns to come. -/
def fpLbLoop (h : FpHash) (v : IoVec) : Nat → Nat → FpLoop → Option FpLoop
  | 0, _, s => some s
  | left + 1, j, s =>
    (s.turn h (d.vecBytes ⟨v.chunk, v.off + j, dmsLbSize⟩)).bind (fpLbLoop h v left (j + dmsLbSize))

/-- The outer loop of _cal_fingerprint. -/
def fpSegLoop (h : FpHash) : List IoVec → FpLoop → Option FpLoop
  | [], s => some s
  | v :: vs, s => (d.fpLbLoop h v ((v.len + dmsLbSize - 1) / dmsLbSize) 0 s).bind (fpSegLoop h vs)

def calFingerprint (h : FpHash) (mem : FpMem) (dnreq : DnWriteReq) : Option FpLoop :=
  d.fpSegLoop h dnreq.uDataSeg ⟨mem, (dnreq.dnPayloadOffset >>> bitLenDmsLbSize) % 2 ^ 32, []⟩

def getFingerprint (hs : FpHashes) (fpMethod : FpMethod) (mem : FpMem) (dnreq : DnWriteReq) : Option FpOut :=
  let fpTotalLen := fpLength * dnreq.numHbids
  match hs.of fpMethod with
  | none => some ⟨mem, List.replicate fpTotalLen 0#8, fpTotalLen⟩
  | some h => (d.calFingerprint h mem dnreq).map fun s => ⟨s.mem, s.fpDst, fpTotalLen⟩

def fpRun (hs : FpHashes) (fpMethod : FpMethod) : FpMem → List FpReq → Option (List FpOut)
  | _, [] => some []
  | mem, q :: qs =>
    (d.initDnUdReqWrite q.item q.dnLocIdx (q.lbFirst * dmsLbSize)).bind fun dnreq =>
      (d.getFingerprint hs fpMethod mem dnreq).bind fun out => (fpRun hs fpMethod out.mem qs).map (out :: ·)

def lbFp (h : FpHash) (lb : Nat) : List Byte := h.sum (slice d.bytes (lb * dmsLbSize) dmsLbSize)

def FpCached (h : FpHash) (mem : FpMem) : Prop := MemoSlots fpLength d.lbidLen (d.lbFp h) mem.fpMap mem.fpCache

variable {d} {h : FpHash}

theorem FpCached.turn {s : FpLoop} (hc : d.FpCached h s.mem) (hlb : s.lbOff < d.lbidLen) {data : List Byte}
    (hdata : data = slice d.bytes (s.lbOff * dmsLbSize) dmsLbSize) :
    ∃ mem, s.turn h data = some ⟨mem, s.lbOff + 1, s.fpDst ++ d.lbFp h s.lbOff⟩ ∧ d.FpCached h mem := by
  have hmax := d.lbidLen_le
  have hidx : s.lbOff >>> bitLenByte = s.lbOff / 8 := Nat.shiftRight_eq_div_pow _ 3
  have hoff : s.lbOff &&& byteModNum = s.lbOff % 8 := Nat.and_two_pow_sub_one_eq_mod _ 3
  have hsrc : s.lbOff * fpLength % 2 ^ 32 = s.lbOff * fpLength := by
    rw [fpLength]
    omega
  have hnext : (s.lbOff + 1) % 2 ^ 32 = s.lbOff + 1 := by omega
  have hsum : h.sum data = d.lbFp h s.lbOff := by rw [hdata, lbFp]
  obtain ⟨byte, hbyte⟩ := hc.exists_byte hlb
  have hbit : Bitmap.bit s.mem.fpMap s.lbOff = byte.getLsbD (s.lbOff % 8) := by
    rw [Bitmap.bit, hbyte, Option.getD_some]
  simp only [FpLoop.turn, hidx, hoff, hsrc, hnext, hsum, hbyte, Option.bind_some, if_pos (hc.room hlb)]
  by_cases hset : byte.getLsbD (s.lbOff % 8) = true
  · rw [if_pos hset, hc.filled _ hlb (hbit.trans hset)]
    exact ⟨_, rfl, hc.again hbyte (hbit.trans hset)⟩
  · rw [if_neg hset]
    exact ⟨_, rfl, hc.fill hlb (h.length_sum _) hbyte⟩

def lbFps (d : IoPayload Byte) (h : FpHash) (lb n : Nat) : List Byte :=
  (List.range' lb n).flatMap (d.lbFp h)

theorem FpCached.lbLoop {mem : FpMem} (hc : d.FpCached h mem) (v : IoVec) (left j lb : Nat) (fpDst : List Byte)
    (hle : lb + left ≤ d.lbidLen)
    (hdata : ∀ k < left, d.vecBytes ⟨v.chunk, v.off + (j + k * dmsLbSize), dmsLbSize⟩ =
      slice d.bytes ((lb + k) * dmsLbSize) dmsLbSize) :
    ∃ mem', d.fpLbLoop h v left j ⟨mem, lb, fpDst⟩ = some ⟨mem', lb + left, fpDst ++ d.lbFps h lb left⟩ ∧
      d.FpCached h mem' := by
  induction left generalizing j lb mem fpDst with
  | zero => exact ⟨mem, by simp [fpLbLoop, lbFps], hc⟩
  | succ left ih =>
    have hfirst := hdata 0 (Nat.succ_pos left)
    rw [Nat.zero_mul, Nat.add_zero, Nat.add_zero] at hfirst
    obtain ⟨mem₁, hturn, hc₁⟩ := FpCached.turn (s := ⟨mem, lb, fpDst⟩) hc (show lb < d.lbidLen by omega) hfirst
    obtain ⟨mem₂, hloop, hc₂⟩ := ih hc₁ (j + dmsLbSize) (lb + 1) (fpDst ++ d.lbFp h lb) (by omega)
      fun k hk => by
        have hnext := hdata (k + 1) (Nat.succ_lt_succ hk)
        rwa [Nat.succ_mul, Nat.add_comm (k * dmsLbSize), ← Nat.add_assoc j, Nat.add_comm k 1, ← Nat.add_assoc lb] at hnext
    refine ⟨mem₂, ?_, hc₂⟩
    rw [fpLbLoop, hturn, Option.bind_some, hloop, lbFps, lbFps, range'_succ, flatMap_cons, append_assoc,
      Nat.add_right_comm, Nat.add_assoc lb]

theorem lbFps_add (d : IoPayload Byte) (h : FpHash) (lb m n : Nat) :
    d.lbFps h lb (m + n) = d.lbFps h lb m ++ d.lbFps h (lb + m) n := by
  rw [lbFps, lbFps, lbFps, ← flatMap_append, ← range'_append, Nat.one_mul]

theorem FpCached.segLoop {mem : FpMem} (hc : d.FpCached h mem) {vs : List IoVec} {lb n : Nat} (fpDst : List Byte)
    (hle : lb + n ≤ d.lbidLen) (hlays : d.Lays (lb * 4096) vs (n * 4096)) :
    ∃ mem', d.fpSegLoop h vs ⟨mem, lb, fpDst⟩ = some ⟨mem', lb + n, fpDst ++ d.lbFps h lb n⟩ ∧ d.FpCached h mem' := by
  induction vs generalizing lb n mem fpDst with
  | nil =>
    obtain rfl : n = 0 := by
      have hzero : n * 4096 = 0 := hlays
      omega
    exact ⟨mem, by simp [fpSegLoop, lbFps], hc⟩
  | cons v vs ih =>
    obtain ⟨hbytes, hlen, haligned, hrest⟩ := hlays
    obtain ⟨m, hm⟩ := haligned (Nat.dvd_mul_left _ _) (Nat.dvd_mul_left _ _)
    have hturns : (v.len + dmsLbSize - 1) / dmsLbSize = m := by
      rw [dmsLbSize]
      omega
    obtain ⟨mem₁, hloop, hc₁⟩ := hc.lbLoop v m 0 lb fpDst (by omega) fun k hk => by
      have hin : k * 4096 + 4096 ≤ v.len := by omega
      have hpart := congrArg (fun l => slice l (k * 4096) 4096) hbytes
      simp only [vecBytes] at hpart
      rw [Slice.slice_slice _ _ hin, Slice.slice_slice _ _ hin, ← Nat.add_mul] at hpart
      rw [Nat.zero_add]
      exact hpart
    rw [show lb * 4096 + v.len = (lb + m) * 4096 by omega, show n * 4096 - v.len = (n - m) * 4096 by omega] at hrest
    obtain ⟨mem₂, hsegs, hc₂⟩ := ih hc₁ (fpDst ++ d.lbFps h lb m) (by omega) hrest
    refine ⟨mem₂, ?_, hc₂⟩
    rw [fpSegLoop, hturns, hloop, Option.bind_some, hsegs, append_assoc, ← lbFps_add, Nat.add_assoc,
      Nat.add_sub_cancel' (by omega)]

theorem length_lbFps (d : IoPayload Byte) (h : FpHash) (lb n : Nat) : (d.lbFps h lb n).length = n * fpLength := by
  induction n generalizing lb with
  | zero => simp [lbFps]
  | succ n ih => rw [Nat.add_comm n, lbFps_add, length_append, ih, Nat.add_mul, Nat.one_mul, lbFps, range'_one,
      flatMap_singleton, lbFp, h.length_sum]

theorem slice_lbFps {lb n i : Nat} (hi : i < n) : slice (d.lbFps h lb n) (i * fpLength) fpLength = d.lbFp h (lb + i) := by
  obtain ⟨k, rfl⟩ := Nat.exists_eq_add_of_lt hi
  have hlen := d.length_lbFps h lb i
  rw [Nat.add_assoc i, lbFps_add, ← hlen, ← Nat.add_zero (d.lbFps h lb i).length, Slice.slice_append_right, Nat.add_comm k,
    lbFps_add, Slice.slice_append_left _ (by rw [length_lbFps]; omega)]
  rw [lbFps, range'_one, flatMap_singleton, lbFp, slice, drop_zero,
    take_of_length_le (Nat.le_of_eq (h.length_sum _))]

structure Fingerprinted (d : IoPayload Byte) (h : FpHash) (q : FpReq) (out : FpOut) : Prop where
  size : out.fpTotalLen = out.fpDst.length
  fpDst : out.fpDst = d.lbFps h q.lbFirst q.item.numHbids

theorem FpCached.getFingerprint {hs : FpHashes} {fpMethod : FpMethod} (hh : hs.of fpMethod = some h) {mem : FpMem}
    (hc : d.FpCached h mem) {q : FpReq} (hq : q.lbFirst + q.item.numHbids ≤ d.lbidLen) :
    ∃ dnreq out, d.initDnUdReqWrite q.item q.dnLocIdx (q.lbFirst * dmsLbSize) = some dnreq ∧
      d.getFingerprint hs fpMethod mem dnreq = some out ∧ d.Fingerprinted h q out ∧ d.FpCached h out.mem := by
  have hmax := d.lbidLen_le
  obtain ⟨vs, hinit, hlays⟩ := d.initDnUdReqWrite_lays q.item q.dnLocIdx (q.lbFirst * 4096) (by omega)
  obtain ⟨mem', hloop, hc'⟩ := hc.segLoop [] hq hlays
  have hoff : ((q.lbFirst * 4096) >>> bitLenDmsLbSize) % 2 ^ 32 = q.lbFirst := by
    rw [Nat.shiftRight_eq_div_pow, show 2 ^ bitLenDmsLbSize = 4096 from rfl]
    omega
  refine ⟨_, ⟨mem', d.lbFps h q.lbFirst q.item.numHbids, fpLength * q.item.numHbids⟩, hinit, ?_, ⟨?_, rfl⟩, hc'⟩
  · simp only [IoPayload.getFingerprint, hh, calFingerprint, hoff, hloop, Option.map_some, nil_append]
  · rw [length_lbFps, Nat.mul_comm]

theorem FpCached.run {hs : FpHashes} {fpMethod : FpMethod} (hh : hs.of fpMethod = some h) {mem : FpMem} {qs : List FpReq}
    (hc : d.FpCached h mem) (hqs : ∀ q ∈ qs, q.lbFirst + q.item.numHbids ≤ d.lbidLen) :
    ∃ outs, d.fpRun hs fpMethod mem qs = some outs ∧ List.Forall₂ (d.Fingerprinted h) qs outs := by
  induction qs generalizing mem with
  | nil => exact ⟨[], rfl, .nil⟩
  | cons q qs ih =>
    obtain ⟨hq, hrest⟩ := forall_mem_cons.mp hqs
    obtain ⟨dnreq, out, hinit, hout, hfp, hc'⟩ := hc.getFingerprint hh hq
    obtain ⟨outs, hrun, hall⟩ := ih hc' hrest
    exact ⟨out :: outs, by rw [fpRun, hinit, Option.bind_some, hout, Option.bind_some, hrun, Option.map_some], .cons hfp hall⟩

/-- fp_map as ioReq_init_request leaves it, and fp_cache with whatever it held before. -/
def fpMemInit (cache : List Byte) : FpMem := ⟨List.replicate maxSizeFpmap 0#8, cache⟩

theorem fpCached_init (hlen : d.lbidLen ≤ maxLbsPerIor) {cache : List Byte} (hcache : cache.length = maxLbsPerIor * fpLength) :
    d.FpCached h (fpMemInit cache) := by
  have hlast : maxLbsPerIor ≤ 8 * maxSizeFpmap := by decide
  refine MemoSlots.empty ?_ (hcache ▸ Nat.mul_le_mul_right _ hlen) fun i hi => ?_
  · rw [fpMemInit, length_replicate]
    exact hlen.trans hlast
  · rw [Bitmap.bit, fpMemInit, List.getElem?_replicate_of_lt (by omega), Option.getD_some, BitVec.getLsbD_zero]

/-- In whatever order and how often the data node requests of a write get their fingerprints: slot i is the hash of
the data of their LB i. -/
theorem fingerprints_match_data (hs : FpHashes) (fpMethod : FpMethod) (h : FpHash) (hh : hs.of fpMethod = some h)
    (d : IoPayload Byte) (kernSect nrKsects : Nat) (hpos : 0 < nrKsects) (hmax : nrKsects ≤ maxSectsPerRq)
    (hd : d.lbidLen = ioReqLbidLen kernSect nrKsects) (cache : List Byte)
    (hcache : cache.length = maxLbsPerIor * fpLength) (qs : List FpReq)
    (hqs : ∀ q ∈ qs, q.lbFirst + q.item.numHbids ≤ d.lbidLen) :
    ∃ outs, d.fpRun hs fpMethod (fpMemInit cache) qs = some outs ∧
      List.Forall₂ (fun q out => out.fpTotalLen = q.item.numHbids * fpLength ∧
        out.fpDst.length = q.item.numHbids * fpLength ∧
        ∀ i < q.item.numHbids, slice out.fpDst (i * fpLength) fpLength =
          h.sum (slice d.bytes ((q.lbFirst + i) * dmsLbSize) dmsLbSize)) qs outs := by
  have hlen : d.lbidLen ≤ maxLbsPerIor := hd ▸ ioReqLbidLen_le hpos hmax
  obtain ⟨outs, hrun, hall⟩ := (fpCached_init hlen hcache).run hh hqs
  refine ⟨outs, hrun, hall.imp fun q out hfp => ?_⟩
  have hsize : out.fpDst.length = q.item.numHbids * fpLength := by rw [hfp.fpDst, length_lbFps]
  refine ⟨hfp.size.trans hsize, hsize, fun i hi => ?_⟩
  rw [hfp.fpDst, slice_lbFps hi, lbFp]

theorem length_chunk_seven (buf : List Byte) (h : buf ∈ [List.replicate maxSizeKernelMemChunk 7#8]) :
    buf.length = maxSizeKernelMemChunk := by
  rw [mem_singleton.mp h, length_replicate]

theorem length_two_lbs : [List.replicate maxSizeKernelMemChunk 7#8].length = [8192].length := rfl

def twoLbPayload : IoPayload Byte where
  lbidLen := 2
  chunks := [List.replicate maxSizeKernelMemChunk 7#8]
  chunkItemSize := [8192]
  lbidLen_lt := Nat.le_of_ble_eq_true rfl
  allocated := ⟨fun _ => true, rfl⟩
  length_chunks := length_two_lbs
  chunk_size := length_chunk_seven

def firstByteHash : FpHash where
  sum data := List.replicate fpLength (data.headD 0#8)
  length_sum _ := List.length_replicate

/-- The second LB, then both, for two replicas. -/
theorem fingerprints_match_data_two :
    let qs : List FpReq := [⟨⟨101, 1, 2⟩, 0, 1⟩, ⟨⟨100, 2, 2⟩, 0, 0⟩, ⟨⟨100, 2, 2⟩, 1, 0⟩]
    (∀ q ∈ qs, q.lbFirst + q.item.numHbids ≤ twoLbPayload.lbidLen) ∧
    ∃ outs, twoLbPayload.fpRun ⟨firstByteHash, firstByteHash⟩ .md5 (fpMemInit (List.replicate 660 9#8)) qs = some outs ∧
      List.Forall₂ (fun q out => out.fpTotalLen = q.item.numHbids * fpLength ∧
        out.fpDst.length = q.item.numHbids * fpLength ∧
        ∀ i < q.item.numHbids, slice out.fpDst (i * fpLength) fpLength =
          firstByteHash.sum (slice twoLbPayload.bytes ((q.lbFirst + i) * dmsLbSize) dmsLbSize)) qs outs := by
  have hqs : ∀ q ∈ ([⟨⟨101, 1, 2⟩, 0, 1⟩, ⟨⟨100, 2, 2⟩, 0, 0⟩, ⟨⟨100, 2, 2⟩, 1, 0⟩] : List FpReq),
      q.lbFirst + q.item.numHbids ≤ 2 := by decide
  exact ⟨hqs, fingerprints_match_data ⟨firstByteHash, firstByteHash⟩ .md5 firstByteHash rfl twoLbPayload 800 16
    (by decide) (by decide) rfl (List.replicate 660 9#8) length_replicate _ hqs⟩

end IoPayload
end DiscoClient
