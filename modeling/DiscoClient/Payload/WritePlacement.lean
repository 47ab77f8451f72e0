import DiscoClient.Lib.Consecutive
import DiscoClient.Payload.WriteData

namespace DiscoClient
open List

/-- The locations of an item that get a data node request: those in front of the first one whose bucket is past it,
as far as there is memory. -/
def SubmitEnv.locations (sys : SubmitEnv) (numDnLoc : Nat) : List Nat :=
  if sys.plReqMem then ((List.range numDnLoc).takeWhile fun i => sys.bkIdx i ≤ i).filter sys.dnReqMem else []

namespace IoPayload
variable {β : Type} (d : IoPayload β)

private theorem block_get {k : Nat} (hk : k * 32 < d.lbidLen) :
    ∃ chunk, d.chunks[k]? = some chunk ∧ chunk.length = 131072 ∧
      d.blocks[k]? = some (chunk.take (min 32 (d.lbidLen - k * 32) * 4096)) := by
  have hsize : d.chunkItemSize[k]? = some (min 32 (d.lbidLen - k * 32) * 4096) := by
    rw [d.chunkItemSize_spec.2, if_pos hk]
  have hlt : k < d.chunks.length := by
    rw [d.length_chunks]
    exact (List.getElem?_eq_some_iff.mp hsize).1
  have hget : d.chunks[k]? = some d.chunks[k] := List.getElem?_eq_getElem hlt
  refine ⟨_, hget, d.chunk_size _ (getElem_mem hlt), ?_⟩
  rw [blocks, List.getElem?_zipWith, hget, hsize]

private theorem length_take_blocks {k : Nat} (hk : k * 32 < d.lbidLen) :
    ((d.blocks.take k).map List.length).sum = k * 131072 := by
  induction k with
  | zero => rfl
  | succ k ih =>
    obtain ⟨chunk, -, hlen, hblock⟩ := d.block_get (k := k) (by omega)
    rw [take_add_one, hblock, map_append, sum_append, ih (by omega)]
    simp only [Option.toList_some, map_cons, map_nil, sum_singleton, length_take, hlen]
    omega

theorem vecBytes_eq {k o n : Nat} (hk : k * 32 < d.lbidLen)
    (hle : o + n ≤ min 32 (d.lbidLen - k * 32) * 4096) :
    d.vecBytes ⟨k, o, n⟩ = slice d.bytes (k * 131072 + o) n := by
  obtain ⟨chunk, hget, hlen, hblock⟩ := d.block_get hk
  have hfit : o + n ≤ (chunk.take (min 32 (d.lbidLen - k * 32) * 4096)).length := by
    rw [length_take, hlen]
    omega
  rw [vecBytes, hget, bytes, ← d.length_take_blocks hk, Slice.slice_flatten hblock hfit, Slice.slice_take hle]
  rfl

theorem lbidLen_le : d.lbidLen ≤ 64 := by
  obtain ⟨hlen, hget⟩ := d.chunkItemSize_spec
  by_contra hlt
  have hnone : d.chunkItemSize[2]? = none := List.getElem?_eq_none hlen
  rw [hget 2, if_pos (by omega)] at hnone
  cases hnone

private theorem getDataBufferLoc_spec {off n size : Nat} (hle : off + n ≤ d.lbidLen * 4096)
    (hsize : d.chunkItemSize[off / 131072]? = some size) (hlo : off % 131072 < size) (hhi : size ≤ 131072) :
    d.getDataBufferLoc off n = some ⟨off / 131072, off % 131072, min n (size - off % 131072)⟩ := by
  have hlt := d.lbidLen_le
  have hidx : (off >>> bitLenMemChunk) % 2 ^ 32 = off / 131072 := by
    rw [Nat.shiftRight_eq_div_pow, show 2 ^ bitLenMemChunk = 131072 from rfl]
    omega
  have hstart : ((off / 131072) <<< bitLenMemChunk) % 2 ^ 32 = off / 131072 * 131072 := by
    rw [Nat.shiftLeft_eq, show 2 ^ bitLenMemChunk = 131072 from rfl]
    omega
  simp only [getDataBufferLoc, hidx, hstart, hsize, Option.map_some, Option.some_inj, IoVec.mk.injEq]
  refine ⟨trivial, by omega, ?_⟩
  by_cases hge : off + n ≤ off / 131072 * 131072 + size
  · rw [if_pos (by omega), Nat.min_eq_left (by omega)]
  · rw [if_neg (by omega), Nat.min_eq_right (by omega), toU32]
    omega

/-- One round of the loop of init_DNUDReq_Write: a vector of payload bytes, which ends the
request or its chunk. -/
private theorem uDataSeg_vector {off n : Nat} (hn : 0 < n) (hle : off + n ≤ d.lbidLen * 4096) :
    ∃ v, d.getDataBufferLoc off n = some v ∧ d.vecBytes v = slice d.bytes off v.len ∧ v.len ≤ n ∧
      (4096 ∣ off → 4096 ∣ n → 4096 ∣ v.len) ∧ (v.len = n ∨ (off + v.len) / 131072 = off / 131072 + 1) := by
  have hk : off / 131072 * 32 < d.lbidLen := by omega
  have hsize : d.chunkItemSize[off / 131072]? = some (min 32 (d.lbidLen - off / 131072 * 32) * 4096) := by
    rw [d.chunkItemSize_spec.2, if_pos hk]
  have hoff : off / 131072 * 131072 + off % 131072 = off := by omega
  refine ⟨_, d.getDataBufferLoc_spec hle hsize (by omega) (by omega), ?_, Nat.min_le_left _ _, fun _ _ => ?_,
    by dsimp only; omega⟩
  · rw [d.vecBytes_eq hk (by omega), hoff]
  · dsimp only
    omega

def Lays : Nat → List IoVec → Nat → Prop
  | _, [], n => n = 0
  | off, v :: vs, n => d.vecBytes v = slice d.bytes off v.len ∧ v.len ≤ n ∧
      (4096 ∣ off → 4096 ∣ n → 4096 ∣ v.len) ∧ Lays (off + v.len) vs (n - v.len)

theorem Lays.bytes {vs : List IoVec} {off n : Nat} (h : d.Lays off vs n) :
    vs.flatMap d.vecBytes = slice d.bytes off n := by
  induction vs generalizing off n with
  | nil =>
    rw [show n = 0 from h, Slice.slice_zero]
    rfl
  | cons v vs ih =>
    obtain ⟨hbytes, hlen, -, hrest⟩ := h
    rw [flatMap_cons, hbytes, ih hrest, ← Slice.slice_add, Nat.add_sub_cancel' hlen]

/-- The loop of init_DNUDReq_Write: the vectors hold the dnlen bytes from dataOff on. Each but the last ends
its chunk, so as many entries suffice as there are chunks left. -/
theorem uDataSegLoop_lays (room : Nat) {dataOff dnlen : Nat} (hle : dataOff + dnlen ≤ d.lbidLen * 4096)
    (hroom : 2 ≤ room + dataOff / 131072) :
    ∃ vs, d.uDataSegLoop room dataOff dnlen = some vs ∧ d.Lays dataOff vs dnlen := by
  have hlt := d.lbidLen_le
  induction room generalizing dataOff dnlen with
  | zero =>
    obtain rfl : dnlen = 0 := by omega
    exact ⟨[], rfl, rfl⟩
  | succ room ih =>
    cases dnlen with
    | zero => exact ⟨[], by simp [uDataSegLoop], rfl⟩
    | succ n =>
      obtain ⟨v, hv, hbytes, hlen, haligned, hend⟩ := d.uDataSeg_vector (Nat.succ_pos n) hle
      obtain ⟨vs, hvs, hrest⟩ : ∃ vs, d.uDataSegLoop room (dataOff + v.len) (n + 1 - v.len) = some vs ∧
          d.Lays (dataOff + v.len) vs (n + 1 - v.len) := by
        obtain hall | hnext := hend
        · rw [hall, Nat.sub_self]
          exact ⟨[], by cases room <;> rfl, rfl⟩
        · exact ih (by omega) (by omega)
      have hlen32 : (n + 1) % 2 ^ 32 = n + 1 := by omega
      have hoff : (dataOff + v.len) % 2 ^ 64 = dataOff + v.len := by omega
      have hleft : (n + 1 + 2 ^ 64 - v.len) % 2 ^ 64 = n + 1 - v.len := by omega
      refine ⟨v :: vs, ?_, hbytes, hlen, haligned, hrest⟩
      rw [uDataSegLoop, hlen32, hv, Option.bind_some, hoff, hleft, hvs]
      rfl

def lbBytes (off lbS lbid : Nat) : List β := slice d.bytes (off + (lbid - lbS) * 4096) 4096

structure Carries (item : WriteItem) (off : Nat) (r : DnWriteReq) : Prop where
  dnPayloadOffset : r.dnPayloadOffset = off
  bytes : r.uDataSeg.flatMap d.vecBytes = slice d.bytes off (item.numHbids * 4096)

/-- init_DNUDReq_Write for LBs that the payload has. -/
theorem initDnUdReqWrite_lays (item : WriteItem) (i off : Nat)
    (hle : off + item.numHbids * 4096 ≤ d.lbidLen * 4096) :
    ∃ vs, d.initDnUdReqWrite item i off = some ⟨i, item.numHbids, off, vs⟩ ∧
      d.Lays off vs (item.numHbids * 4096) := by
  have hlt := d.lbidLen_le
  have hnum : item.numHbids % 2 ^ 16 = item.numHbids := by omega
  obtain ⟨vs, hvs, hlays⟩ := d.uDataSegLoop_lays maxLbsPerIor hle ((Nat.le_of_ble_eq_true rfl).trans (Nat.le_add_right _ _))
  refine ⟨vs, ?_, hlays⟩
  rw [initDnUdReqWrite, hnum, Nat.shiftLeft_eq, show 2 ^ bitLenDmsLbSize = 4096 from rfl, hvs, Option.map_some]

/-- The requests of an item go to these locations, and each carries its bytes. -/
structure Sends (item : WriteItem) (off : Nat) (locs : List Nat) (rs : List DnWriteReq) : Prop where
  locations : rs.map DnWriteReq.dnLocIdx = locs
  carries : ∀ r ∈ rs, d.Carries item off r

theorem Sends.nil (item : WriteItem) (off : Nat) : d.Sends item off [] [] :=
  ⟨rfl, fun _ hr => absurd hr not_mem_nil⟩

private theorem genSubmitDnWriteReq_sends {item : WriteItem} {off : Nat} (sys : SubmitEnv) (left i : Nat)
    (hle : off + item.numHbids * 4096 ≤ d.lbidLen * 4096) :
    ∃ rs, d.genSubmitDnWriteReq item off sys left i = some rs ∧
      d.Sends item off (((List.range' i left).takeWhile fun i => sys.bkIdx i ≤ i).filter sys.dnReqMem) rs := by
  induction left generalizing i with
  | zero => exact ⟨[], rfl, .nil d item off⟩
  | succ left ih =>
    obtain ⟨rs, hrs, hrest⟩ := ih (i + 1)
    rw [genSubmitDnWriteReq, range'_succ]
    split_ifs with hbk hmem
    · rw [takeWhile_cons_of_neg (by simpa using hbk)]
      exact ⟨[], rfl, .nil d item off⟩
    · obtain ⟨vs, hr, hlays⟩ := d.initDnUdReqWrite_lays item i off hle
      rw [hr, Option.bind_some, hrs, takeWhile_cons_of_pos (by simpa using hbk), filter_cons_of_pos hmem]
      exact ⟨_, rfl, congrArg (i :: ·) hrest.locations, forall_mem_cons.mpr ⟨⟨rfl, hlays.bytes⟩, hrest.carries⟩⟩
    · rw [takeWhile_cons_of_pos (by simpa using hbk), filter_cons_of_neg hmem]
      exact ⟨rs, hrs, hrest⟩

private theorem submitWritePlReq_sends {item : WriteItem} {off : Nat} (sys : SubmitEnv)
    (hle : off + item.numHbids * 4096 ≤ d.lbidLen * 4096) :
    ∃ rs, d.submitWritePlReq item off sys = some rs ∧ d.Sends item off (sys.locations item.numDnLoc) rs := by
  rw [submitWritePlReq, SubmitEnv.locations, range_eq_range']
  split_ifs
  · exact d.genSubmitDnWriteReq_sends sys _ 0 hle
  · exact ⟨[], rfl, .nil d item off⟩

/-- The loop of PLMgr_write_payload: each item starts where the LBs of those before it end. -/
theorem plMgrWritePayload_sends (sys : Nat → SubmitEnv) {items : List WriteItem} {i off : Nat}
    (hle : off + (items.map WriteItem.numHbids).sum * 4096 ≤ d.lbidLen * 4096) :
    ∃ outs, d.plMgrWritePayload sys i off items = some outs ∧ outs.length = items.length ∧
      ∀ k item rs, items[k]? = some item → outs[k]? = some rs →
        d.Sends item (off + ((items.take k).map WriteItem.numHbids).sum * 4096) ((sys (i + k)).locations item.numDnLoc) rs := by
  have hlt := d.lbidLen_le
  induction items generalizing i off with
  | nil => exact ⟨[], rfl, rfl, fun k item rs hitem => by cases hitem⟩
  | cons x xs ih =>
    rw [map_cons, sum_cons, Nat.add_mul, ← Nat.add_assoc] at hle
    have hfirst : off + x.numHbids * 4096 ≤ d.lbidLen * 4096 := (Nat.le_add_right _ _).trans hle
    obtain ⟨rs, hrs, hsends⟩ := d.submitWritePlReq_sends (sys i) hfirst
    obtain ⟨outs, houts, hlen, hrest⟩ := ih (i := i + 1) hle
    have hoff : (off + (x.numHbids <<< bitLenDmsLbSize) % 2 ^ 32) % 2 ^ 64 = off + x.numHbids * 4096 := by
      rw [Nat.shiftLeft_eq, show 2 ^ bitLenDmsLbSize = 4096 from rfl]
      omega
    refine ⟨rs :: outs, ?_, congrArg (· + 1) hlen, ?_⟩
    · rw [plMgrWritePayload, hrs, Option.bind_some, hoff, houts, Option.map_some]
    · rintro (_ | k) item rs' hitem hout
      · obtain rfl : x = item := by simpa using hitem
        obtain rfl : rs = rs' := by simpa using hout
        simpa using hsends
      · rw [take_succ_cons, map_cons, sum_cons, Nat.add_mul, ← Nat.add_assoc]
        rw [show i + (k + 1) = i + 1 + k by omega]
        exact hrest k item rs' hitem hout

/-- Whatever the system answers while the requests are made, each item of a write segment gets data node requests
for these locations, and each of them carries the payload bytes of the LBs of its item, LB after LB. -/
theorem write_placement (sys : Nat → SubmitEnv) (off lbS len : Nat) (items : List WriteItem)
    (hin : off + len * 4096 ≤ d.lbidLen * 4096)
    (htile : Consecutive WriteItem.lbidS WriteItem.numHbids lbS items (lbS + len)) :
    ∃ outs, d.plMgrWritePayload sys 0 off items = some outs ∧ outs.length = items.length ∧
      ∀ k item rs, items[k]? = some item → outs[k]? = some rs →
        rs.map DnWriteReq.dnLocIdx = (sys k).locations item.numDnLoc ∧ ∀ r ∈ rs,
        r.dnPayloadOffset = off + 4096 * ((items.take k).map WriteItem.numHbids).sum ∧
        r.uDataSeg.flatMap d.vecBytes =
          (List.range item.numHbids).flatMap fun j => d.lbBytes off lbS (item.lbidS + j) := by
  have hle : off + (items.map WriteItem.numHbids).sum * 4096 ≤ d.lbidLen * 4096 := by
    rwa [Nat.add_left_cancel htile.sum_len]
  obtain ⟨outs, houts, hlen, hsends⟩ := d.plMgrWritePayload_sends sys (i := 0) hle
  refine ⟨outs, houts, hlen, fun k item rs hitem hout => ?_⟩
  obtain ⟨hlocs, hcar⟩ := hsends k item rs hitem hout
  rw [Nat.zero_add] at hlocs
  refine ⟨hlocs, fun r hr => ?_⟩
  obtain ⟨hoff, hbytes⟩ := hcar r hr
  have hstart := htile.start_get hitem
  refine ⟨by rw [hoff, Nat.mul_comm], ?_⟩
  rw [hbytes, Slice.slice_mul]
  refine flatMap_congr fun j _ => ?_
  rw [lbBytes]
  congr 1
  rw [hstart, Nat.add_assoc lbS, Nat.add_sub_cancel_left, Nat.add_mul, Nat.add_assoc]

def overOneChunk : IoPayload Nat where
  lbidLen := 33
  chunks := List.replicate 2 (List.range maxSizeKernelMemChunk)
  chunkItemSize := [131072, 4096]
  lbidLen_lt := Nat.le_of_ble_eq_true rfl
  allocated := ⟨fun _ => true, rfl⟩
  length_chunks := List.length_replicate
  chunk_size := fun _ h => (congrArg List.length (List.eq_of_mem_replicate h)).trans List.length_range

-- An item that crosses the boundary of the chunks gets a vector in each of them.
example : (overOneChunk.initDnUdReqWrite ⟨131, 2, 3⟩ 1 (31 * 4096)).map DnWriteReq.uDataSeg =
    some [⟨0, 126976, 4096⟩, ⟨1, 0, 4096⟩] := by decide

/-- The second item, which crosses the boundary, is sent to its three locations. -/
theorem write_placement_over_one_chunk :
    ∃ outs rs, overOneChunk.plMgrWritePayload (fun _ => ⟨true, fun i => i, fun _ => true⟩) 0 4096
        [⟨101, 30, 3⟩, ⟨131, 2, 3⟩] = some outs ∧ outs[1]? = some rs ∧ rs.map DnWriteReq.dnLocIdx = [0, 1, 2] ∧
      ∀ r ∈ rs, r.dnPayloadOffset = 126976 ∧ r.uDataSeg.flatMap overOneChunk.vecBytes =
        (List.range 2).flatMap fun j => overOneChunk.lbBytes 4096 101 (131 + j) := by
  have htile : Consecutive WriteItem.lbidS WriteItem.numHbids 101 [⟨101, 30, 3⟩, ⟨131, 2, 3⟩] (101 + 32) := by decide
  have hin : 4096 + 32 * 4096 ≤ overOneChunk.lbidLen * 4096 := le_rfl
  obtain ⟨outs, houts, hlen, hall⟩ :=
    overOneChunk.write_placement (fun _ => ⟨true, fun i => i, fun _ => true⟩) 4096 101 32 _ hin htile
  have hget : outs[1]? = some _ := List.getElem?_eq_getElem (show 1 < outs.length by rw [hlen]; decide)
  obtain ⟨hlocs, hbytes⟩ := hall 1 _ _ rfl hget
  exact ⟨outs, _, houts, hget, hlocs, hbytes⟩

end IoPayload
end DiscoClient
