import DiscoClient.IoManager.PartialWrite
import DiscoClient.IoManager.ReadZero
import DiscoClient.Lib.Consecutive
import DiscoClient.Metadata.MetadataItem

namespace DiscoClient
open List

/-- An item of a read; one that is not invalid carries the payload that was read for it. -/
structure ReadItem where
  lbidS : Nat
  numHbids : Nat
  mdataStat : MDataState
  chunkItemSize : List Nat
  chunks : List (List Byte)
  numHbids_pos : 0 < numHbids
  carries : mdataStat ≠ .invalid → PayloadMem numHbids chunkItemSize chunks

def ReadItem.content (it : ReadItem) : List Byte :=
  if it.mdataStat = .invalid then List.replicate (4096 * it.numHbids) 0#8 else it.chunks.flatten

def deliver (r : CopyReq) (it : ReadItem) (rqs : List (Option RqData)) : Option (List (Option RqData)) :=
  if it.mdataStat = .invalid then ioReqRCopyDataZero2bio r it.lbidS it.numHbids rqs
  else ioReqRCopyDataMem2bio r it.lbidS it.numHbids (4096 * (it.lbidS - r.lbidStart)) it.chunkItemSize it.chunks rqs

def deliverAll (r : CopyReq) : List ReadItem → List (Option RqData) → Option (List (Option RqData))
  | [], rqs => some rqs
  | it :: items, rqs => (deliver r it rqs).bind fun rqs => deliverAll r items rqs

/-- _invalMD_IODone_Proc of a read, as far as it changes the block requests. -/
def invalMdIoDoneProc (r : CopyReq) : Nat → List ReadItem → List (Option RqData) → Option (List (Option RqData))
  | _, [], rqs => some rqs
  | lbS, it :: items, rqs =>
    (if it.mdataStat ≠ .valid ∧ it.mdataStat ≠ .validLessReplica then ioReqRCopyDataZero2bio r lbS it.numHbids rqs
      else some rqs).bind fun rqs => invalMdIoDoneProc r (lbS + it.numHbids) items rqs

namespace CopyReq
variable {r : CopyReq} {pos : Nat} {rqs bufs : List RqData} {it : ReadItem}

def itemFirst (r : CopyReq) (it : ReadItem) : Nat := max r.kernSect (8 * it.lbidS)
def itemEnd (r : CopyReq) (it : ReadItem) : Nat := min (r.kernSect + r.nrKsects) (8 * (it.lbidS + it.numHbids))

def bufByte (r : CopyReq) (pos : Nat) (rqs : List RqData) (b : Nat) : Option Byte :=
  if 512 * (pos + r.sectsShift) ≤ b then (RqData.allBytes rqs)[b - 512 * (pos + r.sectsShift)]? else none

theorem Ok.itemFirst_lt (h : r.Ok pos rqs) (hlo : r.lbidStart ≤ it.lbidS) (hhi : it.lbidS + it.numHbids ≤ r.lbidStart + r.lbidLen) :
    r.itemFirst it < r.itemEnd it := by
  have hstart := r.lbidStart_eq
  have hpos := it.numHbids_pos
  obtain ⟨hlow, hhigh, hone⟩ := ioReqLbidLen_bounds (s := r.kernSect) h.nr_pos
  have hlbs : ioReqLbidLen r.kernSect r.nrKsects = r.lbidLen := rfl
  have hnr := h.nr_pos
  rw [itemFirst, itemEnd]
  omega

/-- One delivery, to buffers of any contents: the bytes of the item's sectors in the request. -/
theorem Ok.deliver (h : r.Ok pos rqs) (hshape : bufs.map RqData.shape = rqs.map RqData.shape) (hlo : r.lbidStart ≤ it.lbidS)
    (hhi : it.lbidS + it.numHbids ≤ r.lbidStart + r.lbidLen) :
    ∃ bufs', deliver r it (bufs.map some) = some (bufs'.map some) ∧
      Delivered bufs (512 * (r.itemFirst it - (pos + r.sectsShift)))
        (slice it.content (512 * (r.itemFirst it - 8 * it.lbidS)) (512 * (r.itemEnd it - r.itemFirst it))) bufs' := by
  have hstart := r.lbidStart_eq
  have hlt := h.itemFirst_lt hlo hhi
  have hnum := it.numHbids_pos
  have hfirst := h.first
  have hlast := h.last
  have haddr := h.addr
  have hlbs : ioReqLbidLen r.kernSect r.nrKsects = r.lbidLen := rfl
  have hfits : ioReqLbidLen r.kernSect r.nrKsects ≤ 33 := h.maskOk.fits
  obtain ⟨f, hf⟩ : ∃ f, r.itemFirst it = f := ⟨_, rfl⟩
  obtain ⟨e, he⟩ : ∃ e, r.itemEnd it = e := ⟨_, rfl⟩
  rw [hf, he] at hlt ⊢
  rw [itemFirst] at hf
  rw [itemEnd] at he
  -- the sectors of the item that the masks leave out
  have hhead : headSectSkip (r.maskLbAlign[it.lbidS - r.lbidStart]?.getD 0#8) = f - 8 * it.lbidS := by
    rw [h.maskOk.headSectSkip_at h.nr_pos (by omega)]
    omega
  have htail : tailSectSkip (r.maskLbAlign[it.lbidS - r.lbidStart + it.numHbids - 1]?.getD 0#8) =
      some (8 * (it.lbidS + it.numHbids) - e) := by
    rw [h.maskOk.tailSectSkip_at h.nr_pos (by omega)]
    congr 1
    omega
  have hshl (x : Nat) : x <<< bitLenDmsLbSects = 8 * x := by
    rw [Nat.shiftLeft_eq, Nat.mul_comm]
    rfl
  have hsects : 8 * it.numHbids - (f - 8 * it.lbidS) - (8 * (it.lbidS + it.numHbids) - e) = e - f := by omega
  have hcont := RqData.contiguous_congr h.contiguous hshape
  have hrqs := RqData.wellFormed_congr h.wellFormed hshape
  have hin : 512 * (f - (pos + r.sectsShift) + (e - f)) ≤ (RqData.allBytes bufs).length := by
    rw [RqData.length_allBytes_congr hshape]
    omega
  rw [DiscoClient.deliver, ReadItem.content]
  split_ifs with hinval
  · rw [ioReqRCopyDataZero2bio, hhead, htail, Option.bind_some, hshl, hshl, hsects,
      show 8 * it.lbidS + (f - 8 * it.lbidS) - r.sectsShift = pos + (f - (pos + r.sectsShift)) by omega,
      Slice.slice_replicate _ (by omega)]
    exact zero2bioLoop_spec bufs pos _ _ hcont hrqs (by omega) hin
  · have hidx : (it.lbidS + 2 ^ 64 - r.lbidStart) % 2 ^ 32 = it.lbidS - r.lbidStart := by omega
    have hoff : (4096 * (it.lbidS - r.lbidStart)) >>> bitLenSectSize = 8 * (it.lbidS - r.lbidStart) := by
      rw [Nat.shiftRight_eq_div_pow, show 2 ^ bitLenSectSize = 512 from rfl]
      omega
    have hdn : (8 * r.lbidStart + 2 ^ 64 - r.sectsShift + 8 * (it.lbidS - r.lbidStart) + (f - 8 * it.lbidS)) % 2 ^ 64 =
        pos + (f - (pos + r.sectsShift)) := by
      omega
    have hcp : chunkAt it.numHbids (512 * (f - 8 * it.lbidS)) = ⟨0, 512 * (f - 8 * it.lbidS),
        (chunkAt it.numHbids (512 * (f - 8 * it.lbidS))).rLen⟩ := by
      rw [chunkAt, Nat.div_eq_of_lt (by omega), Nat.mod_eq_of_lt (by omega)]
    have hspec := mem2bioLoop_spec (it.carries hinval) bufs pos (f - (pos + r.sectsShift)) (e - f) hcont hrqs
      (a := 512 * (f - 8 * it.lbidS)) (by omega) (by omega) hin
    rw [hcp] at hspec
    rw [ioReqRCopyDataMem2bio, hidx, hhead, htail, Option.bind_some, hshl, hshl, hsects, hoff, hdn]
    simp only [shiftLeft_bitLenSectSize]
    exact hspec

def InItem (r : CopyReq) (it : ReadItem) (b : Nat) : Prop := 512 * r.itemFirst it ≤ b ∧ b < 512 * r.itemEnd it

theorem Ok.deliver_bytes (h : r.Ok pos rqs) (hshape : bufs.map RqData.shape = rqs.map RqData.shape) (hlo : r.lbidStart ≤ it.lbidS)
    (hhi : it.lbidS + it.numHbids ≤ r.lbidStart + r.lbidLen) :
    ∃ bufs', DiscoClient.deliver r it (bufs.map some) = some (bufs'.map some) ∧
      bufs'.map RqData.shape = rqs.map RqData.shape ∧
      (∀ b, r.InItem it b → ∃ byte, it.content[b - 4096 * it.lbidS]? = some byte ∧ r.bufByte pos bufs' b = some byte) ∧
      ∀ b, ¬ r.InItem it b → r.bufByte pos bufs' b = r.bufByte pos bufs b := by
  obtain ⟨bufs', hdeliver, hdel⟩ := h.deliver hshape hlo hhi
  have hlt := h.itemFirst_lt hlo hhi
  have hfirst := h.first
  have hlast := h.last
  have hf : r.kernSect ≤ r.itemFirst it ∧ 8 * it.lbidS ≤ r.itemFirst it := by rw [itemFirst]; omega
  have he : r.itemEnd it ≤ r.kernSect + r.nrKsects ∧ r.itemEnd it ≤ 8 * (it.lbidS + it.numHbids) := by rw [itemEnd]; omega
  have hlen := RqData.length_allBytes_congr hshape
  have hcontent : 4096 * it.numHbids ≤ it.content.length := by
    rw [ReadItem.content]
    split_ifs with hinval
    · rw [length_replicate]
    · rw [Nat.mul_comm]
      exact (it.carries hinval).le_length
  have hdata : (slice it.content (512 * (r.itemFirst it - 8 * it.lbidS)) (512 * (r.itemEnd it - r.itemFirst it))).length =
      512 * (r.itemEnd it - r.itemFirst it) := Slice.length_slice (by omega)
  refine ⟨bufs', hdeliver, hdel.shape.trans hshape, fun b hb => ?_, fun b hb => ?_⟩
  · obtain ⟨hlow, hhigh⟩ := hb
    have hin : b - 4096 * it.lbidS < it.content.length := by omega
    refine ⟨_, List.getElem?_eq_getElem hin, ?_⟩
    rw [bufByte, if_pos (by omega), hdel.bytes, show b - 512 * (pos + r.sectsShift) =
      512 * (r.itemFirst it - (pos + r.sectsShift)) + (b - 512 * r.itemFirst it) by omega,
      Overwrite.getElem?_of_mem (by omega) (by omega), slice, List.getElem?_take_of_lt (by omega), List.getElem?_drop,
      show 512 * (r.itemFirst it - 8 * it.lbidS) + (b - 512 * r.itemFirst it) = b - 4096 * it.lbidS by omega]
    exact List.getElem?_eq_getElem hin
  · rw [bufByte, bufByte, hdel.bytes]
    split_ifs with hb'
    · rw [InItem] at hb
      by_cases hlow : b < 512 * r.itemFirst it
      · exact Overwrite.getElem?_of_lt (by omega) (by omega)
      · exact Overwrite.getElem?_of_ge (by omega) (by omega)
    · rfl

theorem Ok.deliverAll_bytes (h : r.Ok pos rqs) (items : List ReadItem)
    (hin : ∀ it ∈ items, r.lbidStart ≤ it.lbidS ∧ it.lbidS + it.numHbids ≤ r.lbidStart + r.lbidLen)
    (hdisj : items.Pairwise fun a b => a.lbidS + a.numHbids ≤ b.lbidS ∨ b.lbidS + b.numHbids ≤ a.lbidS)
    (hshape : bufs.map RqData.shape = rqs.map RqData.shape) :
    ∃ bufs', deliverAll r items (bufs.map some) = some (bufs'.map some) ∧
      (∀ it ∈ items, ∀ b, r.InItem it b →
        ∃ byte, it.content[b - 4096 * it.lbidS]? = some byte ∧ r.bufByte pos bufs' b = some byte) ∧
      ∀ b, (∀ it ∈ items, ¬ r.InItem it b) → r.bufByte pos bufs' b = r.bufByte pos bufs b := by
  induction items generalizing bufs with
  | nil => exact ⟨bufs, rfl, fun it hit => absurd hit not_mem_nil, fun b _ => rfl⟩
  | cons it items ih =>
    obtain ⟨hfirst, hrest⟩ := pairwise_cons.mp hdisj
    obtain ⟨hlo, hhi⟩ := hin it mem_cons_self
    obtain ⟨bufs₁, hdeliver, hshape₁, hbytes₁, hframe₁⟩ := h.deliver_bytes hshape hlo hhi
    obtain ⟨bufs₂, hall, hbytes₂, hframe₂⟩ := ih (fun it hit => hin it (mem_cons_of_mem _ hit)) hrest hshape₁
    refine ⟨bufs₂, ?_, fun x hx b hb => ?_, fun b hb => ?_⟩
    · rw [deliverAll, hdeliver, Option.bind_some]
      exact hall
    · rcases mem_cons.mp hx with rfl | hx
      · -- the later items lie elsewhere
        obtain ⟨byte, hbyte, hbuf⟩ := hbytes₁ b hb
        refine ⟨byte, hbyte, (hframe₂ b fun y hy hby => ?_).trans hbuf⟩
        have hxy := hfirst y hy
        rw [InItem, itemFirst, itemEnd] at hb hby
        omega
      · exact hbytes₂ x hx b hb
    · rw [hframe₂ b fun y hy => hb y (mem_cons_of_mem _ hy), hframe₁ b (hb it mem_cons_self)]

end CopyReq

/-- _invalMD_IODone_Proc delivers the invalid items, in their order. -/
theorem invalMdIoDoneProc_eq (r : CopyReq) {items : List ReadItem} {lbS e : Nat}
    (h : Consecutive ReadItem.lbidS ReadItem.numHbids lbS items e) (rqs : List (Option RqData)) :
    invalMdIoDoneProc r lbS items rqs = deliverAll r (items.filter fun it => it.mdataStat = .invalid) rqs := by
  induction items generalizing lbS rqs with
  | nil => rfl
  | cons it items ih =>
    obtain ⟨rfl, hrest⟩ := h
    have hstat : (it.mdataStat ≠ .valid ∧ it.mdataStat ≠ .validLessReplica) ↔ it.mdataStat = .invalid := by
      cases it.mdataStat <;> simp
    by_cases hinval : it.mdataStat = .invalid
    · rw [invalMdIoDoneProc, if_pos (hstat.mpr hinval), filter_cons_of_pos (by simpa using hinval), deliverAll, deliver,
        if_pos hinval]
      exact congrArg _ (funext fun rqs => ih hrest rqs)
    · rw [invalMdIoDoneProc, if_neg (mt hstat.mp hinval), filter_cons_of_neg (by simpa using hinval), Option.bind_some]
      exact ih hrest rqs

/-- Items that tile the LBs of a read, delivered in any order: each changes only the bytes of its own
sectors, and at the end every byte of the request is that of its item. -/
theorem read_delivered (r : CopyReq) (pos : Nat) (rqs : List RqData) (items order : List ReadItem) (h : r.Ok pos rqs)
    (htile : Consecutive ReadItem.lbidS ReadItem.numHbids r.lbidStart items (r.lbidStart + r.lbidLen))
    (horder : order.Perm items) :
    (∀ it ∈ items, ∀ bufs, bufs.map RqData.shape = rqs.map RqData.shape →
      ∃ bufs', deliver r it (bufs.map some) = some (bufs'.map some) ∧ bufs'.map RqData.shape = rqs.map RqData.shape ∧
        ∀ b, ¬ (512 * max r.kernSect (8 * it.lbidS) ≤ b ∧
            b < 512 * min (r.kernSect + r.nrKsects) (8 * (it.lbidS + it.numHbids))) →
          r.bufByte pos bufs' b = r.bufByte pos bufs b) ∧
      (∃ bufs', deliverAll r order (rqs.map some) = some (bufs'.map some) ∧
        ∀ b, 512 * r.kernSect ≤ b → b < 512 * (r.kernSect + r.nrKsects) →
          ∃ it ∈ items, 4096 * it.lbidS ≤ b ∧ b < 4096 * (it.lbidS + it.numHbids) ∧
            ∃ byte, r.bufByte pos bufs' b = some byte ∧ it.content[b - 4096 * it.lbidS]? = some byte) ∧
      invalMdIoDoneProc r r.lbidStart items (rqs.map some) =
        deliverAll r (items.filter fun it => it.mdataStat = .invalid) (rqs.map some) := by
  refine ⟨fun it hit bufs hshape => ?_, ?_, invalMdIoDoneProc_eq r htile _⟩
  · obtain ⟨hlo, hhi⟩ := htile.bounds hit
    obtain ⟨bufs', hdeliver, hshape', -, hframe⟩ := h.deliver_bytes hshape hlo hhi
    exact ⟨bufs', hdeliver, hshape', hframe⟩
  · have hdisj : order.Pairwise fun a b => a.lbidS + a.numHbids ≤ b.lbidS ∨ b.lbidS + b.numHbids ≤ a.lbidS :=
      (horder.pairwise_iff fun hab => hab.symm).mpr (htile.pairwise.imp fun hab => .inl hab)
    obtain ⟨bufs', hall, hbytes, -⟩ := h.deliverAll_bytes order (fun it hit => htile.bounds (horder.mem_iff.mp hit)) hdisj rfl
    have hstart := r.lbidStart_eq
    obtain ⟨hlow, hhigh, -⟩ := ioReqLbidLen_bounds (s := r.kernSect) h.nr_pos
    have hlbs : ioReqLbidLen r.kernSect r.nrKsects = r.lbidLen := rfl
    refine ⟨bufs', hall, fun b hb hb' => ?_⟩
    obtain ⟨it, hit, hfirst, hlast⟩ := htile.cover (k := b / 4096) (by omega) (by omega)
    refine ⟨it, hit, by omega, by omega, ?_⟩
    obtain ⟨byte, hcontent, hbuf⟩ := hbytes it (horder.mem_iff.mpr hit) b (by
      rw [CopyReq.InItem, CopyReq.itemFirst, CopyReq.itemEnd]
      omega)
    exact ⟨byte, hbuf, hcontent⟩

def zeroItem : ReadItem := ⟨0, 1, .invalid, [], [], Nat.one_pos, fun h => absurd rfl h⟩

theorem payloadMem_one_chunk (x : Byte) : PayloadMem 32 [131072] [List.replicate 131072 x] := by
  refine ⟨⟨by decide, fun b hb => ?_⟩, fun k => ?_, rfl⟩
  · rw [mem_singleton.mp hb, length_replicate]
  · cases k with
    | zero => rfl
    | succ k =>
      rw [if_neg (by omega)]
      rfl

def dataItem : ReadItem where
  lbidS := 1
  numHbids := 32
  mdataStat := .valid
  chunkItemSize := [131072]
  chunks := [List.replicate 131072 5#8]
  numHbids_pos := Nat.le_of_ble_eq_true rfl
  carries := fun _ => payloadMem_one_chunk 5#8

/-- The data comes first, and the sectors of the first LB are zero at the end. -/
theorem read_delivered_data_first :
    ∃ bufs', deliverAll copyReqTwoChunks [dataItem, zeroItem]
        ([⟨5, List.replicate 32 (List.replicate 4096 1#8)⟩].map some) = some (bufs'.map some) ∧
      ∀ b, 2560 ≤ b → b < 4096 → copyReqTwoChunks.bufByte 5 bufs' b = some 0#8 := by
  obtain ⟨-, ⟨bufs', hall, hbytes⟩, -⟩ := read_delivered copyReqTwoChunks 5 _ [zeroItem, dataItem] [dataItem, zeroItem]
    copyReqTwoChunks_ok ⟨rfl, rfl, rfl⟩ (List.Perm.swap _ _ _)
  refine ⟨bufs', hall, fun b hlow hhigh => ?_⟩
  have hnr : copyReqTwoChunks.kernSect + copyReqTwoChunks.nrKsects = 261 := rfl
  obtain ⟨it, hit, hstart, -, byte, hbuf, hcontent⟩ := hbytes b (show 512 * 5 ≤ b by omega) (by rw [hnr]; omega)
  rw [hbuf]
  simp only [mem_cons, not_mem_nil, or_false] at hit
  rcases hit with rfl | rfl
  · rw [← hcontent]
    exact List.getElem?_replicate_of_lt (show b - 4096 * 0 < 4096 * 1 by omega)
  · have hstart : 4096 * 1 ≤ b := hstart
    omega

end DiscoClient
