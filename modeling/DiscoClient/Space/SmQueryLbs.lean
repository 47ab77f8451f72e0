import DiscoClient.Metadata.MdRegroup
import DiscoClient.Space.SmQueryRuns

namespace DiscoClient
open Runs List
variable {chunks : List AsChunk} {start : Nat}

def AsChunk.lbItem (a : AsChunk) (lb : Nat) : McacheItem where
  addr := 0
  hbid := a.hbidAt lb
  udataDnLoc := a.chunkDNLoc.map fun loc =>
    ⟨BitVec.ofNat 32 loc.ipaddr, BitVec.ofNat 32 loc.port, BitVec.ofNat 32 loc.rbid, a.offsetAt loc lb⟩

def lbItems (start : Nat) (chunks : List AsChunk) : List McacheItem :=
  (chunks.zipIdx start).map fun e => e.1.lbItem e.2

/-! ### The functions of the space cache are those of the metadata cache on such items -/

theorem sameDN_lbItem (src dest : AsChunk) (x y : Nat) :
    sameDN (src.lbItem x) (dest.lbItem y) = (dest.dataNodes == src.dataNodes) := by
  have hkey (a : AsChunk) (x : Nat) : (a.lbItem x).udataDnLoc.map (fun loc => (loc.ipaddr, loc.port)) = a.dataNodes := by
    rw [AsChunk.lbItem, map_map]
    rfl
  rw [sameDN, hkey, hkey, BEq.comm]

theorem lbItems_cons (start : Nat) (head : AsChunk) (chunks : List AsChunk) :
    lbItems start (head :: chunks) = head.lbItem start :: lbItems (start + 1) chunks := rfl

theorem length_lbItems (start : Nat) (chunks : List AsChunk) : (lbItems start chunks).length = chunks.length := by
  rw [lbItems, length_map, length_zipIdx]

theorem getElem?_lbItems (start : Nat) (chunks : List AsChunk) (i : Nat) :
    (lbItems start chunks)[i]? = chunks[i]?.map fun a => a.lbItem (start + i) := by
  rw [lbItems, List.getElem?_map, List.getElem?_zipIdx, Option.map_map]
  rfl

theorem map_zipIdx_start {β : Type} (f : AsChunk → Nat → β) (start : Nat) (chunks : List AsChunk) :
    (chunks.zipIdx.map fun e => f e.1 (start + e.2)) = (chunks.zipIdx start).map fun e => f e.1 e.2 := by
  refine ext_getElem? fun i => ?_
  rw [List.getElem?_map, List.getElem?_map, List.getElem?_zipIdx, List.getElem?_zipIdx, Option.map_map, Option.map_map]
  simp only [Function.comp_def, Nat.zero_add]

theorem smcacheCreateMDItem_eq (start : Nat) (head : AsChunk) (chunks : List AsChunk) :
    smcacheCreateMDItem start head chunks = createMDItem (head.lbItem start) (lbItems start chunks) := by
  have hhbid : (chunks.zipIdx.map fun e => e.1.hbidAt (start + e.2)) = (lbItems start chunks).map McacheItem.hbid := by
    rw [map_zipIdx_start AsChunk.hbidAt, lbItems, map_map]
    rfl
  have htriplets (j : Nat) : (chunks.zipIdx.map fun e => ((e.1.chunkDNLoc[j]?).map fun loc =>
      composeTriple (BitVec.ofNat 32 loc.rbid) 1 (e.1.offsetAt loc (start + e.2))).getD 0) =
      (lbItems start chunks).map fun item =>
        ((item.udataDnLoc[j]?).map fun loc => composeTriple loc.rbid 1 loc.offset).getD 0 := by
    rw [map_zipIdx_start (fun a lb => ((a.chunkDNLoc[j]?).map fun loc =>
      composeTriple (BitVec.ofNat 32 loc.rbid) 1 (a.offsetAt loc lb)).getD 0), lbItems, map_map]
    simp only [Function.comp_def, AsChunk.lbItem, List.getElem?_map, Option.map_map]
  rw [smcacheCreateMDItem, createMDItem, hhbid]
  congr 1
  rw [AsChunk.lbItem, zipIdx_map, map_map]
  refine map_congr_left fun d _ => ?_
  rw [htriplets]
  rfl

theorem takeWhile_lbItems (head : AsChunk) (x start : Nat) (chunks : List AsChunk) :
    (lbItems start chunks).takeWhile (sameDN (head.lbItem x)) =
        lbItems start (chunks.takeWhile fun dest => dest.dataNodes == head.dataNodes) ∧
      (lbItems start chunks).dropWhile (sameDN (head.lbItem x)) =
        lbItems (start + (chunks.takeWhile fun dest => dest.dataNodes == head.dataNodes).length)
          (chunks.dropWhile fun dest => dest.dataNodes == head.dataNodes) := by
  induction chunks generalizing start with
  | nil => exact ⟨rfl, rfl⟩
  | cons dest chunks ih =>
    rw [lbItems_cons, takeWhile_cons, dropWhile_cons, takeWhile_cons, dropWhile_cons, sameDN_lbItem]
    split_ifs
    · obtain ⟨htake, hdrop⟩ := ih (start + 1)
      rw [htake, hdrop, length_cons, lbItems_cons, Nat.add_assoc, Nat.add_comm 1]
      exact ⟨rfl, rfl⟩
    · exact ⟨rfl, rfl⟩

/-- The loop of _smcache_create_metadata is that of _create_metadata. -/
theorem smcacheCreateMetadataLoop_eq (alloc : Nat → Bool) (fuel cnUsed start : Nat) (chunks : List AsChunk) :
    smcacheCreateMetadataLoop alloc fuel cnUsed start chunks = createMetadataLoop alloc fuel cnUsed (lbItems start chunks) := by
  induction fuel generalizing cnUsed start chunks with
  | zero => cases chunks <;> rfl
  | succ fuel ih =>
    cases chunks with
    | nil => rfl
    | cons head chunks =>
      obtain ⟨htake, hdrop⟩ := takeWhile_lbItems head start (start + 1) chunks
      have hstart (n : Nat) : start + (1 + n) = start + 1 + n := by omega
      rw [lbItems_cons, smcacheCreateMetadataLoop, createMetadataLoop, getContlenAschunk, getContLenForSameDN, take_first_run,
        drop_first_run, take_first_run, drop_first_run, htake, hdrop, ih, hstart, smcacheCreateMDItem_eq, lbItems_cons]

/-- Metadata that was made with little memory is what would have been made with enough. -/
theorem createMetadataLoop_some {alloc : Nat → Bool} {fuel cnUsed : Nat} {items : List McacheItem} {mds : List MdataItem}
    (h : createMetadataLoop alloc fuel cnUsed items = some mds) : createMetadataLoop (fun _ => true) fuel cnUsed items = some mds := by
  induction fuel generalizing cnUsed items mds with
  | zero => exact h
  | succ fuel ih =>
    cases items with
    | nil => exact h
    | cons head items =>
      rw [createMetadataLoop] at h ⊢
      split_ifs at h
      · obtain ⟨rest, hrest, heq⟩ := Option.map_eq_some_iff.mp h
        rw [if_pos rfl, ih hrest, Option.map_some, heq]

theorem lbs_smcacheCreateMetadata {mem : CreateMem} {raw : List MdataItem}
    (h : smcacheCreateMetadata mem start chunks = some raw) (hfits : ∀ it ∈ lbItems start chunks, it.lb.Fits)
    (hlen : chunks.length < 2 ^ 11) :
    (raw.map smcacheMergeTriplet).flatMap MdataItem.lbs = (lbItems start chunks).map McacheItem.lb := by
  rw [smcacheCreateMetadata] at h
  split_ifs at h
  rw [smcacheCreateMetadataLoop_eq] at h
  obtain ⟨mds, hmds, hlbs⟩ := createMetadataLoop_ok (fun _ => rfl) chunks.length 0 (lbItems start chunks)
    (by rw [length_lbItems]) hfits (by rwa [length_lbItems])
  rw [createMetadataLoop_some h] at hmds
  obtain rfl : raw = mds := Option.some.inj hmds
  rw [← hlbs]
  refine congrArg (List.flatMap MdataItem.lbs) (map_congr_left fun item _ => ?_)
  rw [smcacheMergeTriplet, mergeLrTripletInPlace_eq]

end DiscoClient
