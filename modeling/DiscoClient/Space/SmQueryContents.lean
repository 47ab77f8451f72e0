import DiscoClient.Metadata.MdQueryCover
import DiscoClient.Space.CachedPool
import DiscoClient.Space.SmQueryLbs

namespace DiscoClient
open Runs List
variable {a : AsChunk} {chunks : List AsChunk} {lb start : Nat}

/-- An allocated chunk that the metadata item of aschunk_fill_metadata has room for, with offsets of 20 bits. -/
structure AsChunk.Fits (a : AsChunk) : Prop where
  len_le : a.lbLen ≤ maxLbsPerIor
  end_le : a.lbidS + a.lbLen ≤ 2 ^ 64
  offset : ∀ loc ∈ a.chunkDNLoc, loc.offset + a.lbLen ≤ 2 ^ 20

/-- What a metadata item of aschunk_fill_metadata says about its i-th LB. -/
def SpaceMdItem.lbAt (it : SpaceMdItem) (i : Nat) : LbMeta :=
  (BitVec.ofNat 64 (it.arrHbid[i]?.getD 0), it.udataDnLoc.map fun loc =>
    ⟨BitVec.ofNat 32 loc.ipaddr, BitVec.ofNat 32 loc.port, ((lbLocs [loc.rbidLenOffset])[i]?.getD (0, 0)).1,
      ((lbLocs [loc.rbidLenOffset])[i]?.getD (0, 0)).2⟩)

def allocatedLb (chunks : List AsChunk) (lb : Nat) : Option LbMeta :=
  (chunks.find? fun a => a.Covers lb).map fun a => a.fillMetadata.lbAt (lb - a.lbidS)

namespace AsChunk.Fits

theorem sub_lbid (h : a.Fits) (hlb : a.Covers lb) :
    BitVec.ofNat 64 lb - BitVec.ofNat 64 a.lbidS = BitVec.ofNat 64 (lb - a.lbidS) := by
  have := h.end_le
  obtain ⟨hle, hlt⟩ := hlb
  refine BitVec.eq_of_toNat_eq ?_
  simp only [BitVec.toNat_sub, BitVec.toNat_ofNat]
  omega

theorem offsetAt (h : a.Fits) (hlb : a.Covers lb) (loc : McacheDnloc) :
    a.offsetAt loc lb = BitVec.ofNat 32 loc.offset + BitVec.ofNat 32 (lb - a.lbidS) := by
  rw [AsChunk.offsetAt, h.sub_lbid hlb, BitVec.setWidth_ofNat_of_le (by decide)]

theorem lb_fits (h : a.Fits) (hlb : a.Covers lb) : (a.lbItem lb).lb.Fits := by
  intro loc hloc
  obtain ⟨dn, hdn, rfl⟩ := mem_map.mp hloc
  have := h.offset dn hdn
  obtain ⟨hle, hlt⟩ := id hlb
  change (a.offsetAt dn lb).toNat < 2 ^ 20
  rw [h.offsetAt hlb, BitVec.toNat_add, BitVec.toNat_ofNat, BitVec.toNat_ofNat]
  omega

theorem lbAt_fillMetadata (h : a.Fits) (hlb : a.Covers lb) : a.fillMetadata.lbAt (lb - a.lbidS) = (a.lbItem lb).lb := by
  obtain ⟨hle, hlt⟩ := id hlb
  have hi : lb - a.lbidS < a.lbLen := by omega
  have hmax : a.lbLen < 2 ^ 11 := Nat.lt_of_le_of_lt h.len_le (by decide)
  refine Prod.ext ?_ ?_
  · change BitVec.ofNat 64 (((List.range a.lbLen).map fun i => (a.hbidS + i) % 2 ^ 64)[lb - a.lbidS]?.getD 0) = a.hbidAt lb
    rw [List.getElem?_map, List.getElem?_range hi, AsChunk.hbidAt, h.sub_lbid hlb, ← BitVec.ofNat_add]
    exact BitVec.eq_of_toNat_eq (by simp)
  · change (a.chunkDNLoc.map _).map _ = a.chunkDNLoc.map _
    rw [map_map]
    refine map_congr_left fun loc hloc => ?_
    have hoff : (BitVec.ofNat 32 loc.offset).toNat < 2 ^ 20 := by
      have := h.offset loc hloc
      rw [BitVec.toNat_ofNat]
      omega
    rw [Function.comp_apply, lbLocs_composeTriple _ hmax hoff, getElem?_rbidRun hi, h.offsetAt hlb]
    rfl

end AsChunk.Fits

/-! ### The buckets of a query -/

def Metadata.lbs (md : Metadata) : List (BitVec 64 × Option LbMeta) :=
  (List.range md.lbidLen).map fun i => (md.lbidStart + BitVec.ofNat 64 i, (md.items.flatMap MdataItem.lbs)[i]?)

def SlotFits (e : Option AsChunk × Nat) : Prop := ∀ a ∈ e.1, a.Fits ∧ a.Covers e.2

def slotLb (e : Option AsChunk × Nat) : BitVec 64 × Option LbMeta :=
  (BitVec.ofNat 64 e.2, e.1.map fun a => (a.lbItem e.2).lb)

theorem slots_eq {slots : List (Option AsChunk)} (hsame : ∀ x ∈ slots, ∀ y ∈ slots, x.isSome = y.isSome) :
    (slots.filterMap id = [] ∧ ∀ x ∈ slots, x = none) ∨ slots = (slots.filterMap id).map some := by
  by_cases hnone : ∀ x ∈ slots, x = none
  · exact .inl ⟨filterMap_eq_nil_iff.mpr hnone, hnone⟩
  · right
    push Not at hnone
    obtain ⟨x, hx, hne⟩ := hnone
    have hall (y) (hy : y ∈ slots) : y.isSome := (hsame y hy x hx).trans (Option.isSome_iff_ne_none.mpr hne)
    clear hx hsame
    induction slots with
    | nil => rfl
    | cons y slots ih =>
      obtain ⟨a, rfl⟩ := Option.isSome_iff_exists.mp (hall y mem_cons_self)
      rw [filterMap_cons_some (show id (some a) = some a from rfl), map_cons,
        ← ih fun z hz => hall z (mem_cons_of_mem _ hz)]

theorem Made.lbs_eq {md : Metadata} {slots : List (Option AsChunk)} (h : Made md (start, slots))
    (hsame : ∀ x ∈ slots, ∀ y ∈ slots, x.isSome = y.isSome) (hfits : ∀ e ∈ slots.zipIdx start, SlotFits e)
    (hlen : slots.length < 2 ^ 11) : md.lbs = (slots.zipIdx start).map slotLb := by
  -- the items of the bucket
  have hitems : ∀ (i : Nat) (slot : Option AsChunk), slots[i]? = some slot →
      (md.items.flatMap MdataItem.lbs)[i]? = slot.map fun a => (a.lbItem (start + i)).lb := by
    intro i slot hslot
    have hmade := h.items
    rcases slots_eq hsame with ⟨hempty, hnone⟩ | hsome
    · rw [if_pos hempty] at hmade
      rw [hmade, hnone slot (mem_of_getElem? hslot)]
      rfl
    · have hlen' : (slots.filterMap id).length < 2 ^ 11 := by rwa [hsome, length_map] at hlen
      have hslots (e) (he : e ∈ (slots.filterMap id).zipIdx start) : SlotFits (some e.1, e.2) := by
        refine hfits _ ?_
        rw [hsome, zipIdx_map]
        exact mem_map_of_mem he
      have hlb (it) (hit : it ∈ lbItems start (slots.filterMap id)) : it.lb.Fits := by
        obtain ⟨e, he, rfl⟩ := mem_map.mp hit
        obtain ⟨ha, hcov⟩ := hslots e he e.1 rfl
        exact ha.lb_fits hcov
      rw [hsome, List.getElem?_map] at hslot
      obtain ⟨a, hget, rfl⟩ := Option.map_eq_some_iff.mp hslot
      rw [if_neg (ne_nil_of_mem (mem_of_getElem? hget))] at hmade
      obtain ⟨mem, raw, hraw, hmd⟩ := hmade
      rw [hmd, lbs_smcacheCreateMetadata hraw hlb hlen', List.getElem?_map, getElem?_lbItems, hget]
      rfl
  refine ext_getElem? fun i => ?_
  rw [Metadata.lbs, h.len, h.start, List.getElem?_map, List.getElem?_map, List.getElem?_zipIdx]
  cases hslot : slots[i]? with
  | none =>
    rw [List.getElem?_eq_none (by rw [length_range]; exact List.getElem?_eq_none_iff.mp hslot)]
    rfl
  | some slot =>
    rw [List.getElem?_range (List.getElem?_eq_some_iff.mp hslot).1, Option.map_some, Option.map_some, Option.map_some,
      hitems i slot hslot, slotLb, BitVec.ofNat_add]

theorem lbs_of_made {slots : List (Option AsChunk)} {mds : List Metadata} (hfits : ∀ e ∈ slots.zipIdx start, SlotFits e)
    (hlen : slots.length < 2 ^ 11) (hmade : List.Forall₂ Made mds (placed start (runs Option.isSome slots))) :
    mds.flatMap Metadata.lbs = (slots.zipIdx start).map slotLb := by
  have hplaces := flatMap_zipIdx_placed start (runs Option.isSome slots)
  rw [flatten_runs] at hplaces
  have hlbs : List.Forall₂ (fun md seg => md.lbs = (seg.2.zipIdx seg.1).map slotLb) mds
      (placed start (runs Option.isSome slots)) := by
    refine List.forall₂_iff_get.mpr ⟨hmade.length_eq, fun i hi hj => ?_⟩
    have hmem := get_mem (placed start (runs Option.isSome slots)) ⟨i, hj⟩
    refine (hmade.get hi hj).lbs_eq (same_of_mem_runs _ (mem_of_mem_placed hmem)) (fun e he => hfits e ?_) ?_
    · rw [← hplaces]
      exact mem_flatMap.mpr ⟨_, hmem, he⟩
    · have hsub := (sublist_flatten_of_mem (mem_of_mem_placed hmem)).length_le
      rw [flatten_runs] at hsub
      exact Nat.lt_of_le_of_lt hsub hlen
  have hmap : mds.map Metadata.lbs = (placed start (runs Option.isSome slots)).map fun seg => (seg.2.zipIdx seg.1).map slotLb := by
    rw [← List.forall₂_eq_eq_eq, List.forall₂_map_left_iff, List.forall₂_map_right_iff]
    exact hlbs
  rw [← hplaces, map_flatMap, flatMap_def, flatMap_def, hmap]

/-! ### Allocated chunks -/

def Apart (chunks : List AsChunk) : Prop := chunks.Pairwise fun a b => ∀ lb, ¬(a.Covers lb ∧ b.Covers lb)

/-- The cache after smcache_add_aschunk of each chunk. -/
def cacheOf (chunks : List AsChunk) : SmCachePool AsChunk :=
  chunks.foldl (fun p a => p.addAschunk a a.lbidS a.lbLen) SmCachePool.initCache

theorem AsChunk.Fits.addAschunk (h : a.Fits) {p : SmCachePool AsChunk} (hp : p.Sound) :
    (p.addAschunk a a.lbidS a.lbLen).Sound ∧
      ∀ lb, (p.addAschunk a a.lbidS a.lbLen).chunkOf lb = if a.Covers lb then some a else p.chunkOf lb := by
  have hlen : a.lbLen < 2 ^ 31 := Nat.lt_of_le_of_lt h.len_le (by decide)
  obtain ⟨hsound, hchunk⟩ := hp.addAschunk a ⟨a.lbidS, a.lbLen, hlen, h.end_le⟩
  refine ⟨hsound, fun lb => (hchunk lb).trans ?_⟩
  exact if_congr Iff.rfl rfl rfl

theorem foldl_addAschunk (hfits : ∀ a ∈ chunks, a.Fits) (hapart : Apart chunks) {p : SmCachePool AsChunk} (hp : p.Sound) :
    (chunks.foldl (fun p a => p.addAschunk a a.lbidS a.lbLen) p).Sound ∧
      ∀ lb, (chunks.foldl (fun p a => p.addAschunk a a.lbidS a.lbLen) p).chunkOf lb =
        (chunks.find? fun a => a.Covers lb).or (p.chunkOf lb) := by
  induction chunks generalizing p with
  | nil => exact ⟨hp, fun _ => rfl⟩
  | cons a chunks ih =>
    obtain ⟨hnot, hapart⟩ := pairwise_cons.mp hapart
    obtain ⟨hsound, hchunk⟩ := (hfits a mem_cons_self).addAschunk hp
    obtain ⟨hrest, hfind⟩ := ih (fun b hb => hfits b (mem_cons_of_mem _ hb)) hapart hsound
    rw [foldl_cons]
    refine ⟨hrest, fun lb => ?_⟩
    rw [hfind, hchunk, List.find?_cons]
    by_cases hlb : a.Covers lb
    · -- no other chunk covers the LB
      have hnone : (chunks.find? fun b => b.Covers lb) = none :=
        List.find?_eq_none.mpr fun b hb hcov => hnot b hb lb ⟨hlb, of_decide_eq_true hcov⟩
      rw [decide_eq_true hlb, hnone, if_pos hlb]
      rfl
    · rw [decide_eq_false hlb, if_neg hlb]

theorem cacheOf_spec (hfits : ∀ a ∈ chunks, a.Fits) (hapart : Apart chunks) :
    (cacheOf chunks).Sound ∧ ∀ lb, (cacheOf chunks).chunkOf lb = chunks.find? fun a => a.Covers lb := by
  obtain ⟨hsound, hchunk⟩ := foldl_addAschunk hfits hapart SmCachePool.Sound.initCache
  refine ⟨hsound, fun lb => (hchunk lb).trans ?_⟩
  exact Option.or_none

theorem slotLb_cacheOf (hfits : ∀ a ∈ chunks, a.Fits) (hapart : Apart chunks) (start len : Nat) :
    (∀ e ∈ ((List.range' start len).map (cacheOf chunks).chunkOf).zipIdx start, SlotFits e) ∧
      (((List.range' start len).map (cacheOf chunks).chunkOf).zipIdx start).map slotLb =
        (List.range' start len).map fun lb => (BitVec.ofNat 64 lb, allocatedLb chunks lb) := by
  have hchunk := (cacheOf_spec hfits hapart).2
  have hfound (lb : Nat) (a : AsChunk) (h : (chunks.find? fun a => a.Covers lb) = some a) : a.Fits ∧ a.Covers lb := by
    have hcov := List.find?_some h
    exact ⟨hfits a (mem_of_find?_eq_some h), of_decide_eq_true hcov⟩
  have hplaces : ((List.range' start len).map (cacheOf chunks).chunkOf).zipIdx start =
      (List.range' start len).map fun lb => (chunks.find? fun a => a.Covers lb, lb) := by
    refine ext_getElem? fun i => ?_
    rw [List.getElem?_zipIdx, List.getElem?_map, List.getElem?_map]
    rcases Nat.lt_or_ge i len with hi | hi
    · rw [List.getElem?_range' hi, Nat.one_mul, Option.map_some, Option.map_some, Option.map_some, hchunk]
    · rw [List.getElem?_eq_none (by rwa [length_range'])]
      rfl
  rw [hplaces]
  constructor
  · intro e he a ha
    obtain ⟨lb, -, rfl⟩ := mem_map.mp he
    exact hfound lb a ha
  · rw [map_map]
    refine map_congr_left fun lb _ => Prod.ext rfl ?_
    refine Option.map_congr fun a ha => ?_
    obtain ⟨ha, hlb⟩ := hfound lb a ha
    exact (ha.lbAt_fillMetadata hlb).symm

/-- A query of the space cache: its buckets tile the range and say about each LB what aschunk_fill_metadata
says about that LB of its chunk, and nothing about an LB of no chunk. -/
theorem space_metadata_agrees (chunks : List AsChunk) (hfits : ∀ a ∈ chunks, a.Fits) (hapart : Apart chunks) (r : QueryRange)
    (mems : List CreateMem) (fuel : Nat) (hfuel : r.len + mems.length ≤ fuel) :
    ∃ ret mds, (cacheOf chunks).queryMData r.start r.len mems fuel = some (ret, mds) ∧
      CoversRange mds r.toLbRange ∧ ((cacheOf chunks).FirstTries r.toLbRange mems → ret = mds.length) ∧
      mds.flatMap Metadata.lbs =
        (List.range' r.start r.len).map fun lb => (BitVec.ofNat 64 lb, allocatedLb chunks lb) := by
  obtain ⟨hsound, -⟩ := cacheOf_spec hfits hapart
  obtain ⟨hslots, hlbs⟩ := slotLb_cacheOf hfits hapart r.start r.len
  obtain ⟨ret, mds, hquery, hret, hmade⟩ := SmCachePool.queryMData_ends hsound r mems hfuel
  refine ⟨ret, mds, hquery, SmCachePool.coversRange_of_made hmade, hret.mpr, ?_⟩
  rw [← hlbs]
  refine lbs_of_made hslots ?_ hmade
  rw [length_map, length_range']
  exact Nat.lt_of_le_of_lt r.le_max (by decide)

def chunkOfSix : AsChunk := ⟨2, 6, 1, 200, [⟨1, 2, 3, 5⟩], .allocated⟩

theorem five_six_pos : 0 < (LbRange.small 5 2).len := Nat.succ_pos 1

theorem five_six_le_max : (LbRange.small 5 2).len ≤ maxLbsPerIor := by decide

def lbFiveSix : QueryRange := ⟨.small 5 2, five_six_pos, five_six_le_max⟩

/-- LB 5 and LB 6 are of chunks on one data node. -/
theorem space_metadata_agrees_two : ∃ ret mds,
    (cacheOf [chunkOfFive, chunkOfSix]).queryMData lbFiveSix.start lbFiveSix.len [] 2 = some (ret, mds) ∧
      CoversRange mds lbFiveSix.toLbRange ∧ ((cacheOf [chunkOfFive, chunkOfSix]).FirstTries lbFiveSix.toLbRange [] → ret = mds.length) ∧
      mds.flatMap Metadata.lbs = (List.range' lbFiveSix.start lbFiveSix.len).map fun lb =>
        (BitVec.ofNat 64 lb, allocatedLb [chunkOfFive, chunkOfSix] lb) := by
  refine space_metadata_agrees _ ?_ ?_ lbFiveSix [] 2 (by decide)
  · intro a ha
    rcases mem_pair.mp ha with rfl | rfl
    · exact ⟨by decide, by decide, by decide⟩
    · exact ⟨by decide, by decide, by decide⟩
  · refine pairwise_pair.mpr fun lb h => ?_
    obtain ⟨⟨-, hfive⟩, hsix, -⟩ := h
    exact absurd (Nat.lt_of_le_of_lt hsix hfive) (by decide)

end DiscoClient
