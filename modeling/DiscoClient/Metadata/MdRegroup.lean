import DiscoClient.Metadata.MdTriplets
import Mathlib.Data.List.TakeWhile

namespace DiscoClient
open List

abbrev LbMeta := BitVec 64 × List McacheDnLoc

def MdDnLoc.locAt (loc : MdDnLoc) (k : Nat) : McacheDnLoc :=
  ⟨loc.ipaddr, loc.port, ((lbLocs loc.rbidLenOffset)[k]?.getD (0, 0)).1, ((lbLocs loc.rbidLenOffset)[k]?.getD (0, 0)).2⟩

def MdataItem.lbs (item : MdataItem) : List LbMeta :=
  item.arrHbid.zipIdx.map fun e => (e.1, item.udataDnLoc.map fun loc => loc.locAt e.2)

def McacheItem.lb (item : McacheItem) : LbMeta := (item.hbid, item.udataDnLoc)

structure MdataItem.WellFormed (item : MdataItem) : Prop where
  valid : item.valid = true
  counts : ∀ loc ∈ item.udataDnLoc, lbCount loc.rbidLenOffset = item.arrHbid.length
  fits : ∀ loc ∈ item.udataDnLoc, ∀ val ∈ loc.rbidLenOffset, Fits val

def LbMeta.Fits (lb : LbMeta) : Prop := ∀ loc ∈ lb.2, loc.offset.toNat < 2 ^ 20

variable {item : MdataItem} {head : McacheItem} {items : List McacheItem} {k : Nat}

theorem MdataItem.length_lbs (item : MdataItem) : item.lbs.length = item.arrHbid.length := by
  rw [lbs, length_map, length_zipIdx]

/-- _split_metadata reads off what the item says about each LB. -/
theorem MdataItem.WellFormed.splitMetadata (h : item.WellFormed) (hlen : item.arrHbid.length < 2 ^ 11) (addr : Nat) :
    (splitMetadata item addr).map McacheItem.lb = item.lbs := by
  rw [DiscoClient.splitMetadata, map_map, MdataItem.lbs]
  refine map_congr_left fun e he => ?_
  have hi := (List.getElem?_eq_some_iff.mp (mem_zipIdx_iff_getElem?.mp he)).1
  refine Prod.ext rfl (map_congr_left fun loc hloc => ?_)
  have hcount := h.counts loc hloc
  have hsplit : splitTriplet (BitVec.ofNat 32 e.2) 0 loc.rbidLenOffset = (lbLocs loc.rbidLenOffset)[e.2]?.getD (0, 0) :=
    splitTriplet_eq 0 e.2 (Nat.zero_le e.2) (by omega) (by omega)
  change splitDnLoc e.2 loc = loc.locAt e.2
  rw [splitDnLoc, MdDnLoc.locAt, hsplit]

private theorem offset_rbidRun {rbid offset : BitVec 32} {n : Nat} (hle : offset.toNat + n ≤ 2 ^ 20)
    {r : BitVec 32 × BitVec 32} (hr : r ∈ rbidRun rbid offset n) : r.2.toNat < 2 ^ 20 := by
  obtain ⟨j, hj, rfl⟩ := mem_map.mp hr
  have hj := mem_range.mp hj
  change (offset + BitVec.ofNat 32 j).toNat < 2 ^ 20
  rw [BitVec.toNat_add, BitVec.toNat_ofNat]
  omega

theorem MdataItem.WellFormed.lbs_fit (h : item.WellFormed) : ∀ lb ∈ item.lbs, lb.Fits := by
  intro lb hlb loc hloc
  obtain ⟨e, -, rfl⟩ := mem_map.mp hlb
  obtain ⟨dn, hdn, rfl⟩ := mem_map.mp hloc
  change ((lbLocs dn.rbidLenOffset)[e.2]?.getD (0, 0)).2.toNat < 2 ^ 20
  cases hget : (lbLocs dn.rbidLenOffset)[e.2]? with
  | none => exact Nat.two_pow_pos 20
  | some r =>
    obtain ⟨val, hval, hr⟩ := mem_flatMap.mp (mem_of_getElem? hget)
    exact offset_rbidRun (h.fits dn hdn val hval) hr

private theorem lbLocs_singles (locs : List McacheDnLoc) (hfits : ∀ loc ∈ locs, loc.offset.toNat < 2 ^ 20) :
    lbLocs (locs.map fun loc => composeTriple loc.rbid 1 loc.offset) = locs.map fun loc => (loc.rbid, loc.offset) := by
  induction locs with
  | nil => rfl
  | cons loc locs ih =>
    have hone := lbLocs_composeTriple loc.rbid (n := 1) (by decide) (hfits loc mem_cons_self)
    have hrun : rbidRun loc.rbid loc.offset 1 = [(loc.rbid, loc.offset)] :=
      congrArg (fun off => [(loc.rbid, off)]) (BitVec.add_zero loc.offset)
    rw [hrun] at hone
    rw [map_cons, ← singleton_append, lbLocs_append, ih fun l hl => hfits l (mem_cons_of_mem _ hl)]
    exact congrArg (· ++ _) hone

private theorem locs_column {j : Nat} (first : McacheDnLoc)
    (hcol : ∀ it ∈ items, ∃ loc, it.udataDnLoc[j]? = some loc ∧ loc.offset.toNat < 2 ^ 20)
    (hlen : items.length < 2 ^ 11) :
    lbLocs (mergeTripletLoop items.length (items.map fun it =>
        ((it.udataDnLoc[j]?).map fun loc => composeTriple loc.rbid 1 loc.offset).getD 0)) =
      items.map fun it => ((it.udataDnLoc[j]?.getD first).rbid, (it.udataDnLoc[j]?.getD first).offset) := by
  have hvals : (items.map fun it => ((it.udataDnLoc[j]?).map fun loc => composeTriple loc.rbid 1 loc.offset).getD 0) =
      (items.map fun it => it.udataDnLoc[j]?.getD first).map fun loc => composeTriple loc.rbid 1 loc.offset := by
    rw [map_map]
    refine map_congr_left fun it hit => ?_
    obtain ⟨loc, hloc, -⟩ := hcol it hit
    rw [Function.comp_apply, hloc]
    rfl
  have hfits : ∀ loc ∈ items.map fun it => it.udataDnLoc[j]?.getD first, loc.offset.toNat < 2 ^ 20 := by
    intro loc hloc
    obtain ⟨it, hit, rfl⟩ := mem_map.mp hloc
    obtain ⟨loc, hloc, hlt⟩ := hcol it hit
    rwa [hloc]
  have hsingles := lbLocs_singles _ hfits
  have hcount := congrArg List.length hsingles
  rw [length_lbLocs, length_map, length_map] at hcount
  rw [hvals, lbLocs_mergeTripletLoop _ _ (by rw [length_map, length_map]) (by omega), hsingles, map_map]
  rfl

private theorem sameDN_getElem? {it : McacheItem} (h : sameDN head it = true) {j : Nat} {loc : McacheDnLoc}
    (hloc : head.udataDnLoc[j]? = some loc) :
    ∃ loc', it.udataDnLoc[j]? = some loc' ∧ loc.ipaddr = loc'.ipaddr ∧ loc.port = loc'.port := by
  have hget := congrArg (fun l => l[j]?) (beq_iff_eq.mp h)
  simp only [List.getElem?_map, hloc] at hget
  obtain ⟨loc', hloc', heq⟩ := Option.map_eq_some_iff.mp hget.symm
  rw [Prod.mk.injEq] at heq
  exact ⟨loc', hloc', heq.1.symm, heq.2.symm⟩

theorem lbs_createMDItem (hsame : ∀ it ∈ items, sameDN head it = true) (hfits : ∀ it ∈ items, it.lb.Fits)
    (hlen : items.length < 2 ^ 11) : (mergeLrTriplet (createMDItem head items)).lbs = items.map McacheItem.lb := by
  have hdn (j : Nat) : (mergeLrTriplet (createMDItem head items)).udataDnLoc[j]? = (head.udataDnLoc[j]?).map fun loc =>
      ⟨loc.ipaddr, loc.port, mergeTripletLoop items.length (items.map fun it =>
        ((it.udataDnLoc[j]?).map fun loc => composeTriple loc.rbid 1 loc.offset).getD 0)⟩ := by
    simp only [mergeLrTriplet, createMDItem, if_true, List.getElem?_map, List.getElem?_zipIdx, Option.map_map, Nat.zero_add,
      length_map, Function.comp_def]
  refine ext_getElem? fun k => ?_
  rw [MdataItem.lbs, List.getElem?_map, List.getElem?_zipIdx, List.getElem?_map]
  change ((((items.map McacheItem.hbid)[k]?).map fun a => (a, 0 + k)).map _) = _
  rw [List.getElem?_map]
  cases hit : items[k]? with
  | none => rfl
  | some it =>
    have hmem := mem_of_getElem? hit
    refine congrArg some (Prod.ext rfl (ext_getElem? fun j => ?_))
    change ((mergeLrTriplet (createMDItem head items)).udataDnLoc.map fun loc => loc.locAt (0 + k))[j]? = it.udataDnLoc[j]?
    rw [List.getElem?_map, hdn, Nat.zero_add]
    cases hhead : head.udataDnLoc[j]? with
    | none =>
      have hsize := congrArg List.length (beq_iff_eq.mp (hsame it hmem))
      rw [length_map, length_map] at hsize
      exact (List.getElem?_eq_none (hsize ▸ List.getElem?_eq_none_iff.mp hhead)).symm
    | some first =>
      have hcol : ∀ it ∈ items, ∃ loc, it.udataDnLoc[j]? = some loc ∧ loc.offset.toNat < 2 ^ 20 := by
        intro it hit
        obtain ⟨loc, hloc, -⟩ := sameDN_getElem? (hsame it hit) hhead
        exact ⟨loc, hloc, hfits it hit loc (mem_of_getElem? hloc)⟩
      obtain ⟨loc, hloc, hip, hport⟩ := sameDN_getElem? (hsame it hmem) hhead
      have hplace := locs_column first hcol hlen
      rw [Option.map_some, Option.map_some, MdDnLoc.locAt, hplace, List.getElem?_map, hit, hloc]
      simp only [Option.map_some, Option.getD_some, hloc, hip, hport]

private theorem take_length_takeWhile {α : Type} (f : α → Bool) (l : List α) :
    l.take (l.takeWhile f).length = l.takeWhile f :=
  (prefix_iff_eq_take.mp ( takeWhile_prefix f)).symm

theorem createMetadataLoop_ok {alloc : Nat → Bool} (halloc : ∀ i, alloc i = true) (fuel cnUsed : Nat)
    (items : List McacheItem) (hfuel : items.length ≤ fuel) (hfits : ∀ it ∈ items, it.lb.Fits)
    (hlen : items.length < 2 ^ 11) :
    ∃ mds, createMetadataLoop alloc fuel cnUsed items = some mds ∧
      (mds.map mergeLrTriplet).flatMap MdataItem.lbs = items.map McacheItem.lb := by
  induction fuel generalizing cnUsed items with
  | zero =>
    obtain rfl : items = [] := length_eq_zero_iff.mp (Nat.le_zero.mp hfuel)
    exact ⟨[], rfl, rfl⟩
  | succ fuel ih =>
    cases items with
    | nil => exact ⟨[], rfl, rfl⟩
    | cons head items =>
      obtain ⟨n, hn⟩ : ∃ n, n = (items.takeWhile (sameDN head)).length := ⟨_, rfl⟩
      have hcut : (head :: items).take (1 + n) = head :: items.takeWhile (sameDN head) := by
        rw [Nat.add_comm, take_succ_cons, hn, take_length_takeWhile]
      have hdrop : (head :: items).drop (1 + n) = items.drop n := by rw [Nat.add_comm, drop_succ_cons]
      have hsub : ∀ it ∈ head :: items.takeWhile (sameDN head), it ∈ head :: items := by
        rw [← hcut]
        exact fun it hit => mem_of_mem_take hit
      rw [length_cons] at hfuel hlen
      obtain ⟨mds, hloop, hlbs⟩ := ih (cnUsed + 1) (items.drop n) (by rw [length_drop]; omega)
        (fun it hit => hfits it (mem_cons_of_mem _ (mem_of_mem_drop hit))) (by rw [length_drop]; omega)
      have hgroup : (mergeLrTriplet (createMDItem head (head :: items.takeWhile (sameDN head)))).lbs =
          (head :: items.takeWhile (sameDN head)).map McacheItem.lb := by
        refine lbs_createMDItem (fun it hit => ?_) (fun it hit => hfits it (hsub it hit)) ?_
        · rcases mem_cons.mp hit with rfl | hit
          · exact beq_self_eq_true _
          · exact mem_takeWhile_imp hit
        · have := ( takeWhile_prefix (sameDN head) (l := items)).length_le
          rw [length_cons]
          omega
      refine ⟨createMDItem head (head :: items.takeWhile (sameDN head)) :: mds, ?_, ?_⟩
      · rw [createMetadataLoop, getContLenForSameDN, ← hn, if_pos (halloc cnUsed), hcut, hdrop, hloop]
        rfl
      · rw [map_cons, flatMap_cons, hgroup, hlbs, ← hdrop, ← hcut, ← map_append, take_append_drop]

/-- Allocations of a call of _create_metadata that all succeed. -/
def CreateMem.Plenty (mem : CreateMem) : Prop := mem.array = true ∧ ∀ i, mem.mdItem i = true

/-- The loop of query_volume_MDCache over cache items that are all there. -/
theorem MdCache.queryLoop_ok {fuel : Nat} (lstartLb : BitVec 32) {mems : List CreateMem}
    (hmems : ∀ mem ∈ mems, mem.Plenty) (hfuel : items.length ≤ fuel) (hfits : ∀ it ∈ items, it.lb.Fits)
    (hlen : items.length < 2 ^ 11) :
    ∃ mds, queryLoop fuel lstartLb (items.map some) mems = some mds ∧
      (mds.flatMap fun md => md.items.flatMap MdataItem.lbs) = items.map McacheItem.lb := by
  cases items with
  | nil => exact ⟨[], by cases fuel <;> rfl, rfl⟩
  | cons first rest =>
    obtain ⟨fuel, rfl⟩ : ∃ m, fuel = m + 1 := ⟨fuel - 1, by rw [length_cons] at hfuel; omega⟩
    have hall : (rest.map some).takeWhile (fun item => item.isSome == (some first).isSome) = rest.map some :=
      takeWhile_eq_self_iff.mpr fun it hit => by
        obtain ⟨_, -, rfl⟩ := mem_map.mp hit
        rfl
    have hseg : getMaxSegLen (some first) (rest.map some) = ((first :: rest).map some).length := by
      rw [getMaxSegLen, hall, length_map, length_map, length_cons, Nat.add_comm]
    have hplenty : (mems.headD ⟨true, fun _ => true⟩).Plenty := by
      cases mems with
      | nil => exact ⟨rfl, fun _ => rfl⟩
      | cons mem mems => exact hmems mem mem_cons_self
    obtain ⟨mds, hloop, hlbs⟩ := createMetadataLoop_ok hplenty.2 (first :: rest).length 0 (first :: rest) le_rfl hfits hlen
    have hcreate : createMetadata (mems.headD ⟨true, fun _ => true⟩)
        ((((first :: rest).map some).take (getMaxSegLen (some first) (rest.map some))).filterMap id) = some mds := by
      rw [hseg, take_length, filterMap_map, createMetadata, if_pos hplenty.1]
      change createMetadataLoop _ ((first :: rest).filterMap some).length 0 ((first :: rest).filterMap some) = _
      rw [filterMap_some]
      exact hloop
    refine ⟨[⟨lstartLb.signExtend 64, getMaxSegLen (some first) (rest.map some), mds.map mergeLrTriplet⟩], ?_, ?_⟩
    · have hdrop : ((first :: rest).map some).drop (getMaxSegLen (some first) (rest.map some)) = [] := by
        rw [hseg, drop_length]
      have hend (lb : BitVec 32) : queryLoop fuel lb [] mems.tail = some [] := by cases fuel <;> rfl
      rw [map_cons] at hcreate hdrop ⊢
      simp only [queryLoop, Option.isSome_some, if_true, hcreate, hdrop, hend]
      rfl
    · rw [flatMap_singleton]
      exact hlbs

end DiscoClient
