import DiscoClient.Metadata.MdCacheOwnership

namespace DiscoClient.MdCache
open List
variable {c d e : MdCache} {pins : Nat → Nat} {start n x k : Nat} {p q : CachePool McacheItem} {item : MdataItem}
  {env : MdUpdateMem} {stores : Nat → Bool}

structure ItemOk (pins : Nat → Nat) (c : MdCache) (start : Nat) (item : MdataItem) (env : MdUpdateMem)
    (cond : Prop) : Prop where
  updated : Updated pins start item.arrHbid.length c (c.updateItem start item env).1
  iff : Settled c (c.updateItem start item env).1 ∧ Reported (c.updateItem start item env).2 ↔ cond
  renewed : cond → Renewed start item.arrHbid.length c (c.updateItem start item env).1

theorem ItemOk.of_iff {cond cond' : Prop} (h : ItemOk pins c start item env cond) (hiff : cond ↔ cond') :
    ItemOk pins c start item env cond' :=
  ⟨h.updated, h.iff.trans hiff, fun hc => h.renewed (hiff.mpr hc)⟩

private theorem reported_singleton {ret : CacheRet} {stored : Bool} :
    Reported [⟨ret, stored⟩] ↔ (ret.isNegative = true ↔ stored = false) :=
  forall_mem_singleton

private theorem updateItem_skipped (hc : Consistent c pins) (got : Nat)
    (hresult : c.updateItem start item env =
      (⟨(c.invalVolumeMDCacheLBID start item.arrHbid.length).pool, c.nextItem + got,
        List.range' c.nextItem got ++ c.freedItems⟩, [])) : ItemOk pins c start item env True := by
  obtain ⟨hupd, hset, hnew⟩ :=
    (hc.inval start item.arrHbid.length).updated hc (List.Perm.refl (List.range' c.nextItem got))
  refine ⟨?_, iff_of_true ?_ trivial, fun _ => ?_⟩
  · rwa [hresult]
  · rw [hresult]
    exact ⟨hset, fun call hmem => absurd hmem not_mem_nil⟩
  · rwa [hresult]

private theorem not_allStored (hc : Consistent c pins) (hd : d.pool = c.pool) :
    (((splitMetadata item c.nextItem).zipIdx start).all fun e => d.itemAt e.2 = some e.1) = false ↔
      item.arrHbid ≠ [] := by
  have hlen := length_splitMetadata item c.nextItem
  cases hitems : splitMetadata item c.nextItem with
  | nil =>
    rw [hitems] at hlen
    exact iff_of_false Bool.false_ne_true.symm (not_not.mpr (length_eq_zero_iff.mp hlen.symm))
  | cons it items =>
    rw [hitems] at hlen
    have hfirst : it.addr = c.nextItem := addr_splitMetadata (i := 0) (by rw [hitems]; rfl)
    have hne : ¬ d.itemAt start = some it := by
      intro h
      have hmem : it ∈ c.leafData := by
        rw [leafData, ← hd]
        exact mem_leafData h
      exact absurd hfirst (Nat.ne_of_lt (hc.addr_lt hmem))
    rw [zipIdx_cons, all_cons, decide_eq_false hne, Bool.false_and]
    refine iff_of_true rfl (length_pos_iff.mp ?_)
    rw [← hlen]
    exact Nat.succ_pos _

/-- A call of cache_update that stores nothing leaves all items to the caller, who frees them. -/
private theorem updateItem_refused (hc : Consistent c pins) (hvalid : item.valid = true)
    (hgot : ¬ allocChItemArr env.chItem item.arrHbid.length < item.arrHbid.length) (ret : CacheRet)
    (hret : ret.isNegative = true)
    (hcall : c.cacheUpdate env.mem start (splitMetadata item c.nextItem) =
      (c.pool, ret, (splitMetadata item c.nextItem).map some)) : ItemOk pins c start item env (item.arrHbid ≠ []) := by
  have hleft : leftSlots ((splitMetadata item c.nextItem).map some) = List.range' c.nextItem item.arrHbid.length := by
    rw [leftSlots, filterMap_map, ← map_addr_splitMetadata]
    exact congrFun (filterMap_eq_map (f := McacheItem.addr)) _
  have hnone : freedSlots (splitMetadata item c.nextItem) ((splitMetadata item c.nextItem).map some) = [] := by
    rw [freedSlots, filterMap_eq_nil_iff]
    intro e he
    obtain ⟨it, -, heq⟩ := mem_map.mp (of_mem_zip he).2
    rw [← heq]
    rfl
  obtain ⟨hupd, hset, hnew⟩ :=
    (hc.inval start item.arrHbid.length).updated hc (List.Perm.refl (List.range' c.nextItem item.arrHbid.length))
  have heq : c.updateItem start item env =
      (⟨(c.invalVolumeMDCacheLBID start item.arrHbid.length).pool, c.nextItem + item.arrHbid.length,
        List.range' c.nextItem item.arrHbid.length ++ c.freedItems⟩,
        [⟨ret, ((splitMetadata item c.nextItem).zipIdx start).all fun e =>
          itemAt ⟨c.pool, c.nextItem + item.arrHbid.length, c.freedItems⟩ e.2 = some e.1⟩]) := by
    simp only [updateItem, hvalid, hgot, hcall, hret, hleft, hnone, if_false, if_true, reduceCtorEq, nil_append]
    rfl
  refine ⟨?_, ?_, fun _ => ?_⟩
  · rwa [heq]
  · rw [heq, reported_singleton,
      not_allStored (d := ⟨c.pool, c.nextItem + item.arrHbid.length, c.freedItems⟩) hc rfl, hret, eq_self, true_iff]
    exact and_iff_right hset
  · rwa [heq]

section
variable {mem : CachePool.UpdateMem} (hc : Consistent c pins)
  (hfill : Filled mem start (splitMetadata item c.nextItem) pins c d stores)
  (hnext : d.nextItem = c.nextItem + item.arrHbid.length)
  (hfreed : d.freedItems = noLeafAddrs mem (splitMetadata item c.nextItem) ++ c.freedItems)
include hc hfill hnext hfreed

private theorem kept : Updated pins start item.arrHbid.length c d ∧ Settled c d := by
  have hcount (x : Nat) := (perm_leafAddrs mem (splitMetadata item c.nextItem)).count_eq x
  rw [map_addr_splitMetadata] at hcount
  refine updated_of_tally start hfill.pool hc hnext (fun x => ?_) ⟨_, hfill.leafData.symm⟩ fun k item hk hitem =>
    hfill.outside k item (by rwa [length_splitMetadata]) hitem
  rw [tally, tally, ← hcount, hfill.leafData, hfreed, map_append, leafItems_addr, count_append,
    count_append, count_append]
  omega

private theorem undone (hpool : e.pool = (d.invalVolumeMDCacheLBID start item.arrHbid.length).pool)
    (hsame : e.nextItem = d.nextItem)
    (hmore : e.freedItems = leafAddrs mem (splitMetadata item c.nextItem) ++ d.freedItems) :
    Updated pins start item.arrHbid.length c e ∧
      (Settled c e ↔ leafAddrs mem (splitMetadata item c.nextItem) = []) ∧
      Renewed start item.arrHbid.length c e := by
  obtain ⟨hupd, hset⟩ := kept hc hfill hnext hfreed
  have hinv := hupd.consistent.inval start item.arrHbid.length
  have hdata : e.leafData = d.leafData := by
    rw [leafData, hpool]
    exact hinv.leafData
  have htally (x : Nat) : e.tally x = (leafAddrs mem (splitMetadata item c.nextItem)).count x + d.tally x := by
    rw [tally, tally, hdata, hmore, count_append]
    exact Nat.add_left_comm _ _ _
  have haddr {x : Nat} (hx : x ∈ leafAddrs mem (splitMetadata item c.nextItem)) :
      c.nextItem ≤ x ∧ x < d.nextItem := by
    have hmem := (perm_leafAddrs mem (splitMetadata item c.nextItem)).subset (mem_append_left _ hx)
    rw [map_addr_splitMetadata, mem_range'_1] at hmem
    rwa [hnext]
  have hzero {x : Nat} (hx : ¬ (c.nextItem ≤ x ∧ x < d.nextItem)) :
      (leafAddrs mem (splitMetadata item c.nextItem)).count x = 0 :=
    count_eq_zero_of_not_mem fun hmem => hx (haddr hmem)
  have hitem (k : Nat) (it : McacheItem) (hk : e.itemAt k = some it) :
      d.itemAt k = some it ∧ (k < start ∨ start + item.arrHbid.length ≤ k) := by
    rw [itemAt, hpool] at hk
    exact hinv.itemAt k it hk
  refine ⟨⟨⟨?_, ?_, hdata ▸ hupd.consistent.unheld⟩, hsame ▸ hupd.next, ?_, hdata ▸ hupd.leafData, ?_⟩, ⟨?_, ?_⟩, ?_⟩
  · exact fun p hp => hinv.pool p (by rwa [hpool] at hp)
  · intro x hx
    rw [htally, hzero (by omega), hupd.consistent.fresh x (by omega)]
  · intro x hx
    rw [htally, hzero (by omega), hupd.old x hx, Nat.zero_add]
  · exact fun k it hk hlook => hupd.outside k it hk (hitem k it hlook).1
  · intro hse
    refine eq_nil_iff_forall_not_mem.mpr fun x hx => ?_
    obtain ⟨hlo, hhi⟩ := haddr hx
    have hone := hse x hlo (hsame ▸ hhi)
    rw [htally, hset x hlo hhi] at hone
    have hpos := count_pos_iff.mpr hx
    omega
  · intro hnil x hlo hhi
    rw [htally, hnil, count_nil, Nat.zero_add]
    exact hset x hlo (hsame ▸ hhi)
  · intro k it hlo hhi hk
    have := (hitem k it hk).2
    omega

end

private theorem Filled.renewed {mem : CachePool.UpdateMem}
    (hfill : Filled mem start (splitMetadata item c.nextItem) pins c d stores)
    (hall : ∀ i < item.arrHbid.length, stores i = true) : Renewed start item.arrHbid.length c d := by
  intro k it hlo hhi hitem
  have hi : k - start < item.arrHbid.length := by omega
  have hget := List.getElem?_eq_getElem (l := splitMetadata item c.nextItem) (i := k - start)
    (by rw [length_splitMetadata]; exact hi)
  have hnew := hfill.stored _ _ hget (hall _ hi)
  rw [Nat.add_sub_cancel' hlo, hitem] at hnew
  rw [addr_splitMetadata (hget.trans hnew.symm)]
  exact Nat.le_add_right _ _

/-- The basket keeps the items that got a leaf, so a caller told of a failure frees these as well. -/
private theorem updateItem_result (hvalid : item.valid = true)
    (hgot : ¬ allocChItemArr env.chItem item.arrHbid.length < item.arrHbid.length) {ret : CacheRet}
    (hcall : c.cacheUpdate env.mem start (splitMetadata item c.nextItem) =
      (some q, ret, (splitMetadata item c.nextItem).zipIdx.map fun e => if env.mem.leaf e.2 then some e.1 else none))
    (hd : d = ⟨some q, c.nextItem + item.arrHbid.length,
      noLeafAddrs env.mem (splitMetadata item c.nextItem) ++ c.freedItems⟩) :
    c.updateItem start item env =
      (if ret.isNegative then ⟨(d.invalVolumeMDCacheLBID start item.arrHbid.length).pool, d.nextItem,
          leafAddrs env.mem (splitMetadata item c.nextItem) ++ d.freedItems⟩ else d,
        [⟨ret, ((splitMetadata item c.nextItem).zipIdx start).all fun e => d.itemAt e.2 = some e.1⟩]) := by
  subst hd
  simp only [updateItem, hvalid, hgot, hcall, leftSlots_update, freedSlots_update, if_false, reduceCtorEq]
  cases ret.isNegative <;> rfl

private theorem updateItem_tried (hc : Consistent c pins) (hvalid : item.valid = true)
    (hgot : ¬ allocChItemArr env.chItem item.arrHbid.length < item.arrHbid.length) (hp : c.pool = some p)
    (hfit : ¬ (item.arrHbid.length > p.cacheSize ∨ p.cacheSize = 0)) :
    ItemOk pins c start item env
      ((∀ i < item.arrHbid.length, (p.reclaim item.arrHbid.length).stores env.mem start i = true) ∨
        ∀ i < item.arrHbid.length, env.mem.leaf i = false) := by
  have hlen := length_splitMetadata item c.nextItem
  obtain ⟨q, hcall, hq⟩ := cacheUpdate_tried hc hp (hlen ▸ hfit) env.mem start
  obtain ⟨d, hd⟩ : ∃ d : MdCache, d = ⟨some q, c.nextItem + item.arrHbid.length,
    noLeafAddrs env.mem (splitMetadata item c.nextItem) ++ c.freedItems⟩ := ⟨_, rfl⟩
  have hfill := hc.filled hp (hlen ▸ hfit) hq (d := d) (by rw [hd])
  have hstored := hfill.allStored_iff hc
  obtain ⟨hupd, hset⟩ := kept hc hfill (by rw [hd]) (by rw [hd])
  have hresult := updateItem_result hvalid hgot hcall hd
  rw [hlen] at hfill hstored hresult
  generalize (((splitMetadata item c.nextItem).zipIdx start).all fun e => d.itemAt e.2 = some e.1) = stored
    at hstored hresult
  obtain ⟨e, he⟩ : ∃ e : MdCache, e = ⟨(d.invalVolumeMDCacheLBID start item.arrHbid.length).pool, d.nextItem,
    leafAddrs env.mem (splitMetadata item c.nextItem) ++ d.freedItems⟩ := ⟨_, rfl⟩
  obtain ⟨hupd', hset', hnew⟩ := undone hc hfill (by rw [hd]) (by rw [hd]) (e := e) (by rw [he]) (by rw [he]) (by rw [he])
  rw [leafAddrs_eq_nil, hlen] at hset'
  have hlast (hne : splitMetadata item c.nextItem ≠ []) : item.arrHbid.length - 1 < item.arrHbid.length := by
    have := length_pos_iff.mpr hne
    omega
  -- the last item decides what the call returns
  by_cases hok : splitMetadata item c.nextItem = [] ∨
      (p.reclaim item.arrHbid.length).stores env.mem start (item.arrHbid.length - 1) = true
  · have hall (hno : ∀ i < item.arrHbid.length, env.mem.leaf i = false) :
        ∀ i < item.arrHbid.length, (p.reclaim item.arrHbid.length).stores env.mem start i = true := by
      intro i hi
      have hne : splitMetadata item c.nextItem ≠ [] := fun hnil => by
        rw [← hlen, hnil] at hi
        exact absurd hi (Nat.not_lt_zero i)
      have hleaf := (Bool.and_eq_true_iff.mp (hok.resolve_left hne)).1
      rw [hno _ (hlast hne)] at hleaf
      cases hleaf
    have hresult : c.updateItem start item env = (d, [⟨.ok, stored⟩]) := by rw [hresult, if_pos hok]; rfl
    refine ⟨?_, ?_, fun h => ?_⟩
    · rw [hresult]
      exact hupd
    · rw [hresult, reported_singleton, ← Bool.not_eq_true, hstored]
      refine ⟨fun h => ?_, fun h => ⟨hset, iff_of_false Bool.false_ne_true (not_not.mpr (h.elim id hall))⟩⟩
      exact .inl (not_not.mp fun hnot => Bool.false_ne_true (h.2.mpr hnot))
    · rw [hresult]
      exact hfill.renewed (h.elim id hall)
  · obtain ⟨hne, hmiss⟩ := not_or.mp hok
    have hnot : ¬ ∀ i < item.arrHbid.length, (p.reclaim item.arrHbid.length).stores env.mem start i = true :=
      fun hall => hmiss (hall _ (hlast hne))
    have hresult : c.updateItem start item env = (e, [⟨.enomem, stored⟩]) := by rw [hresult, if_neg hok, he]; rfl
    refine ⟨?_, ?_, fun h => ?_⟩
    · rw [hresult]
      exact hupd'
    · rw [hresult, reported_singleton, ← Bool.not_eq_true, hstored, or_iff_right hnot, ← hset']
      exact and_iff_left (iff_of_true rfl hnot)
    · rw [hresult]
      exact hnew

private theorem isSome_reclaim (hp : p.Sound pins) (hsmall : p.cacheSize < 2 ^ 31) (hroom : p.lruList.length ≤ p.cacheSize)
    (hn : n ≤ p.cacheSize) : ((p.reclaim n).tree.lookup k).isSome = true ↔ p.keepsKey n k = true := by
  obtain ⟨hr, ⟨ids, hleft⟩, hlru⟩ := hp.reclaim hsmall hroom hn
  rw [CachePool.keepsKey, any_eq_true, ← hlru, Option.isSome_iff_exists]
  refine exists_congr fun id => ⟨fun hlook => ?_, fun hid => ?_⟩
  · exact ⟨((hr.tree k id).mp hlook).1, beq_iff_eq.mpr (hp.leafBlkid_eq (CachePool.Left.lookup_of_lookup hp hr hleft hlook))⟩
  · have hin : id ∈ p.lruList := mem_of_mem_take (hlru ▸ hid.1)
    obtain ⟨data, hdata⟩ := hp.entry hin
    rw [beq_iff_eq.mp hid.2, ← hleft.entryOf] at hdata
    exact (hr.tree k id).mpr ⟨hid.1, data, hdata⟩

/-- The body of the loop of _update_mdcache, for any metadata item and any failures. -/
theorem Consistent.updateItem (hc : Consistent c pins) (start : Nat) (item : MdataItem) (env : MdUpdateMem) :
    ItemOk pins c start item env (Clean c start item env) := by
  cases hvalid : item.valid with
  | false =>
    refine (updateItem_skipped hc 0 ?_).of_iff (iff_of_true trivial (.inl hvalid))
    rw [MdCache.updateItem, if_pos hvalid]
    rfl
  | true =>
    have hnot : ¬ item.valid = false := by rw [hvalid]; exact Bool.false_ne_true.symm
    by_cases hgot : allocChItemArr env.chItem item.arrHbid.length < item.arrHbid.length
    · refine (updateItem_skipped hc (allocChItemArr env.chItem item.arrHbid.length) ?_).of_iff
        (iff_of_true trivial (.inr (.inl (allocChItemArr_lt.mp hgot))))
      rw [MdCache.updateItem, if_neg hnot, if_pos hgot]
    rw [Clean, or_iff_right hnot, ← allocChItemArr_lt, or_iff_right hgot]
    cases hp : c.pool with
    | none =>
      refine (updateItem_refused hc hvalid hgot .enoent rfl ?_).of_iff ?_
      · rw [cacheUpdate, hp]
      · simp
    | some p =>
      obtain ⟨hsound, hsmall, hroom⟩ := hc.pool p hp
      by_cases hfit : item.arrHbid.length > p.cacheSize ∨ p.cacheSize = 0
      · refine (updateItem_refused hc hvalid hgot .e2big rfl ?_).of_iff ?_
        · simp only [cacheUpdate, hp, CachePool.cacheUpdate, length_splitMetadata, if_pos hfit]
          rfl
        · constructor
          · exact fun hne => ⟨fun hnil => absurd hnil hne, fun q hq => .inl (Option.some.inj hq ▸ hfit)⟩
          · rintro ⟨hex, -⟩ hnil
            obtain ⟨q, hq, hpos⟩ := hex hnil
            rw [hnil, Option.some.inj hq] at hfit
            exact hfit.elim (fun hlt => absurd hlt (Nat.not_lt_zero _)) hpos
      · refine (updateItem_tried hc hvalid hgot hp hfit).of_iff ?_
        have hstores (i : Nat) : (p.reclaim item.arrHbid.length).stores env.mem start i = true ↔
            env.mem.leaf i = true ∧
              (env.mem.node i = true ∨ p.keepsKey item.arrHbid.length (start + i) = true) := by
          rw [CachePool.stores, Bool.and_eq_true, Bool.or_eq_true, isSome_reclaim hsound hsmall hroom (by omega)]
        simp only [hstores]
        constructor
        · exact fun hcond => ⟨fun _ => ⟨p, rfl, fun hz => hfit (.inr hz)⟩, fun q hq => .inr (Option.some.inj hq ▸ hcond)⟩
        · exact fun hcond => (hcond.2 p rfl).resolve_left hfit

end DiscoClient.MdCache
