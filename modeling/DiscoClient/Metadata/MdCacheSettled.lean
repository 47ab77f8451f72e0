import DiscoClient.Metadata.MdCacheFailures

namespace DiscoClient.MdCache
open List
variable {c d e : MdCache} {pins : Nat → Nat} {start n m x k : Nat}

def AllClean (c : MdCache) (start : Nat) : List (MdataItem × MdUpdateMem) → Prop
  | [] => True
  | (item, env) :: items =>
    Clean c start item env ∧ AllClean (c.updateItem start item env).1 (start + item.arrHbid.length) items

theorem Updated.refl (hc : Consistent c pins) : Updated pins start n c c :=
  ⟨hc, le_rfl, fun _ _ => rfl, prefix_rfl, fun _ _ _ hk => hk⟩

theorem Updated.trans (h : Updated pins start n c d) (he : Updated pins (start + n) m d e) :
    Updated pins start (n + m) c e where
  consistent := he.consistent
  next := h.next.trans he.next
  old x hx := (he.old x (lt_of_lt_of_le hx h.next)).trans (h.old x hx)
  leafData := h.leafData.trans he.leafData
  outside k item hk hitem := h.outside k item (by omega) (he.outside k item (by omega) hitem)

theorem Updated.settled_iff (h : Updated pins start n c d) (he : Updated pins k m d e) :
    Settled c e ↔ Settled c d ∧ Settled d e := by
  refine ⟨fun hs => ⟨fun x hlo hhi => ?_, fun x hlo hhi => hs x (h.next.trans hlo) hhi⟩, fun hs x hlo hhi => ?_⟩
  · rw [← he.old x hhi]
    exact hs x hlo (lt_of_lt_of_le hhi he.next)
  · rcases Nat.lt_or_ge x d.nextItem with hold | hnew
    · rw [he.old x hold]
      exact hs.1 x hlo hold
    · exact hs.2 x hnew hhi

theorem Renewed.trans (h : Renewed start n c d) (he : Renewed (start + n) m d e) (hupd : Updated pins start n c d)
    (hupd' : Updated pins (start + n) m d e) : Renewed start (n + m) c e := by
  intro k item hlo hhi hitem
  rcases Nat.lt_or_ge k (start + n) with hfirst | hrest
  · exact h k item hlo hfirst (hupd'.outside k item (.inl hfirst) hitem)
  · exact hupd.next.trans (he k item hrest (by omega) hitem)

/-- _update_mdcache: what each item does adds up. -/
theorem Consistent.updateMdcache (hc : Consistent c pins) (start : Nat) (items : List (MdataItem × MdUpdateMem)) :
    Updated pins start (numLbs items) c (c.updateMdcache start items).1 ∧
      (Settled c (c.updateMdcache start items).1 ∧ Reported (c.updateMdcache start items).2 ↔ AllClean c start items) ∧
      (AllClean c start items → Renewed start (numLbs items) c (c.updateMdcache start items).1) := by
  induction items generalizing c start with
  | nil =>
    refine ⟨.refl hc, iff_of_true ⟨fun x hlo hhi => ?_, fun call hmem => ?_⟩ trivial, fun _ k item hlo hhi => ?_⟩
    · exact absurd hhi (Nat.not_lt.mpr hlo)
    · exact absurd hmem not_mem_nil
    · exact absurd hhi (Nat.not_lt.mpr hlo)
  | cons head items ih =>
    obtain ⟨item, env⟩ := head
    have hstep := hc.updateItem start item env
    obtain ⟨hupd, hiff, hnew⟩ := ih hstep.updated.consistent (start + item.arrHbid.length)
    have hsum : numLbs ((item, env) :: items) = item.arrHbid.length + numLbs items := sum_cons
    rw [hsum, AllClean, MdCache.updateMdcache]
    refine ⟨hstep.updated.trans hupd, ?_, fun h => ?_⟩
    · rw [hstep.updated.settled_iff hupd, Reported, forall_mem_append, and_and_and_comm]
      exact and_congr hstep.iff hiff
    · exact (hstep.renewed h.1).trans (hnew h.2) hstep.updated hupd

def owned (c : MdCache) (x : Nat) : Nat := c.pool.elim 0 fun p => p.entries.countP fun e => e.2.addr = x

def freed (c : MdCache) (x : Nat) : Nat :=
  (c.pool.elim 0 fun p => p.freedLeaves.countP (p.leafSel fun item => item.addr = x)) + c.freedItems.count x

theorem Updated.owned_add_freed (hc : Consistent c pins) (h : Updated pins start n c d) (hx : c.nextItem ≤ x) :
    d.owned x + d.freed x = d.tally x := by
  rw [owned, freed, tally]
  cases hp : d.pool with
  | none =>
    rw [MdCache.leafData, hp]
    exact Nat.zero_add _
  | some p =>
    have hdata : d.leafData = p.leaves.map TreeLeaf.data := by
      rw [MdCache.leafData, hp]
      rfl
    have hunheld (id : Nat) (hsel : p.leafSel (fun item => item.addr = x) id = true) : pins id = 0 := by
      refine hc.unheld id (Nat.le_of_not_lt fun hlt => ?_)
      -- an old leaf has an old item
      obtain ⟨l, hl, haddr⟩ := (Option.any_eq_true ..).mp hsel
      obtain ⟨more, hmore⟩ := h.leafData
      have hget : c.leafData[id]? = some l.data := by
        rw [← List.getElem?_append_left hlt, hmore, hdata, List.getElem?_map, hl]
        rfl
      have hlow := hc.addr_lt (mem_of_getElem? hget)
      have haddr := of_decide_eq_true haddr
      omega
    have hcount := (h.consistent.pool p hp).1.countP_entries_add_freed _ hunheld
    have htally : (d.leafData.map McacheItem.addr).count x =
        (p.leaves.map TreeLeaf.data).countP fun item => item.addr = x := by
      rw [count_eq_countP, countP_map, hdata]
      rfl
    rw [htally, ← hcount]
    exact (Nat.add_assoc _ _ _).symm

/-- An update keeps every new item once, replaces what its keys had, and reports what it left out. -/
structure UpdateOk (c d : MdCache) (calls : List CacheCall) (start n : Nat) : Prop where
  settled : ∀ x, c.nextItem ≤ x → x < d.nextItem →
    (d.owned x = 1 ∧ d.freed x = 0) ∨ (d.owned x = 0 ∧ d.freed x = 1)
  replaced : ∀ k item, start ≤ k → k < start + n → c.itemAt k = some item → d.itemAt k ≠ some item
  reported : ∀ call ∈ calls, call.ret.isNegative = true ↔ call.allStored = false

theorem Updated.updateOk (hc : Consistent c pins) (h : Updated pins start n c d) (hset : Settled c d)
    {calls : List CacheCall} (hrep : Reported calls) (hnew : Renewed start n c d) : UpdateOk c d calls start n where
  settled x hlo hhi := by
    have hsum := h.owned_add_freed hc hlo
    rw [hset x hlo hhi] at hsum
    omega
  replaced k item hlo hhi hold hitem := by
    have hlt := hc.addr_lt (mem_leafData hold)
    have hge := hnew k item hlo hhi hitem
    omega
  reported := hrep

/-- Each new cache item is owned or freed once, no key keeps its old item, and the calls of cache_update
report what they leave out, exactly if every metadata item is stored as a whole or not at all. -/
theorem update_ok_iff_all_clean (hc : Consistent c pins) (items : List (MdataItem × MdUpdateMem)) (lbidS lbidLen : Nat)
    (hlen : numLbs items = lbidLen) (enableMdcache freeMemLow : Bool) :
    UpdateOk c (c.updateVolumeMDCache items lbidS lbidLen enableMdcache freeMemLow).1.1
        (c.updateVolumeMDCache items lbidS lbidLen enableMdcache freeMemLow).1.2 lbidS lbidLen ↔
      (enableMdcache = true → freeMemLow = false → AllClean c lbidS items) := by
  obtain ⟨hupd, hset, hnew⟩ := (hc.inval lbidS lbidLen).updated hc (List.Perm.refl (List.range' c.nextItem 0))
  have hinval : UpdateOk c (c.invalVolumeMDCacheLBID lbidS lbidLen) [] lbidS lbidLen :=
    hupd.updateOk hc hset (fun call hmem => absurd hmem not_mem_nil) hnew
  cases enableMdcache with
  | false => exact iff_of_true hinval fun hon => absurd hon Bool.false_ne_true
  | true =>
    cases freeMemLow with
    | true => exact iff_of_true hinval fun _ hlow => absurd hlow Bool.false_ne_true.symm
    | false =>
      obtain ⟨hupd, hiff, hnew⟩ := hc.updateMdcache lbidS items
      rw [hlen] at hupd hnew
      change UpdateOk c (c.updateMdcache lbidS items).1 (c.updateMdcache lbidS items).2 lbidS lbidLen ↔ _
      refine ⟨fun h _ _ => hiff.mp ⟨fun x hlo hhi => ?_, h.reported⟩, fun h => ?_⟩
      · rw [← hupd.owned_add_freed hc hlo]
        have := h.settled x hlo hhi
        omega
      · have hclean := h rfl rfl
        obtain ⟨hset, hrep⟩ := hiff.mpr hclean
        exact hupd.updateOk hc hset hrep (hnew hclean)

def newCache : MdCache := ⟨some (CachePool.create 4), 0, []⟩

theorem consistent_newCache : Consistent newCache fun _ => 0 where
  pool p hp := by
    obtain rfl : CachePool.create 4 = p := Option.some.inj hp
    exact ⟨.create 4, by decide, by decide⟩
  fresh _ _ := rfl
  unheld _ _ := rfl

def twoLbs : MdataItem := ⟨true, [7, 8], [⟨1, 2, [composeTriple 3 2 4]⟩]⟩

def leafMem (leaf : Nat → Bool) : MdUpdateMem := ⟨fun _ => true, leaf, fun _ => true⟩

theorem update_ok_no_leaf : UpdateOk newCache
    (newCache.updateVolumeMDCache [(twoLbs, leafMem fun _ => true), (twoLbs, leafMem fun _ => false)] 0 4 true false).1.1
    (newCache.updateVolumeMDCache [(twoLbs, leafMem fun _ => true), (twoLbs, leafMem fun _ => false)] 0 4 true false).1.2
    0 4 := by
  refine (update_ok_iff_all_clean consistent_newCache _ 0 4 rfl true false).mpr fun _ _ => ⟨?_, ?_, trivial⟩
  · exact .inr (.inr ⟨fun hnil => absurd hnil (cons_ne_nil _ _), fun p hp => .inr (.inl fun i hi => ⟨rfl, .inl rfl⟩)⟩)
  · exact .inr (.inr ⟨fun hnil => absurd hnil (cons_ne_nil _ _), fun p hp => .inr (.inr fun i hi => rfl)⟩)

def twoStored : MdCache := (newCache.updateVolumeMDCache [(twoLbs, leafMem fun _ => true)] 0 2 true false).1.1

def updateBut (i : Nat) : (MdCache × List CacheCall) × CacheRet :=
  twoStored.updateVolumeMDCache [(twoLbs, leafMem fun j => j != i)] 0 2 true false

/-- Without a leaf for the first LB, nothing is reported and its old item stays; without one for the
last, the item of the first is freed with its leaf and once more. -/
theorem update_loses_first_frees_last_twice :
    (twoStored.itemAt 0).isSome = true ∧ (updateBut 0).1.1.itemAt 0 = twoStored.itemAt 0 ∧
      (updateBut 0).1.2 = [⟨.ok, false⟩] ∧ twoStored.nextItem = 2 ∧ (updateBut 1).1.1.freed 2 = 2 := by
  decide

end DiscoClient.MdCache
