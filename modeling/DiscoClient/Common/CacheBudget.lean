import DiscoClient.Common.CacheRedistribution
import Mathlib.Data.List.Induction

namespace DiscoClient
open VolumeCachePool List CpoolManager

/-- A pool is created, if there is memory, or released, or its contents change. -/
inductive CachePoolEvent (D : Type) where
  | create (volumeID capacity : BitVec 64) (mem : Bool)
  | rel (vid : BitVec 64)
  | use (volid : BitVec 64) (contents : CachePool D)

namespace CachePoolEvent
variable {D : Type}

def Valid : CachePoolEvent D → Prop
  | .use _ contents => contents.Contents
  | _ => True

end CachePoolEvent

namespace CpoolManager
variable {D : Type} {cfg : CacheConfig} {m t : CpoolManager D} {e : CachePoolEvent D}

def afterEvent (cfg : CacheConfig) (m : CpoolManager D) : CachePoolEvent D → CpoolManager D
  | .create volumeID capacity mem => (m.createPool cfg volumeID capacity mem).1
  | .rel vid => (m.relPool cfg vid).1
  | .use volid contents => (m.callPool volid fun p => ({ contents with cacheSize := p.cacheSize }, ())).1

def afterEvents (cfg : CacheConfig) (m : CpoolManager D) (es : List (CachePoolEvent D)) : CpoolManager D := es.foldl (afterEvent cfg) m

def tableBefore (m : CpoolManager D) : CachePoolEvent D → Option (CpoolManager D)
  | .create volumeID capacity mem => if mem then some (m.addToTbl (VolumeCachePool.create volumeID capacity)).1 else none
  | .rel vid =>
    match (m.kickMetaCache vid (-1) none).rmCachePoolTbl vid with
    | (_, none) => none
    | (m, some _) => some m
  | .use _ _ => none

theorem afterEvent_of_tableBefore (h : m.tableBefore e = some t) : m.afterEvent cfg e = t.updateCachePoolSize cfg := by
  cases e with
  | create volumeID capacity mem =>
    cases mem with
    | false => cases h
    | true =>
      cases h
      rfl
  | rel vid =>
    rw [afterEvent, relPool]
    rw [tableBefore] at h
    rcases hrm : (m.kickMetaCache vid (-1) none).rmCachePoolTbl vid with ⟨m', _ | v⟩
    · rw [hrm] at h
      cases h
    · rw [hrm] at h
      cases h
      rfl
  | use volid contents => cases h

theorem ready_kick {bound : BitVec 64} (v : VolumeCachePool D) (h : Ready bound v) : Ready bound (v.incRef.call fun p =>
    (CachePool.kickRetry CachePool.maxFreeVolRetry (p.kickMetaCache (-1) none), ())).1 := by
  obtain ⟨⟨⟨pins, hs⟩, -⟩, hle⟩ := h
  obtain ⟨-, hsound, hsize, hempty⟩ := hs.cacheInvalidateVol
  refine ⟨⟨⟨pins, hsound⟩, ?_⟩, fun hsmall => hsize.le.trans (hle hsmall)⟩
  change v.cache.cacheInvalidateVol.lruList.length < 2 ^ 31
  rw [hempty]
  decide

theorem ready_create {bound : BitVec 64} (volumeID capacity : BitVec 64) :
    Ready bound (VolumeCachePool.create volumeID capacity : VolumeCachePool D) :=
  ⟨⟨⟨_, CachePool.Sound.create _⟩, Nat.two_pow_pos 31⟩, fun _ => Nat.le_refl _⟩

theorem ready_tableBefore {bound : BitVec 64} (h : AllPools (Ready bound) m) (ht : m.tableBefore e = some t) :
    AllPools (Ready bound) t := by
  cases e with
  | create volumeID capacity mem =>
    cases mem with
    | false => cases ht
    | true =>
      cases ht
      exact h.addToTbl (ready_create volumeID capacity) fun _ u hu => ⟨hu.contents, hu.size_le⟩
  | rel vid =>
    obtain ⟨hall, -⟩ := (h.kickMetaCache vid ready_kick).rmCachePoolTbl vid
    rw [tableBefore] at ht
    rcases hrm : (m.kickMetaCache vid (-1) none).rmCachePoolTbl vid with ⟨m', _ | v⟩
    · rw [hrm] at ht
      cases ht
    · rw [hrm] at ht hall
      cases ht
      exact hall
  | use volid contents => cases ht

theorem ready_afterEvent {bound : BitVec 64} (h : AllPools (Ready bound) m) (hvalid : e.Valid) (ht : m.tableBefore e = none) :
    AllPools (Ready bound) (m.afterEvent cfg e) := by
  cases e with
  | create volumeID capacity mem =>
    cases mem with
    | false => exact h
    | true => cases ht
  | rel vid =>
    obtain ⟨hall, -⟩ := (h.kickMetaCache vid ready_kick).rmCachePoolTbl vid
    rw [tableBefore] at ht
    rw [afterEvent, relPool]
    rcases hrm : (m.kickMetaCache vid (-1) none).rmCachePoolTbl vid with ⟨m', _ | v⟩
    · rw [hrm] at hall
      exact hall
    · rw [hrm] at ht
      cases ht
  | use volid contents =>
    obtain ⟨⟨pins, hs⟩, hlt⟩ := hvalid
    exact h.findCachePool fun v hv => ⟨⟨⟨pins, ⟨hs.nodup, hs.num, hs.tree, hs.lives⟩⟩, hlt⟩, hv.size_le⟩

theorem ready_afterEvents {es : List (CachePoolEvent D)} (hvalid : ∀ e ∈ es, e.Valid)
    (hfits : ∀ pre e post t, es = pre ++ e :: post → AllPools (Ready cfg.maxCapCacheAllHit) (init.afterEvents cfg pre) →
      (init.afterEvents cfg pre).tableBefore e = some t → BudgetFits cfg t.pools) :
    AllPools (Ready cfg.maxCapCacheAllHit) (init.afterEvents cfg es) := by
  induction es using List.reverseRecOn with
  | nil => exact AllPools.init
  | append_singleton es e ih =>
    have hready := ih (fun e he => hvalid e (mem_append_left _ he)) fun pre e' post t heq =>
      hfits pre e' (post ++ [e]) t (by rw [heq, append_assoc, cons_append])
    rw [afterEvents, foldl_append]
    change AllPools _ ((init.afterEvents cfg es).afterEvent cfg e)
    cases ht : (init.afterEvents cfg es).tableBefore e with
    | none => exact ready_afterEvent hready (hvalid e (mem_append_right _ mem_cons_self)) ht
    | some t =>
      rw [afterEvent_of_tableBefore ht]
      exact (cacheBudget_update_iff (ready_tableBefore hready ht)).2 (hfits es e [] t rfl hready ht)

end CpoolManager

variable {D : Type}

/-- Every redistribution of a run keeps the budget exactly if each finds pools that fit. -/
theorem cache_budget_iff (cfg : CacheConfig) (es : List (CachePoolEvent D)) (hvalid : ∀ e ∈ es, e.Valid) :
    (∀ pre e post t, es = pre ++ e :: post → (CpoolManager.init.afterEvents cfg pre).tableBefore e = some t →
        CacheBudget cfg (CpoolManager.init.afterEvents cfg (pre ++ [e]))) ↔
      ∀ pre e post t, es = pre ++ e :: post → (CpoolManager.init.afterEvents cfg pre).tableBefore e = some t →
        BudgetFits cfg t.pools := by
  have hstep {pre : List (CachePoolEvent D)} {e : CachePoolEvent D} {t : CpoolManager D}
      (hready : CpoolManager.AllPools (Ready cfg.maxCapCacheAllHit) (init.afterEvents cfg pre))
      (ht : (init.afterEvents cfg pre).tableBefore e = some t) :
      CacheBudget cfg (init.afterEvents cfg (pre ++ [e])) ↔ BudgetFits cfg t.pools := by
    rw [afterEvents, foldl_append]
    change CacheBudget cfg ((init.afterEvents cfg pre).afterEvent cfg e) ↔ _
    rw [afterEvent_of_tableBefore ht]
    exact (cacheBudget_update_iff (ready_tableBefore hready ht)).1
  constructor
  · intro h
    have hfits : ∀ pre e post t, es = pre ++ e :: post →
        CpoolManager.AllPools (Ready cfg.maxCapCacheAllHit) (init.afterEvents cfg pre) →
        (init.afterEvents cfg pre).tableBefore e = some t → BudgetFits cfg t.pools :=
      fun pre e post t heq hready ht => (hstep hready ht).mp (h pre e post t heq ht)
    intro pre e post t heq ht
    refine hfits pre e post t heq (ready_afterEvents (fun e he => ?_) fun pre' e' post' t' heq' => ?_) ht
    · exact hvalid e (heq ▸ mem_append_left _ he)
    · exact hfits pre' e' (post' ++ e :: post) t' (by rw [heq, heq', append_assoc, cons_append])
  · intro h pre e post t heq ht
    refine (hstep (ready_afterEvents (fun e he => ?_) fun pre' e' post' t' heq' _ => ?_) ht).mpr
      (h pre e post t heq ht)
    · exact hvalid e (heq ▸ mem_append_left _ he)
    · exact h pre' e' (post' ++ e :: post) t' (by rw [heq, heq', append_assoc, cons_append])

def threeVolumes : List (CachePoolEvent Nat) := [.create 1 4096 true, .create 2 4096 true, .create 3 4096 true]

set_option maxRecDepth 4000 in
/-- After the third one the second volume has a block again, and the third one all that fits into its size. -/
theorem cache_budget_third_volume :
    (CpoolManager.init.afterEvents ⟨1, 4096⟩ threeVolumes).pools.map (fun v => v.cache.cacheSize) = [1, 1, 2 ^ 32 - 1] ∧
      ¬ CacheBudget ⟨1, 4096⟩ (CpoolManager.init.afterEvents ⟨1, 4096⟩ threeVolumes) := by
  have hsizes : (init.afterEvents ⟨1, 4096⟩ threeVolumes).pools.map (fun v => v.cache.cacheSize) =
      [1, 1, 2 ^ 32 - 1] := by decide
  refine ⟨hsizes, fun h => ?_⟩
  have htotal := h.total
  rw [sumSizes, hsizes] at htotal
  exact absurd htotal (by decide)

def heldEvents : List (CachePoolEvent Nat) :=
  [.create 1 4096 true, .use 1 ((CachePool.create 1).linkLeaf 7 70), .create 2 40960 true]

theorem heldEvents_valid : ∀ e ∈ heldEvents, e.Valid := by
  have hone : CachePool.Sound ((CachePool.create 1 : CachePool Nat).linkLeaf 7 70) fun _ => 0 :=
    (CachePool.Sound.create 1).of_stored ((CachePool.Sound.create 1).stored_linkLeaf rfl 70)
      ((CachePool.Sound.create 1).lives.linkLeaf 7 70)
  rw [heldEvents, forall_mem_cons, forall_mem_cons, forall_mem_singleton]
  exact ⟨trivial, ⟨⟨_, hone⟩, by decide⟩, trivial⟩

theorem smallFits_nil (bound : BitVec 64) (total : Nat) : SmallFits bound total ([] : List (VolumeCachePool Nat)) :=
  fun _ _ hv => by cases hv

set_option maxRecDepth 4000 in
/-- A small volume that has an entry keeps its block, and a large one of ten blocks gets the other four. -/
theorem cache_budget_two_volumes : CacheBudget ⟨5, 4096⟩ (CpoolManager.init.afterEvents ⟨5, 4096⟩ heldEvents) ∧
    (CpoolManager.init.afterEvents ⟨5, 4096⟩ heldEvents).pools.map (fun v => v.cache.cacheSize) = [1, 4] := by
  refine ⟨(cache_budget_iff ⟨5, 4096⟩ heldEvents heldEvents_valid).mpr ?_ (heldEvents.take 2) (.create 2 40960 true) [] _ rfl
    rfl, by decide⟩
  intro pre e post t heq ht
  rcases pre with _ | ⟨a, _ | ⟨b, _ | ⟨c, pre⟩⟩⟩
  · obtain ⟨rfl, -⟩ := List.cons.inj heq
    obtain rfl := Option.some.inj ht
    refine ⟨by decide, (smallFits_cons _ _ _ _).mpr ⟨by decide, smallFits_nil _ _⟩, ?_⟩
    rw [LargeFits, if_pos (by decide)]
    decide
  · obtain ⟨rfl, hrest⟩ := List.cons.inj heq
    obtain ⟨rfl, -⟩ := List.cons.inj hrest
    cases ht
  · obtain ⟨rfl, hrest⟩ := List.cons.inj heq
    obtain ⟨rfl, hlast⟩ := List.cons.inj hrest
    obtain ⟨rfl, -⟩ := List.cons.inj hlast
    obtain rfl := Option.some.inj ht
    refine ⟨by decide, (smallFits_cons _ _ _ _).mpr ⟨by decide, (smallFits_cons _ _ _ _).mpr ⟨by decide, smallFits_nil _ _⟩⟩, ?_⟩
    rw [LargeFits, if_pos (by decide)]
    decide
  · simp [heldEvents] at heq

end DiscoClient
