import DiscoClient.Common.CacheTable
import Mathlib.Data.List.Induction

namespace DiscoClient
open List

inductive CacheMgrCall (D : Type) where
  | create (volumeID capacity : BitVec 64) (mem : Bool)
  | rel (vid : BitVec 64)
  | find (volid : BitVec 64) (start count : Nat)
  | put (volid : BitVec 64) (basket : List (Option Nat))
  | update (volid : BitVec 64) (mem : CachePool.UpdateMem) (start : Nat) (items : List D)
  | invalidate (op : CpoolManager.InvalOp D)

namespace CpoolManager
variable {D R : Type} {cfg : CacheConfig} {m : CpoolManager D} {volid : BitVec 64} {v : VolumeCachePool D}

def step (cfg : CacheConfig) (m : CpoolManager D) : CacheMgrCall D → CpoolManager D
  | .create volumeID capacity mem => (m.createPool cfg volumeID capacity mem).1
  | .rel vid => (m.relPool cfg vid).1
  | .find volid start count => (m.cacheFind volid start count).1
  | .put volid basket => (m.cachePut volid basket).1
  | .update volid mem start items => (m.cacheUpdate volid mem start items).1
  | .invalidate op => m.cacheInvalidate op

def run (cfg : CacheConfig) (m : CpoolManager D) (calls : List (CacheMgrCall D)) : CpoolManager D := calls.foldl (step cfg) m

/-- Pools keep their counts, a new one has none, releasing one does not wait, and creating one that exists
changes nothing of it. -/
structure RefsKept (cfg : CacheConfig) (m : CpoolManager D) (c : CacheMgrCall D) : Prop where
  kept : ∀ volid v w, m.poolOf volid = some v → (m.step cfg c).poolOf volid = some w → w.refCnt = v.refCnt
  fresh : ∀ volid w, m.poolOf volid = none → (m.step cfg c).poolOf volid = some w → w.refCnt = 0
  released : ∀ vid r, c = .rel vid → (m.relPool cfg vid).2 = some r → r = ⟨0, true⟩
  existing : ∀ volumeID capacity mem v, c = .create volumeID capacity mem → m.poolOf volumeID = some v →
    (m.step cfg c).poolOf volumeID = some v

def Unreferenced (m : CpoolManager D) : Prop := AllPools (fun v => v.refCnt = 0) m

theorem refCnt_call_incRef (v : VolumeCachePool D) (f : CachePool D → CachePool D × R) : (v.incRef.call f).1.refCnt = v.refCnt :=
  Int.add_sub_cancel _ _

namespace Unreferenced

theorem callPool (h : Unreferenced m) (f : CachePool D → CachePool D × R) : Unreferenced (m.callPool volid f).1 :=
  AllPools.findCachePool h fun v hv => (refCnt_call_incRef v f).trans hv

theorem kickMetaCache (h : Unreferenced m) (volid : BitVec 64) (mdCmpFn : Option (D → Bool)) :
    Unreferenced (m.kickMetaCache volid (-1) mdCmpFn) :=
  AllPools.kickMetaCache h volid fun v hv => (refCnt_call_incRef v _).trans hv

theorem cacheInvalidate (h : Unreferenced m) (op : InvalOp D) : Unreferenced (m.cacheInvalidate op) := by
  cases op with
  | lb volid start count => exact h.callPool _
  | volid volid => exact h.kickMetaCache volid none
  | condChk mdCmpFn =>
    cases mdCmpFn with
    | none => exact h
    | some mdCmpFn => exact h.kickMetaCache (-1) (some mdCmpFn)
  | hb => exact h

end Unreferenced

def idAndRefs (v : VolumeCachePool D) : BitVec 64 × Int := (v.volid, v.refCnt)

theorem idAndRefs_allocSmallVol (smallVolSize : BitVec 64) (acc : Int × Int) (v : VolumeCachePool D) :
    idAndRefs (v.allocSmallVol smallVolSize acc).2 = idAndRefs v := by
  rw [VolumeCachePool.allocSmallVol]
  split_ifs <;> exact Prod.ext rfl (Int.add_sub_cancel _ _)

theorem idAndRefs_allocLargeVol (maxCitems : Int) (smallVolSize : BitVec 64) (need left : Int) (v : VolumeCachePool D) :
    idAndRefs (v.allocLargeVol maxCitems smallVolSize need left).2 = idAndRefs v := by
  rw [VolumeCachePool.allocLargeVol]
  split_ifs <;> exact Prod.ext rfl (Int.add_sub_cancel _ _)

theorem idAndRefs_updateCachePoolSize (cfg : CacheConfig) (m : CpoolManager D) :
    (m.updateCachePoolSize cfg).cpoolTbl.map (List.map idAndRefs) = m.cpoolTbl.map (List.map idAndRefs) := by
  change (mapAccum (mapAccum _) _ (mapAccum (mapAccum _) _ m.cpoolTbl).2).2.map _ = _
  rw [MapAccum.map_mapAccum _ fun s l => MapAccum.map_mapAccum s (fun s v => idAndRefs_allocLargeVol _ _ _ s v) l,
    MapAccum.map_mapAccum _ fun s l => MapAccum.map_mapAccum s (fun s v => idAndRefs_allocSmallVol _ s v) l]

theorem idAndRefs_poolOf (m : CpoolManager D) (volid : BitVec 64) : (m.poolOf volid).map idAndRefs =
    (((m.cpoolTbl.map (List.map idAndRefs))[volid.toNat % cachePoolHsize]?).getD []).find? fun e => e.1 = volid := by
  rw [List.getElem?_map, poolOf, head]
  cases m.cpoolTbl[volid.toNat % cachePoolHsize]? with
  | none => rfl
  | some l =>
    rw [Option.map_some, Option.getD_some, Option.getD_some, List.find?_map]
    rfl

section

variable (h : Unreferenced m)
include h

theorem Unreferenced.updateCachePoolSize (cfg : CacheConfig) : Unreferenced (m.updateCachePoolSize cfg) := by
  intro w hw
  have hmem : idAndRefs w ∈ ((m.updateCachePoolSize cfg).cpoolTbl.map (List.map idAndRefs)).flatten := by
    rw [← map_flatten]
    exact mem_map_of_mem hw
  rw [idAndRefs_updateCachePoolSize, ← map_flatten] at hmem
  obtain ⟨v, hv, heq⟩ := mem_map.mp hmem
  exact (congrArg Prod.snd heq).symm.trans (h v hv)

theorem Unreferenced.create (hv : v.refCnt = 0) (hnew : m.poolOf v.volid = none) :
    Unreferenced (m.addToTbl v).1 :=
  AllPools.addToTbl h hv fun hsome => by
    rw [hnew] at hsome
    cases hsome

theorem Unreferenced.relPool (cfg : CacheConfig) (vid : BitVec 64) :
    Unreferenced (m.relPool cfg vid).1 ∧ ∀ r, (m.relPool cfg vid).2 = some r → r = ⟨0, true⟩ := by
  obtain ⟨hall, hremoved⟩ := AllPools.rmCachePoolTbl (h.kickMetaCache vid none) vid
  rw [CpoolManager.relPool]
  rcases hrm : (m.kickMetaCache vid (-1) none).rmCachePoolTbl vid with ⟨m', _ | v⟩
  · rw [hrm] at hall
    exact ⟨hall, fun r hr => by cases hr⟩
  · rw [hrm] at hall hremoved
    refine ⟨Unreferenced.updateCachePoolSize hall cfg, fun r hr => ?_⟩
    cases hr
    rw [freeCachePool, if_pos (hremoved v rfl)]

theorem Unreferenced.step {c : CacheMgrCall D}
    (hnew : ∀ volumeID capacity, c = .create volumeID capacity true → m.poolOf volumeID = none) :
    Unreferenced (m.step cfg c) := by
  cases c with
  | create volumeID capacity mem =>
    rw [CpoolManager.step, createPool]
    cases mem with
    | false => exact h
    | true => exact (h.create rfl (hnew volumeID capacity rfl)).updateCachePoolSize cfg
  | rel vid => exact (h.relPool cfg vid).1
  | find volid start count => exact h.callPool _
  | put volid basket => exact h.callPool _
  | update volid mem start items => exact h.callPool _
  | invalidate op => exact h.cacheInvalidate op

theorem Unreferenced.refsKept {c : CacheMgrCall D}
    (hnew : ∀ volumeID capacity, c = .create volumeID capacity true → m.poolOf volumeID = none) : RefsKept cfg m c where
  kept volid v w hv hw := (h.step hnew w (mem_pools_of_poolOf hw)).trans (h v (mem_pools_of_poolOf hv)).symm
  fresh volid w _ hw := h.step hnew w (mem_pools_of_poolOf hw)
  released vid r _ hr := (h.relPool cfg vid).2 r hr
  existing volumeID capacity mem v hc hv := by
    subst hc
    cases mem with
    | false => exact hv
    | true =>
      rw [hnew volumeID capacity rfl] at hv
      cases hv

end

theorem findCachePoolNolock_of_find? {k : VolumeCachePool D → VolumeCachePool D × R} {l : List (VolumeCachePool D)}
    (hv : l.find? (fun v => v.volid = volid) = some v) (hk : (k v.incRef).1.volid = volid) :
    ∃ l', findCachePoolNolock volid k l = some (l', (k v.incRef).2) ∧
      l'.find? (fun v => v.volid = volid) = some (k v.incRef).1 := by
  induction l with
  | nil => cases hv
  | cons u l ih =>
    rw [findCachePoolNolock]
    by_cases hu : u.volid = volid
    · rw [List.find?_cons_of_pos (by simpa using hu)] at hv
      obtain rfl := Option.some.inj hv
      rw [if_pos hu]
      exact ⟨_, rfl, List.find?_cons_of_pos (by simpa using hk)⟩
    · rw [List.find?_cons_of_neg (by simpa using hu)] at hv
      obtain ⟨l', hl', hfind⟩ := ih hv
      rw [if_neg hu, hl']
      refine ⟨_, rfl, ?_⟩
      rw [List.find?_cons_of_neg (by simpa using hu)]
      exact hfind

theorem poolOf_setHead (hv : m.poolOf volid = some v) (l : List (VolumeCachePool D)) :
    (m.setHead volid l).poolOf volid = l.find? fun v => v.volid = volid := by
  have hlt : volid.toNat % cachePoolHsize < m.cpoolTbl.length := by
    by_contra hge
    rw [poolOf, head, List.getElem?_eq_none (by omega)] at hv
    cases hv
  rw [poolOf, head, setHead, List.getElem?_set_self hlt]
  rfl

theorem refCnt_create_existing (cfg : CacheConfig) {volumeID : BitVec 64} (hv : m.poolOf volumeID = some v)
    (capacity : BitVec 64) :
    ∃ w, (m.step cfg (.create volumeID capacity true)).poolOf volumeID = some w ∧ w.refCnt = v.refCnt + 1 := by
  have hid : v.volid = volumeID := by simpa using List.find?_some hv
  obtain ⟨l, hl, hfind⟩ := findCachePoolNolock_of_find? (k := fun found => (found, ())) hv hid
  have hadd : (m.addToTbl (VolumeCachePool.create volumeID capacity)).1 = m.setHead volumeID l := by
    simp only [addToTbl, VolumeCachePool.create, findCachePool, hl]
  have hpool : ((m.step cfg (.create volumeID capacity true)).poolOf volumeID).map idAndRefs = some (volumeID, v.refCnt + 1) := by
    rw [CpoolManager.step, createPool, if_pos rfl, idAndRefs_poolOf, idAndRefs_updateCachePoolSize, ← idAndRefs_poolOf, hadd,
      poolOf_setHead hv, hfind, ← hid]
    rfl
  obtain ⟨w, hw, heq⟩ := Option.map_eq_some_iff.mp hpool
  exact ⟨w, hw, congrArg Prod.snd heq⟩

theorem Unreferenced.run (h : Unreferenced m) {calls : List (CacheMgrCall D)}
    (hnew : ∀ pre volumeID capacity post, calls = pre ++ .create volumeID capacity true :: post →
      (m.run cfg pre).poolOf volumeID = none) : Unreferenced (m.run cfg calls) := by
  induction calls using List.reverseRecOn with
  | nil => exact h
  | append_singleton calls c ih =>
    rw [CpoolManager.run, foldl_append]
    refine (ih fun pre volumeID capacity post heq => ?_).step fun volumeID capacity hc => ?_
    · exact hnew pre volumeID capacity (post ++ [c]) (by rw [heq, append_assoc, cons_append])
    · exact hnew calls volumeID capacity [] (by rw [hc])

end CpoolManager

variable {D : Type}

/-- Over any calls, pools keep their references exactly if no pool is created that exists and for which memory is
found. -/
theorem pool_references_balanced_iff (cfg : CacheConfig) (calls : List (CacheMgrCall D)) :
    (∀ pre c post, calls = pre ++ c :: post → CpoolManager.RefsKept cfg (CpoolManager.init.run cfg pre) c) ↔
      ∀ pre volumeID capacity post, calls = pre ++ .create volumeID capacity true :: post →
        (CpoolManager.init.run cfg pre).poolOf volumeID = none := by
  constructor
  · intro h pre volumeID capacity post heq
    by_contra hsome
    obtain ⟨v, hv⟩ := Option.ne_none_iff_exists'.mp hsome
    obtain ⟨w, hw, hcount⟩ := CpoolManager.refCnt_create_existing cfg hv capacity
    have hkept := (h pre _ post heq).kept volumeID v w hv hw
    omega
  · intro h pre c post heq
    have hrun : CpoolManager.Unreferenced (CpoolManager.init.run cfg pre) := by
      refine CpoolManager.Unreferenced.run CpoolManager.AllPools.init fun pre' volumeID capacity post' heq' => ?_
      exact h pre' volumeID capacity (post' ++ c :: post) (by rw [heq, heq', append_assoc, cons_append])
    exact hrun.refsKept fun volumeID capacity hc => h pre volumeID capacity post (by rw [heq, hc])

def createdOnce : CpoolManager Nat := CpoolManager.init.run ⟨1, 4096⟩ [.create 1 4096 true]

set_option maxRecDepth 4000 in
/-- Creating the pool of a volume again takes a reference that nobody gives back, and its release waits for it. -/
theorem pool_created_twice_waits :
    ¬ CpoolManager.RefsKept ⟨1, 4096⟩ createdOnce (.create 1 4096 true) ∧
      ((createdOnce.step ⟨1, 4096⟩ (.create 1 4096 true)).relPool ⟨1, 4096⟩ 1).2 = some ⟨30, false⟩ := by
  refine ⟨fun h => ?_, by decide⟩
  have hbefore : (createdOnce.poolOf 1).map VolumeCachePool.refCnt = some 0 := by decide
  obtain ⟨v, hv, hzero⟩ := Option.map_eq_some_iff.mp hbefore
  obtain ⟨w, hw, hcount⟩ := CpoolManager.refCnt_create_existing ⟨1, 4096⟩ hv 4096
  have hkept := h.kept 1 v w hv hw
  omega

end DiscoClient
