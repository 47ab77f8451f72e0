import DiscoClient.Space.CachedPool
import DiscoClient.Lib.GuardedMachine

namespace DiscoClient.CachedPool
open SmCachePool SpacePool List
variable {s : CachedPool} {mem : AllocMem} {chunk chunk' : FsChunk} {rest : List FsChunk} {a : AsChunk} {k lbS n remain : Nat}

structure Good (s : CachedPool) : Prop where
  pool : s.pool.Inv
  length : s.ids.length = s.pool.allocChunkPool.length
  lt : ∀ id ∈ s.ids, id < s.nextId
  cache : s.cpool.Sound
  range : ∀ a ∈ s.pool.allocChunkPool, a.lbLen < 2 ^ 31 ∧ a.lbidS + a.lbLen ≤ 2 ^ 64
  agrees : s.Agrees

theorem good_init (volumeID : Nat) : Good (init volumeID) where
  pool := SpacePool.inv_init volumeID
  length := rfl
  lt _ h := absurd h not_mem_nil
  cache := Sound.initCache
  range _ h := absurd h not_mem_nil
  agrees _ := rfl

theorem allocs_takeFrom (h : s.ids.length = s.pool.allocChunkPool.length) :
    (s.takeFrom chunk rest a).allocs = s.allocs ++ [(s.nextId, a)] := by
  rw [allocs, allocs, takeFrom, SpacePool.takeFrom, zip_append h]
  rfl

theorem newest_takeFrom (h : s.ids.length = s.pool.allocChunkPool.length) (lb : Nat) :
    (s.takeFrom chunk rest a).newest lb = if a.Covers lb then some s.nextId else s.newest lb := by
  rw [newest, newest, allocs_takeFrom h, reverse_append, reverse_singleton, singleton_append, List.find?_cons]
  split_ifs with hcov
  · rw [decide_eq_true hcov]
    rfl
  · rw [decide_eq_false hcov]

theorem mem_ids_of_newest {lb id : Nat} (h : s.newest lb = some id) : id ∈ s.ids := by
  obtain ⟨c, hc, rfl⟩ := Option.map_eq_some_iff.mp h
  have hmem := mem_of_find?_eq_some hc
  exact (of_mem_zip (mem_reverse.mp hmem)).1

/-- A round puts a chunk with n LBs into the list; what the cache must say then is left open. -/
theorem Good.takeFrom (h : Good s) (ht : Takes mem k lbS n s.pool.spaceChunkPool chunk chunk' rest a)
    {a' : AsChunk} (ha : a'.lbidS = a.lbidS ∧ a'.lbLen = a.lbLen) (hlt : n < 2 ^ 31) (hend : lbS + n ≤ 2 ^ 64) {cpool : SmCachePool Nat} (hcache : cpool.Sound)
    (hagrees : ∀ lb, cpool.chunkOf lb = if a'.Covers lb then some s.nextId else s.newest lb) :
    Good { s.takeFrom chunk' rest a' with cpool := cpool } where
  pool := h.pool.takeFrom ht ha.2
  length := by
    change (s.ids ++ [s.nextId]).length = (s.pool.allocChunkPool ++ [a']).length
    rw [length_append, length_append, h.length]
    rfl
  lt id hid := by
    rcases mem_append.mp hid with hid | hid
    · exact Nat.lt_succ_of_lt (h.lt id hid)
    · rw [mem_singleton.mp hid]
      exact Nat.lt_succ_self _
  cache := hcache
  range c hc := by
    rcases mem_append.mp hc with hc | hc
    · exact h.range c hc
    · rw [mem_singleton.mp hc, ha.1, ha.2, ht.carved.given]
      exact ⟨hlt, hend⟩
  agrees lb := (hagrees lb).trans (newest_takeFrom h.length lb).symm

theorem Good.round (h : Good s) (ht : Takes mem k lbS n s.pool.spaceChunkPool chunk chunk' rest a) (hlt : n < 2 ^ 31)
    (hend : lbS + n ≤ 2 ^ 64) :
    Good ((s.takeFrom chunk' rest a.commitChunk).addAschunk s.nextId a.commitChunk) := by
  obtain ⟨hsound, hchunk⟩ := h.cache.addAschunk s.nextId ⟨lbS, n, hlt, hend⟩
  have hkey : a.commitChunk.lbidS = lbS ∧ a.commitChunk.lbLen = n := by
    rw [ht.carved.given]
    exact ⟨rfl, rfl⟩
  have hcpool : s.cpool.addAschunk s.nextId a.commitChunk.lbidS a.commitChunk.lbLen = s.cpool.addAschunk s.nextId lbS n := by
    rw [hkey.1, hkey.2]
  rw [CachedPool.addAschunk, show (s.takeFrom chunk' rest a.commitChunk).cpool = s.cpool from rfl, hcpool]
  have hsame : a.commitChunk.lbidS = a.lbidS ∧ a.commitChunk.lbLen = a.lbLen := ⟨rfl, rfl⟩
  refine h.takeFrom ht hsame hlt hend hsound fun lb => (hchunk lb).trans ?_
  rw [h.agrees]
  refine if_congr ?_ rfl rfl
  rw [AsChunk.Covers, hkey.1, hkey.2]
  rfl

theorem Good.itemless (h : Good s) (ht : Takes mem k lbS n s.pool.spaceChunkPool chunk chunk' rest a) (hlt : n < 2 ^ 31)
    (hend : lbS + n ≤ 2 ^ 64) :
    ((s.takeFrom chunk' rest a).Agrees ↔ n = 0) ∧ (n = 0 → Good (s.takeFrom chunk' rest a)) := by
  have hcov (lb : Nat) : a.Covers lb ↔ lbS ≤ lb ∧ lb < lbS + n := by
    rw [ht.carved.given]
    rfl
  have hgood (hzero : n = 0) : Good (s.takeFrom chunk' rest a) := by
    refine h.takeFrom ht ⟨rfl, rfl⟩ hlt hend h.cache fun lb => ?_
    rw [if_neg (by rw [hcov]; omega)]
    exact h.agrees lb
  refine ⟨⟨fun hag => ?_, fun hzero => (hgood hzero).agrees⟩, hgood⟩
  by_contra hn
  -- the first LB of the chunk should be mapped to it, and the cache does not know its name
  have hfirst := hag lbS
  rw [newest_takeFrom h.length, if_pos ((hcov lbS).mpr ⟨Nat.le_refl _, by omega⟩)] at hfirst
  have hold := (h.agrees lbS).symm.trans hfirst
  exact Nat.lt_irrefl _ (h.lt _ (mem_ids_of_newest hold))

theorem itemsFound_iff (ht : Takes mem k lbS n (chunk :: rest) chunk chunk' rest a) :
    ItemsFound mem k remain (chunk :: rest) ↔
      if mem.mdItemAt k then chunk.chunkLen < remain → ItemsFound mem (k + 1) (remain - chunk.chunkLen) rest
      else chunk.taken remain = 0 :=
  ⟨fun hf => hf ht.gives.1 ht.gives.2, fun hf _ _ => hf⟩

theorem agrees_of_run {md : SpaceMetadata} {out : CachedPool × SpaceMetadata × AllocRet}
    (hrun : RoundsRun rounds mem k lbS remain s md out) (h : Good s) (hlt : remain < 2 ^ 31) (hend : lbS + remain ≤ 2 ^ 64) :
    (out.1.Agrees ↔ ItemsFound mem k remain s.pool.spaceChunkPool) ∧
      (ItemsFound mem k remain s.pool.spaceChunkPool → Good out.1) := by
  induction hrun with
  | @empty _ _ _ s _ hpool =>
    change s.pool.spaceChunkPool = [] at hpool
    rw [hpool]
    exact ⟨iff_of_true h.agrees trivial, fun _ => h⟩
  | @stuck k _ remain s _ chunk rest hpool hnot =>
    change s.pool.spaceChunkPool = chunk :: rest at hpool
    have hfound : ItemsFound mem k remain (chunk :: rest) := fun hmem hfree => absurd ⟨hmem, hfree⟩ hnot
    rw [hpool]
    exact ⟨iff_of_true h.agrees hfound, fun _ => h⟩
  | @more k lbS remain s md chunk chunk' rest a out ht hempty hmore hitem hrun ih =>
    change Takes mem k lbS chunk.chunkLen s.pool.spaceChunkPool chunk chunk' rest a at ht
    have hrest : ((s.takeFrom chunk' rest a.commitChunk).addAschunk s.nextId a.commitChunk).pool.spaceChunkPool = rest :=
      if_pos hempty
    have hloop := ih (h.round ht (by omega) (by omega)) (by omega) (by omega)
    rw [ht.pool, itemsFound_iff ⟨rfl, ht.gives, ht.carved⟩, if_pos hitem, forall_prop_of_true hmore, ← hrest]
    exact hloop
  | @last k lbS remain s md chunk chunk' rest a ht hchunk hitem =>
    change Takes mem k lbS remain s.pool.spaceChunkPool chunk chunk' rest a at ht
    have hgood := h.round ht hlt hend
    rw [ht.pool, itemsFound_iff ⟨rfl, ht.gives, ht.carved⟩, if_pos hitem]
    exact ⟨iff_of_true hgood.agrees fun hlt => absurd hlt (Nat.not_lt.mpr hchunk), fun _ => hgood⟩
  | @itemless k lbS remain s md chunk chunk' rest a ht hitem =>
    change Takes mem k lbS (chunk.taken remain) s.pool.spaceChunkPool chunk chunk' rest a at ht
    have hn : chunk.taken remain ≤ remain := Nat.min_le_left _ _
    rw [ht.pool, itemsFound_iff ⟨rfl, ht.gives, ht.carved⟩, if_neg (by rw [hitem]; exact Bool.false_ne_true)]
    exact h.itemless ht (by omega) (by omega)

theorem Good.allocSpace (h : Good s) (mem : AllocMem) (r : LbRange) (md : SpaceMetadata) :
    ((s.allocSpace md r.start r.len mem).1.Agrees ↔
        (mem.array = true → ItemsFound mem 0 r.len s.pool.spaceChunkPool)) ∧
      ((mem.array = true → ItemsFound mem 0 r.len s.pool.spaceChunkPool) →
        Good (s.allocSpace md r.start r.len mem).1) := by
  by_cases harr : mem.array = true
  · rw [forall_prop_of_true harr]
    exact agrees_of_run (allocSpaceOn_run rounds md r.start h.pool.settled (r.len_lt.trans (by decide)) harr) h r.len_lt r.end_le
  · rw [CachedPool.allocSpace, allocSpaceOn, if_neg harr]
    exact ⟨iff_of_true h.agrees fun hm => absurd hm harr, fun _ => h⟩

theorem Good.map_snd_allocs (h : Good s) : s.allocs.map Prod.snd = s.pool.allocChunkPool :=
  map_snd_zip h.length.ge

theorem Good.remove_lists (h : Good s) {lbidS : Nat} {before after : List (Nat × AsChunk)} {c : Nat × AsChunk}
    (hsplit : FirstMatch.split (·.2.lbidS == lbidS) s.allocs = some (before, c, after)) :
    (s.pool.removeAllocspace lbidS).allocChunkPool = (before ++ after).map Prod.snd := by
  have hpool := FirstMatch.split_map (p := fun a : AsChunk => a.lbidS == lbidS) Prod.snd s.allocs
  rw [h.map_snd_allocs, hsplit] at hpool
  simp only [SpacePool.removeAllocspace, hpool, Option.map_some, map_append]

theorem find_without (before after : List (Nat × AsChunk)) (c : Nat × AsChunk) {lb : Nat} (hc : ¬c.2.Covers lb) :
    ((before ++ c :: after).reverse.find? fun d => d.2.Covers lb) =
      (before ++ after).reverse.find? fun d => d.2.Covers lb := by
  have hcons : (c :: after).reverse.find? (fun d => decide (d.2.Covers lb)) =
      after.reverse.find? fun d => decide (d.2.Covers lb) := by
    rw [reverse_cons, List.find?_append, List.find?_cons_of_neg (by simpa using hc), List.find?_nil, Option.or_none]
  rw [reverse_append, reverse_append, List.find?_append, List.find?_append, hcons]

theorem Good.removeAllocspace (h : Good s) (lbidS : Nat) :
    ((s.removeAllocspace lbidS).Agrees ↔ s.RemovesApart lbidS) ∧
      (s.RemovesApart lbidS → Good (s.removeAllocspace lbidS)) := by
  cases hsplit : FirstMatch.split (·.2.lbidS == lbidS) s.allocs with
  | none =>
    have hkeep : s.removeAllocspace lbidS = s := by simp only [CachedPool.removeAllocspace, hsplit]
    have hapart : s.RemovesApart lbidS := fun _ _ _ hfound => by rw [hsplit] at hfound; cases hfound
    rw [hkeep]
    exact ⟨iff_of_true h.agrees hapart, fun _ => h⟩
  | some cut =>
    obtain ⟨before, c, after⟩ := cut
    obtain ⟨hlist, -, -⟩ := FirstMatch.of_split_eq_some hsplit
    have hstep : s.removeAllocspace lbidS =
        { s with
          pool := s.pool.removeAllocspace lbidS
          ids := (before ++ after).map Prod.fst
          cpool := s.cpool.rmAschunk c.2.lbidS c.2.lbLen } := by
      simp only [CachedPool.removeAllocspace, hsplit]
    have hpool := h.remove_lists hsplit
    have hmem : c.2 ∈ s.pool.allocChunkPool := by
      rw [← h.map_snd_allocs, hlist]
      exact mem_map_of_mem (mem_append_right _ mem_cons_self)
    obtain ⟨hlt, hend⟩ := h.range _ hmem
    have hrm := h.cache.rmAschunk ⟨c.2.lbidS, c.2.lbLen, hlt, hend⟩
    have hchunk (lb : Nat) : (s.cpool.rmAschunk c.2.lbidS c.2.lbLen).chunkOf lb =
        if c.2.Covers lb then none else s.cpool.chunkOf lb := (hrm.2 lb).trans (if_congr Iff.rfl rfl rfl)
    have hids : (s.removeAllocspace lbidS).ids = (before ++ after).map Prod.fst := by rw [hstep]
    have hpool' : (s.removeAllocspace lbidS).pool = s.pool.removeAllocspace lbidS := by rw [hstep]
    have hcpool : (s.removeAllocspace lbidS).cpool = s.cpool.rmAschunk c.2.lbidS c.2.lbLen := by rw [hstep]
    have hallocs : (s.removeAllocspace lbidS).allocs = before ++ after := by
      rw [allocs, hids, hpool', hpool, ← zip_of_prod rfl rfl]
    have hagrees : (s.removeAllocspace lbidS).Agrees ↔ s.RemovesApart lbidS := by
      have hlb (lb : Nat) : (s.removeAllocspace lbidS).cpool.chunkOf lb = (s.removeAllocspace lbidS).newest lb ↔
          ∀ d ∈ before ++ after, ¬(c.2.Covers lb ∧ d.2.Covers lb) := by
        rw [hcpool, hchunk, newest, hallocs]
        by_cases hcov : c.2.Covers lb
        · rw [if_pos hcov, eq_comm, Option.map_eq_none_iff, List.find?_eq_none]
          simp only [mem_reverse, decide_eq_true_eq, hcov, true_and]
        · rw [if_neg hcov, h.agrees lb, newest, hlist, find_without _ _ _ hcov]
          exact iff_of_true rfl fun d _ hd => hcov hd.1
      rw [Agrees, forall_congr' hlb]
      constructor
      · intro hall b' c' a' hfound d hd lb
        obtain ⟨rfl, rfl, rfl⟩ : before = b' ∧ c = c' ∧ after = a' := by simpa [hsplit] using hfound
        exact hall lb d hd
      · exact fun hapart lb d hd => hapart before c after hsplit d hd lb
    refine ⟨hagrees, fun hapart => ?_⟩
    have hsub (d : Nat × AsChunk) (hd : d ∈ before ++ after) : d ∈ s.allocs := by
      rw [hlist]
      rcases mem_append.mp hd with hd | hd
      · exact mem_append_left _ hd
      · exact mem_append_right _ (mem_cons_of_mem _ hd)
    refine ⟨?_, ?_, fun id hid => ?_, ?_, fun a ha => ?_, hagrees.mpr hapart⟩
    · rw [hpool']
      exact h.pool.removeAllocspace lbidS
    · rw [hids, hpool', hpool, length_map, length_map]
    · rw [hids] at hid
      obtain ⟨d, hd, rfl⟩ := mem_map.mp hid
      rw [hstep]
      exact h.lt _ (of_mem_zip (hsub d hd)).1
    · rw [hcpool]
      exact hrm.1
    · rw [hpool', hpool] at ha
      obtain ⟨d, hd, rfl⟩ := mem_map.mp ha
      exact h.range _ (of_mem_zip (hsub d hd)).2

theorem quiet_allocChunkPool (pool : SpacePool) {e : SpacePool.Event} (he : Quiet e) :
    ∃ f : AsChunk → AsChunk, (∀ a, (f a).lbidS = a.lbidS ∧ (f a).lbLen = a.lbLen) ∧
      (pool.step e).allocChunkPool = pool.allocChunkPool.map f := by
  cases e with
  | alloc | remove => exact absurd he id
  | flush => exact ⟨fun a => a.flushChunk.1, fun _ => ⟨rfl, rfl⟩, rfl⟩
  | add | invalPool | reportUnuse | cleanup | requesting => exact ⟨id, fun _ => ⟨rfl, rfl⟩, (map_id _).symm⟩
  | invalChunk chunkID =>
    refine ⟨id, fun _ => ⟨rfl, rfl⟩, ?_⟩
    rw [map_id, SpacePool.step, SpacePool.invalFschunk]
    split
    · rfl
    · split <;> rfl

theorem Good.other (h : Good s) {e : SpacePool.Event} (he : Quiet e) : Good { s with pool := s.pool.step e } := by
  obtain ⟨f, hf, hlist⟩ := quiet_allocChunkPool s.pool he
  refine ⟨h.pool.step e, ?_, h.lt, h.cache, fun a ha => ?_, fun lb => ?_⟩
  · rw [hlist, length_map]
    exact h.length
  · rw [hlist] at ha
    obtain ⟨b, hb, rfl⟩ := mem_map.mp ha
    rw [(hf b).1, (hf b).2]
    exact h.range b hb
  · have hcov (c : Nat × AsChunk) : (f c.2).Covers lb ↔ c.2.Covers lb := by
      rw [AsChunk.Covers, (hf c.2).1, (hf c.2).2]
      rfl
    have hnewest : newest { s with pool := s.pool.step e } lb = s.newest lb := by
      rw [newest, newest, allocs, allocs, hlist, zip_map_right, ← map_reverse, List.find?_map, Option.map_map]
      simp only [Function.comp_def, Prod.map, hcov, id]
    rw [hnewest]
    exact h.agrees lb

theorem Good.step (h : Good s) (e : Event) :
    ((s.step e).Agrees ↔ s.Fit e) ∧ (s.Fit e → Good (s.step e)) := by
  cases e with
  | alloc r mem =>
    rw [CachedPool.step, Fit]
    by_cases hle : r.len ≤ s.pool.fsSizeRemaining
    · rw [if_pos hle, forall_prop_of_true hle]
      exact h.allocSpace mem r .init
    · rw [if_neg hle]
      exact ⟨iff_of_true h.agrees fun hl => absurd hl hle, fun _ => h⟩
  | remove lbidS => exact h.removeAllocspace lbidS
  | other e he => exact ⟨iff_of_true (h.other he).agrees trivial, fun _ => h.other he⟩

def machine : GuardedMachine CachedPool Event := ⟨fun _ _ => True, step⟩

/-- The cache agrees with the list after every operation of a run just when every removal finds a chunk that shares no LB
with another, and every chunk that is allocated finds memory for its item. -/
theorem space_cache_agrees_iff (volumeID : Nat) (es : List Event) :
    (machine.restrict fun s e => (s.step e).Agrees).Legal (init volumeID) es ↔
      (machine.restrict Fit).Legal (init volumeID) es :=
  GuardedMachine.restrict_legal_congr (good_init volumeID) (fun _ e hs _ => (hs.step e).1) fun _ e hs _ hfit => (hs.step e).2 hfit

theorem ten_lt : 10 < 2 ^ 32 := Nat.le_of_ble_eq_true rfl

def overlapOps : List Event :=
  [.other (.add 1 ⟨10, ten_lt⟩ 100 []) trivial, .alloc (.small 0 2) ⟨true, [], []⟩, .alloc (.small 1 2) ⟨true, [], []⟩, .remove 0]

set_option maxRecDepth 4000 in
/-- The second allocation has LB 1, and the cache does not know it any more. -/
theorem space_cache_drops_newer :
    ¬(machine.restrict fun s e => (s.step e).Agrees).Legal (init 1) overlapOps := by
  intro h
  obtain ⟨-, -, -, ⟨-, hag⟩, -⟩ := h
  have hlb := hag 1
  revert hlb
  decide

end DiscoClient.CachedPool
