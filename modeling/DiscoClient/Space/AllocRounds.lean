import DiscoClient.Space.PoolAccounting
import DiscoClient.Lib.Consecutive

namespace DiscoClient.SpacePool

/-- Round k takes nothing: it has no chunk to take from, or one without LBs and no item. -/
def Stalls (pool : SpacePool) (mem : AllocMem) (k : Nat) : Prop :=
  ∀ chunk ∈ pool.spaceChunkPool.head?, (mem.aschunkAt k = true ∧ chunk.IsFree) →
    chunk.chunkLen = 0 ∧ mem.mdItemAt k = false

structure Gives (pool : SpacePool) (mem : AllocMem) (md : SpaceMetadata) (k lbS remain : Nat)
    (items : List SpaceMdItem) (taken : Nat) (out : SpacePool × SpaceMetadata × AllocRet) : Prop where
  md : out.2.1 = items.foldl SpaceMetadata.push md
  remaining : out.1.fsSizeRemaining + taken = pool.fsSizeRemaining
  ret : out.2.2 ≠ .enoent
  idle : items = [] ∧ taken = 0 ↔ pool.Stalls mem k
  complete : out.2.2 = .ok → taken = remain ∧
    Consecutive (·.lbidS) (·.numHbids) lbS items (lbS + remain) ∧
    ∀ n, items.length ≤ n ↔ remain ≤ freeLen (pool.spaceChunkPool.take n)

section
variable {pool : SpacePool} {mem : AllocMem} {k lbS n remain : Nat} {chunks rest : List FsChunk} {chunk chunk' : FsChunk}
  {a : AsChunk} {md : SpaceMetadata} {out : SpacePool × SpaceMetadata × AllocRet}

theorem Inv.remaining_le_freeLen (h : Inv pool) : pool.fsSizeRemaining ≤ freeLen pool.spaceChunkPool := by
  rw [h.accounted.remaining]
  exact Nat.mod_le _ _

theorem Inv.chunks_ne_nil (h : Inv pool) (hpos : 0 < pool.fsSizeRemaining) : pool.spaceChunkPool ≠ [] := by
  intro hnil
  have hle := h.remaining_le_freeLen
  rw [hnil] at hle
  exact absurd hle (Nat.not_le.mpr hpos)

theorem Takes.freeLen_take (ht : Takes mem k lbS n chunks chunk chunk' rest a) (m : Nat) :
    freeLen (chunks.take (m + 1)) = chunk.chunkLen + freeLen (rest.take m) := by
  rw [ht.pool, List.take_succ_cons, freeLen_cons, freePart_free ht.gives.2]

theorem Takes.stalls_iff (ht : Takes mem k lbS n pool.spaceChunkPool chunk chunk' rest a) :
    pool.Stalls mem k ↔ chunk.chunkLen = 0 ∧ mem.mdItemAt k = false := by
  simp [Stalls, ht.pool, ht.gives]

theorem Takes.remaining (ht : Takes mem k lbS n pool.spaceChunkPool chunk chunk' rest a) (h : Inv pool)
    (hle : n ≤ pool.fsSizeRemaining) (a' : AsChunk) (ha : a'.lbLen = a.lbLen) :
    (pool.takeFrom chunk' rest a').fsSizeRemaining + n = pool.fsSizeRemaining := by
  have hlen : a'.lbLen = n := by rw [ha, ht.carved.given]
  have hlt := h.remaining_lt
  change toU32 (pool.fsSizeRemaining - a'.lbLen) + n = _
  rw [hlen, toU32]
  omega

/-- A pass over the chunks. With enough free LBs the list does not run out, and every chunk but the last is
used up. -/
theorem RoundsRun.gives (hrun : RoundsRun rounds mem k lbS remain pool md out) (h : Inv pool) (hpos : 0 < remain)
    (hle : remain ≤ pool.fsSizeRemaining) (hend : lbS + remain ≤ 2 ^ 64) :
    ∃ items taken, Gives pool mem md k lbS remain items taken out := by
  induction hrun with
  | empty hpool => exact absurd hpool (h.chunks_ne_nil (hpos.trans_le hle))
  | @stuck _ _ _ pool _ _ _ hpool hnot =>
    refine ⟨[], 0, rfl, rfl, by simp, iff_of_true ⟨rfl, rfl⟩ fun c hc hgives => ?_, by simp⟩
    rw [show pool.spaceChunkPool.head? = _ from congrArg List.head? hpool] at hc
    exact absurd (Option.some.inj hc ▸ hgives) hnot
  | @more k lbS remain pool md chunk chunk' rest a out ht hempty hmore hitem hrun ih =>
    -- the other chunks have the rest
    change Takes mem k lbS chunk.chunkLen pool.spaceChunkPool chunk chunk' rest a at ht
    have hrest : (pool.takeFrom chunk' rest a.commitChunk).spaceChunkPool = rest := if_pos hempty
    have hnext := ht.remaining h (by omega) a.commitChunk rfl
    have hlen : a.lbLen = chunk.chunkLen := by rw [ht.carved.given]
    have hmod : (lbS + chunk.chunkLen) % 2 ^ 64 = lbS + chunk.chunkLen := Nat.mod_eq_of_lt (by omega)
    rw [hmod] at ih
    change Inv (pool.takeFrom chunk' rest a.commitChunk) → _ → _ ≤ (pool.takeFrom _ _ _).fsSizeRemaining → _ →
      ∃ items taken, Gives (pool.takeFrom _ _ _) _ _ _ _ _ items taken out at ih
    obtain ⟨items, taken, hg⟩ := ih (h.takeFrom ht rfl) (by omega) (by omega) (by omega)
    have hremaining := hg.remaining
    refine ⟨a.fillMetadata :: items, chunk.chunkLen + taken, hg.md, by omega, hg.ret, by simp [ht.stalls_iff, hitem],
      fun hok => ?_⟩
    obtain ⟨htaken, hcons, hitems⟩ := hg.complete hok
    refine ⟨by omega, ⟨by rw [AsChunk.fillMetadata, ht.carved.given], ?_⟩, fun m => ?_⟩
    · change Consecutive _ _ (lbS + a.lbLen) items _
      rw [hlen]
      convert hcons using 1
      omega
    · cases m with
      | zero => simp; omega
      | succ m =>
        rw [ht.freeLen_take, List.length_cons, Nat.add_le_add_iff_right, hitems m, hrest]
        omega
  | @last k lbS remain pool md chunk chunk' rest a ht hchunk hitem =>
    change Takes mem k lbS remain pool.spaceChunkPool chunk chunk' rest a at ht
    refine ⟨[a.fillMetadata], remain, rfl, ht.remaining h hle a.commitChunk rfl, by simp, by simp [ht.stalls_iff, hitem],
      fun _ => ⟨rfl, ⟨by rw [AsChunk.fillMetadata, ht.carved.given], ?_⟩, fun m => ?_⟩⟩
    · change lbS + a.lbLen = lbS + remain
      rw [ht.carved.given]
    · cases m with
      | zero => simp; omega
      | succ m =>
        rw [ht.freeLen_take, List.length_singleton]
        omega
  | @itemless k lbS remain pool md chunk chunk' rest a ht hitem =>
    -- the LBs are gone, but there is no item
    change Takes mem k lbS _ pool.spaceChunkPool chunk chunk' rest a at ht
    refine ⟨[], _, rfl, ht.remaining h ((Nat.min_le_left _ _).trans hle) a rfl, by simp, ?_, by simp⟩
    have hzero : chunk.taken remain = 0 ↔ chunk.chunkLen = 0 := by
      rw [FsChunk.taken]
      omega
    simpa [ht.stalls_iff, hitem] using hzero

end
end DiscoClient.SpacePool
