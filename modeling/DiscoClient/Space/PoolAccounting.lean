import DiscoClient.Space.SpacePool
import Mathlib.Algebra.BigOperators.Group.List.Basic

namespace DiscoClient.SpacePool
open List

def freePart (chunk : FsChunk) : Nat := if chunk.IsFree then chunk.chunkLen else 0

def freeLen (chunks : List FsChunk) : Nat := (chunks.map freePart).sum

structure Accounted (pool : SpacePool) : Prop where
  remaining : pool.fsSizeRemaining = freeLen pool.spaceChunkPool
  chunks : pool.numSpaceChunk = pool.spaceChunkPool.length
  units : pool.numAllocUnit = pool.allocChunkPool.length

structure AccountedMod (pool : SpacePool) : Prop where
  remaining : pool.fsSizeRemaining = freeLen pool.spaceChunkPool % 2 ^ 32
  chunks : pool.numSpaceChunk = pool.spaceChunkPool.length % 2 ^ 32
  units : pool.numAllocUnit = pool.allocChunkPool.length % 2 ^ 32

inductive Event where
  | add (chunkID : Nat) (len : Fin (2 ^ 32)) (hbidS : Nat) (dnLoc : List McacheDnloc)
  | alloc (lbS lbLen : Nat) (mem : AllocMem)
  | invalChunk (chunkID : Nat)
  | invalPool
  | reportUnuse
  | cleanup
  | flush
  | remove (lbidS : Nat)
  | requesting (doInc : Bool)
  deriving DecidableEq, Repr

def step (pool : SpacePool) : Event → SpacePool
  | .add chunkID len hbidS dnLoc => pool.addFschunk (fschunkInitChunk chunkID len hbidS dnLoc)
  | .alloc lbS lbLen mem =>
    if lbLen ≤ pool.fsSizeRemaining then (pool.allocSpace .init lbS lbLen mem).1 else pool
  | .invalChunk chunkID => (pool.invalFschunk chunkID).1
  | .invalPool => pool.invalPoolFschunk
  | .reportUnuse => pool.reportChunkUnuse.1
  | .cleanup => pool.cleanupPoolFschunk
  | .flush => pool.reportChunkAlloc.1
  | .remove lbidS => pool.removeAllocspace lbidS
  | .requesting doInc => pool.updateFsSizeRequesting doInc

def run (pool : SpacePool) (es : List Event) : SpacePool := es.foldl step pool

structure Settled (chunk : FsChunk) : Prop where
  atRest : chunk.AtRest
  len_lt : chunk.chunkLen < 2 ^ 32

structure Inv (pool : SpacePool) : Prop where
  accounted : AccountedMod pool
  settled : ∀ chunk ∈ pool.spaceChunkPool, Settled chunk

section Parts
variable {chunk chunk' : FsChunk} {before after rest : List FsChunk}

@[simp] theorem freeLen_nil : freeLen [] = 0 := rfl

@[simp] theorem freeLen_cons (chunk : FsChunk) (rest : List FsChunk) :
    freeLen (chunk :: rest) = freePart chunk + freeLen rest := sum_cons

@[simp] theorem freeLen_append (before after : List FsChunk) :
    freeLen (before ++ after) = freeLen before + freeLen after := by
  rw [freeLen, map_append, sum_append]
  rfl

theorem freePart_free (h : chunk.IsFree) : freePart chunk = chunk.chunkLen := if_pos h

theorem freePart_notFree (h : ¬chunk.IsFree) : freePart chunk = 0 := if_neg h

/-- The chunk a request was taken from contributes that much less, also when it goes. -/
theorem freeLen_taken (hfree : chunk.IsFree) {lbS n : Nat} {a : AsChunk} (h : chunk.Carved lbS n chunk' a) :
    freeLen (if chunk'.chunkLen = 0 then rest else chunk' :: rest) + n = freePart chunk + freeLen rest := by
  have hfree' : chunk'.IsFree := by rw [FsChunk.IsFree, h.state]; exact hfree
  have hlen := h.len
  rw [freePart_free hfree]
  split_ifs with hzero
  · omega
  · rw [freeLen_cons, freePart_free hfree']
    omega

theorem toU32_sub {x n m : Nat} (h : x = (m + n) % 2 ^ 32) : toU32 (x - n) = m % 2 ^ 32 := by
  rw [toU32]
  omega

theorem toU32_add {x n m : Nat} (h : x = m % 2 ^ 32) : toU32 (x + n) = (m + n) % 2 ^ 32 := by
  rw [toU32]
  omega

end Parts

section Step
variable {pool : SpacePool}

theorem inv_init (volumeID : Nat) : Inv (init volumeID) :=
  ⟨⟨rfl, rfl, rfl⟩, fun _ h => absurd h not_mem_nil⟩

theorem Inv.addFschunk (h : Inv pool) {chunk : FsChunk} (hchunk : Settled chunk) (hfree : chunk.IsFree) :
    Inv (pool.addFschunk chunk) := by
  obtain ⟨⟨hrem, hnum, hunit⟩, hset⟩ := h
  refine ⟨⟨?_, ?_, hunit⟩, ?_⟩
  · rw [SpacePool.addFschunk, freeLen_append, freeLen_cons, freePart_free hfree]
    exact toU32_add hrem
  · rw [SpacePool.addFschunk, length_append]
    exact toU32_add (n := 1) hnum
  · intro c hc
    rcases mem_append.mp hc with hc | hc
    · exact hset c hc
    · rw [mem_singleton.mp hc]
      exact hchunk

theorem Inv.remaining_lt (h : Inv pool) : pool.fsSizeRemaining < 2 ^ 32 := by
  rw [h.accounted.remaining]
  exact Nat.mod_lt _ (by norm_num)

/-- Round k takes n LBs of the first chunk, which is chunk' then. -/
structure Takes (mem : AllocMem) (k lbS n : Nat) (chunks : List FsChunk) (chunk chunk' : FsChunk) (rest : List FsChunk)
    (a : AsChunk) : Prop where
  pool : chunks = chunk :: rest
  gives : mem.aschunkAt k = true ∧ chunk.IsFree
  carved : chunk.Carved lbS n chunk' a

theorem Inv.takeFrom (h : Inv pool) {mem : AllocMem} {k lbS n : Nat} {chunk chunk' : FsChunk} {rest : List FsChunk}
    {a a' : AsChunk} (ht : Takes mem k lbS n pool.spaceChunkPool chunk chunk' rest a) (ha : a'.lbLen = a.lbLen) :
    Inv (pool.takeFrom chunk' rest a') := by
  obtain ⟨⟨hrem, hnum, hunit⟩, hset⟩ := h
  obtain ⟨hpool, ⟨-, hfree⟩, hcarved⟩ := ht
  have hlen : a'.lbLen = n := by rw [ha, hcarved.given]
  have hchunk := hset chunk (by rw [hpool]; exact mem_cons_self)
  rw [hpool] at hrem hnum
  refine ⟨⟨?_, ?_, ?_⟩, ?_⟩
  · change toU32 (pool.fsSizeRemaining - a'.lbLen) = freeLen (if chunk'.chunkLen = 0 then rest else chunk' :: rest) % _
    rw [hlen]
    apply toU32_sub
    rw [freeLen_taken hfree hcarved]
    exact hrem
  · change (if chunk'.chunkLen = 0 then toU32 (pool.numSpaceChunk - 1) else pool.numSpaceChunk) =
      (if chunk'.chunkLen = 0 then rest else chunk' :: rest).length % _
    split_ifs
    · exact toU32_sub (n := 1) hnum
    · exact hnum
  · rw [SpacePool.takeFrom, length_append]
    exact toU32_add (n := 1) hunit
  · intro c hc
    have hmem : c = chunk' ∨ c ∈ rest := by
      change c ∈ (if chunk'.chunkLen = 0 then rest else chunk' :: rest) at hc
      split_ifs at hc
      · exact Or.inr hc
      · exact mem_cons.mp hc
    rcases hmem with rfl | hc
    · refine ⟨hchunk.atRest.of_state hcarved.state, ?_⟩
      have := hcarved.len
      have := hchunk.len_lt
      omega
    · exact hset c (by rw [hpool]; exact mem_cons_of_mem _ hc)

/-- A request for fewer than 2^32 LBs: there is no chunk, the first one cannot be allocated from, it is used up, it has
all the LBs, or there is no memory for their item. -/
inductive RoundsRun {S : Type} (r : AllocRounds S) (mem : AllocMem) :
    Nat → Nat → Nat → S → SpaceMetadata → S × SpaceMetadata × AllocRet → Prop where
  | empty {k lbS remain s md} (hpool : (r.pool s).spaceChunkPool = []) :
    RoundsRun r mem k lbS remain s md (s, md, .enoent)
  | stuck {k lbS remain s md chunk rest} (hpool : (r.pool s).spaceChunkPool = chunk :: rest)
    (hnot : ¬(mem.aschunkAt k = true ∧ chunk.IsFree)) : RoundsRun r mem k lbS remain s md (s, md, .enomem)
  | more {k lbS remain s md chunk chunk' rest a out}
    (ht : Takes mem k lbS chunk.chunkLen (r.pool s).spaceChunkPool chunk chunk' rest a) (hempty : chunk'.chunkLen = 0)
    (hmore : chunk.chunkLen < remain) (hitem : mem.mdItemAt k = true)
    (hrun : RoundsRun r mem (k + 1) ((lbS + chunk.chunkLen) % 2 ^ 64) (remain - chunk.chunkLen)
      (r.recordCached s chunk' rest a.commitChunk) (md.push a.fillMetadata) out) : RoundsRun r mem k lbS remain s md out
  | last {k lbS remain s md chunk chunk' rest a}
    (ht : Takes mem k lbS remain (r.pool s).spaceChunkPool chunk chunk' rest a) (hle : remain ≤ chunk.chunkLen)
    (hitem : mem.mdItemAt k = true) : RoundsRun r mem k lbS remain s md
      (r.recordCached s chunk' rest a.commitChunk, md.push a.fillMetadata, .ok)
  | itemless {k lbS remain s md chunk chunk' rest a}
    (ht : Takes mem k lbS (chunk.taken remain) (r.pool s).spaceChunkPool chunk chunk' rest a)
    (hitem : mem.mdItemAt k = false) : RoundsRun r mem k lbS remain s md (r.record s chunk' rest a, md, .enomem)

theorem allocRounds_run {S : Type} (r : AllocRounds S) {s : S} (mem : AllocMem) (fuel : Nat) (md : SpaceMetadata) (k lbS : Nat)
    {remain : Nat} (hset : ∀ chunk ∈ (r.pool s).spaceChunkPool, Settled chunk)
    (hfuel : (r.pool s).spaceChunkPool.length < fuel) (hlt : remain < 2 ^ 32) :
    RoundsRun r mem k lbS remain s md (allocRounds r mem fuel s md k lbS remain) := by
  induction fuel generalizing s md k lbS remain with
  | zero => exact absurd hfuel (Nat.not_lt_zero _)
  | succ fuel ih =>
    have hkeep := r.keep s
    cases hpool : (r.pool s).spaceChunkPool with
    | nil =>
      simp only [allocRounds, hpool]
      exact .empty hpool
    | cons chunk rest =>
      rw [hpool] at hset hfuel hkeep
      obtain ⟨hchunk, hrest⟩ := forall_mem_cons.mp hset
      rcases FsChunk.allocSpace_cases hchunk.atRest hchunk.len_lt lbS remain (mem.aschunkAt k) with
        ⟨hnot, hnone⟩ | ⟨chunk', a, hgives, hcarved, hsome⟩
      · simp only [allocRounds, hpool, hnone, hkeep]
        exact .stuck hpool hnot
      have halen : a.lbLen = chunk.taken remain := by rw [hcarved.given]
      have hle : chunk.taken remain ≤ remain := Nat.min_le_left _ _
      simp only [allocRounds, hpool, hsome, halen]
      rw [← Nat.cast_sub hle, toU32_of_lt (by omega)]
      split_ifs with hitem hmore
      · obtain ⟨hused, hempty⟩ := hcarved.used_up hmore
        rw [hused] at hcarved hmore ⊢
        have hnext : (r.pool (r.recordCached s chunk' rest a.commitChunk)).spaceChunkPool = rest := by
          rw [r.pool_recordCached]
          exact if_pos hempty
        exact .more ⟨hpool, hgives, hcarved⟩ hempty (Nat.lt_of_sub_pos hmore) hitem
          (ih _ _ _ (by rwa [hnext]) (by rw [hnext]; exact Nat.lt_of_succ_lt_succ hfuel) (by omega))
      · have hall : chunk.taken remain = remain := by omega
        rw [hall] at hcarved
        exact .last ⟨hpool, hgives, hcarved⟩ (hall ▸ chunk.taken_le remain) hitem
      · exact .itemless ⟨hpool, hgives, hcarved⟩ (Bool.eq_false_of_not_eq_true hitem)

theorem allocSpaceOn_run {S : Type} (r : AllocRounds S) {s : S} (md : SpaceMetadata) (lbS : Nat) {lbLen : Nat} {mem : AllocMem}
    (hset : ∀ chunk ∈ (r.pool s).spaceChunkPool, Settled chunk) (hlt : lbLen < 2 ^ 32) (harr : mem.array = true) :
    RoundsRun r mem 0 lbS lbLen s { md with arrayMetadata := List.replicate lbLen none } (allocSpaceOn r s md lbS lbLen mem) := by
  rw [allocSpaceOn, if_pos harr]
  exact allocRounds_run r mem _ _ 0 lbS hset (Nat.lt_succ_self _) hlt

theorem RoundsRun.inv {mem : AllocMem} {k lbS remain : Nat} {md : SpaceMetadata} {out : SpacePool × SpaceMetadata × AllocRet}
    (hrun : RoundsRun rounds mem k lbS remain pool md out) (h : Inv pool) : Inv out.1 := by
  induction hrun with
  | empty | stuck => exact h
  | more ht _ _ _ _ ih => exact ih (h.takeFrom ht rfl)
  | last ht | itemless ht => exact h.takeFrom ht rfl

theorem Inv.allocSpace (h : Inv pool) (md : SpaceMetadata) (lbS : Nat) {lbLen : Nat} (mem : AllocMem) (hlt : lbLen < 2 ^ 32) :
    Inv (pool.allocSpace md lbS lbLen mem).1 := by
  by_cases harr : mem.array = true
  · exact (allocSpaceOn_run rounds md lbS h.settled hlt harr).inv h
  · rw [SpacePool.allocSpace, allocSpaceOn, if_neg harr]
    exact h

theorem Inv.replace (h : Inv pool) {before after : List FsChunk} {chunk chunk' : FsChunk} {n : Nat}
    (hpool : pool.spaceChunkPool = before ++ chunk :: after) (hset : Settled chunk')
    (hpart : freePart chunk' + n = freePart chunk) :
    Inv { pool with
      spaceChunkPool := before ++ chunk' :: after
      fsSizeRemaining := toU32 (pool.fsSizeRemaining - n) } := by
  obtain ⟨⟨hrem, hnum, hunit⟩, hall⟩ := h
  rw [hpool] at hrem hnum hall
  refine ⟨⟨?_, ?_, hunit⟩, ?_⟩
  · apply toU32_sub
    rw [hrem]
    simp only [freeLen_append, freeLen_cons]
    congr 1
    omega
  · change pool.numSpaceChunk = _
    rw [hnum]
    simp
  · intro c hc
    change c ∈ before ++ chunk' :: after at hc
    rcases mem_append.mp hc with hc | hc
    · exact hall c (mem_append_left _ hc)
    · rcases mem_cons.mp hc with rfl | hc
      · exact hset
      · exact hall c (mem_append_right _ (mem_cons_of_mem _ hc))

theorem Settled.of_chunk {chunk chunk' : FsChunk} (h : Settled chunk) (hrest : chunk'.AtRest)
    (hlen : chunk'.chunkLen = chunk.chunkLen) : Settled chunk' :=
  ⟨hrest, hlen ▸ h.len_lt⟩

theorem reportUnuse_frame {chunk : FsChunk} (hrest : chunk.AtRest) :
    chunk.reportUnuse.1.chunkLen = chunk.chunkLen ∧ freePart chunk.reportUnuse.1 = freePart chunk := by
  rw [FsChunk.reportUnuse_eq hrest]
  split_ifs with hst
  · refine ⟨rfl, ?_⟩
    rw [freePart_notFree (by simp [FsChunk.IsFree]), freePart_notFree (by simp [FsChunk.IsFree, hst])]
  · exact ⟨rfl, rfl⟩

theorem invalidateChunk_cases {chunk : FsChunk} (h : Settled chunk) :
    (∃ chunk', chunk.invalidateChunk = (chunk', .ok) ∧ Settled chunk' ∧
      freePart chunk' + chunk.chunkLen = freePart chunk) ∨
    ∃ ret, chunk.invalidateChunk = (chunk, ret) ∧ ret ≠ .ok := by
  rw [FsChunk.invalidateChunk_eq h.atRest]
  by_cases hfree : chunk.IsFree
  · refine Or.inl ⟨_, if_pos hfree, h.of_chunk ⟨rfl, by simp⟩ rfl, ?_⟩
    rw [freePart_free hfree, freePart_notFree (by simp [FsChunk.IsFree]), Nat.zero_add]
  · exact Or.inr ⟨_, if_neg hfree, by simp⟩

theorem Inv.invalFschunk (h : Inv pool) (chunkID : Nat) : Inv (pool.invalFschunk chunkID).1 := by
  cases hsplit : FirstMatch.split (·.chunkID == chunkID) pool.spaceChunkPool with
  | none => simpa [SpacePool.invalFschunk, hsplit] using h
  | some cut =>
    obtain ⟨before, chunk, after⟩ := cut
    obtain ⟨hpool, -, -⟩ := FirstMatch.of_split_eq_some hsplit
    have hset := h.settled chunk (by rw [hpool]; simp)
    rcases invalidateChunk_cases hset with ⟨chunk', hinval, hset', hpart⟩ | ⟨ret, hinval, hne⟩
    · obtain ⟨hlen, hsame⟩ := reportUnuse_frame hset'.atRest
      simp only [SpacePool.invalFschunk, hsplit, hinval]
      refine h.replace hpool (hset'.of_chunk hset'.atRest.reportUnuse hlen) ?_
      rw [hsame]
      exact hpart
    · have hkeep : (pool.invalFschunk chunkID).1 = pool := by
        cases ret with
        | ok => exact absurd rfl hne
        | eperm | retry => simp only [SpacePool.invalFschunk, hsplit, hinval, ← hpool]
      rw [hkeep]
      exact h

theorem invalLoop_spec {remaining m : Nat} {chunks : List FsChunk} (hall : ∀ chunk ∈ chunks, Settled chunk)
    (hrem : remaining = (m + freeLen chunks) % 2 ^ 32) :
    (∀ chunk ∈ (invalLoop remaining chunks).1, Settled chunk) ∧
      (invalLoop remaining chunks).1.length = chunks.length ∧
      (invalLoop remaining chunks).2 = (m + freeLen (invalLoop remaining chunks).1) % 2 ^ 32 := by
  induction chunks generalizing remaining m with
  | nil => exact ⟨hall, rfl, hrem⟩
  | cons chunk rest ih =>
    have hrest := fun c hc => hall c (mem_cons_of_mem _ hc)
    rw [freeLen_cons] at hrem
    rcases invalidateChunk_cases (hall chunk mem_cons_self) with ⟨chunk', hinval, hset, hpart⟩ | ⟨ret, hinval, hne⟩
    · have hrem' : toU32 (remaining - chunk.chunkLen) = (m + freePart chunk' + freeLen rest) % 2 ^ 32 := by
        apply toU32_sub
        rw [hrem]
        congr 1
        omega
      obtain ⟨hs, hl, hr⟩ := ih hrest hrem'
      simp only [invalLoop, hinval, mem_cons, forall_eq_or_imp, length_cons, freeLen_cons]
      exact ⟨⟨hset, hs⟩, congrArg (· + 1) hl, by rw [hr, Nat.add_assoc]⟩
    · have hrem' : remaining = (m + freePart chunk + freeLen rest) % 2 ^ 32 := by rw [hrem, Nat.add_assoc]
      obtain ⟨hs, hl, hr⟩ := ih hrest hrem'
      have hloop : invalLoop remaining (chunk :: rest) =
          (chunk :: (invalLoop remaining rest).1, (invalLoop remaining rest).2) := by
        cases ret with
        | ok => exact absurd rfl hne
        | eperm | retry => simp only [invalLoop, hinval]
      rw [hloop]
      simp only [mem_cons, forall_eq_or_imp, length_cons, freeLen_cons]
      exact ⟨⟨hall chunk mem_cons_self, hs⟩, congrArg (· + 1) hl, by rw [hr, Nat.add_assoc]⟩

theorem Inv.invalPool (h : Inv pool) : Inv pool.invalPoolFschunk := by
  obtain ⟨⟨hrem, hnum, hunit⟩, hall⟩ := h
  have hrem0 : pool.fsSizeRemaining = (0 + freeLen pool.spaceChunkPool) % 2 ^ 32 := by
    rwa [Nat.zero_add]
  obtain ⟨hs, hl, hr⟩ := invalLoop_spec hall hrem0
  rw [Nat.zero_add] at hr
  refine ⟨⟨hr, ?_, hunit⟩, hs⟩
  change pool.numSpaceChunk = (invalLoop pool.fsSizeRemaining pool.spaceChunkPool).1.length % _
  rw [hl, hnum]

theorem cleanupLoop_spec {num m : Nat} {chunks : List FsChunk} (hall : ∀ chunk ∈ chunks, Settled chunk)
    (hnum : num = (m + chunks.length) % 2 ^ 32) :
    (∀ chunk ∈ (cleanupLoop num chunks).1, Settled chunk) ∧
      freeLen (cleanupLoop num chunks).1 = freeLen chunks ∧
      (cleanupLoop num chunks).2 = (m + (cleanupLoop num chunks).1.length) % 2 ^ 32 := by
  induction chunks generalizing num m with
  | nil => exact ⟨hall, rfl, hnum⟩
  | cons chunk rest ih =>
    have hset := hall chunk mem_cons_self
    have hrest := fun c hc => hall c (mem_cons_of_mem _ hc)
    have hclean := FsChunk.cleanupChunk_eq hset.atRest
    rw [length_cons] at hnum
    by_cases hst : chunk.chunkState.chunkStat = .reporting
    · rw [if_pos hst] at hclean
      have hnum' : toU32 (num - 1) = (m + rest.length) % 2 ^ 32 := toU32_sub (n := 1) hnum
      obtain ⟨hs, hf, hl⟩ := ih hrest hnum'
      simp only [cleanupLoop, hclean, freeLen_cons]
      rw [freePart_notFree (by simp [FsChunk.IsFree, hst]), Nat.zero_add]
      exact ⟨hs, hf, hl⟩
    · rw [if_neg hst] at hclean
      have hnum' : num = (m + 1 + rest.length) % 2 ^ 32 := by rw [hnum]; congr 1; omega
      obtain ⟨hs, hf, hl⟩ := ih hrest hnum'
      simp only [cleanupLoop, hclean, mem_cons, forall_eq_or_imp, length_cons, freeLen_cons]
      refine ⟨⟨hset, hs⟩, by rw [hf], ?_⟩
      rw [hl]
      congr 1
      omega

theorem Inv.cleanup (h : Inv pool) : Inv pool.cleanupPoolFschunk := by
  obtain ⟨⟨hrem, hnum, hunit⟩, hall⟩ := h
  have hnum0 : pool.numSpaceChunk = (0 + pool.spaceChunkPool.length) % 2 ^ 32 := by
    rwa [Nat.zero_add]
  obtain ⟨hs, hf, hl⟩ := cleanupLoop_spec hall hnum0
  rw [Nat.zero_add] at hl
  refine ⟨⟨?_, hl, hunit⟩, hs⟩
  change pool.fsSizeRemaining = freeLen (cleanupLoop pool.numSpaceChunk pool.spaceChunkPool).1 % _
  rw [hf, hrem]

theorem freeLen_map {f : FsChunk → FsChunk} {chunks : List FsChunk}
    (h : ∀ chunk ∈ chunks, freePart (f chunk) = freePart chunk) : freeLen (chunks.map f) = freeLen chunks := by
  rw [freeLen, map_map, freeLen]
  exact congrArg List.sum (map_congr_left h)

theorem Inv.reportUnuse (h : Inv pool) : Inv pool.reportChunkUnuse.1 := by
  obtain ⟨⟨hrem, hnum, hunit⟩, hall⟩ := h
  have hframe := fun c hc => reportUnuse_frame (hall c hc).atRest
  refine ⟨⟨?_, ?_, hunit⟩, ?_⟩
  · change pool.fsSizeRemaining = freeLen (pool.spaceChunkPool.map fun chunk => chunk.reportUnuse.1) % _
    rw [freeLen_map fun c hc => (hframe c hc).2, hrem]
  · rw [reportChunkUnuse, length_map]
    exact hnum
  · intro c hc
    obtain ⟨d, hd, rfl⟩ := mem_map.mp hc
    exact (hall d hd).of_chunk (hall d hd).atRest.reportUnuse (hframe d hd).1

theorem Inv.removeAllocspace (h : Inv pool) (lbidS : Nat) : Inv (pool.removeAllocspace lbidS) := by
  cases hsplit : FirstMatch.split (·.lbidS == lbidS) pool.allocChunkPool with
  | none => simpa [SpacePool.removeAllocspace, hsplit] using h
  | some cut =>
    obtain ⟨before, a, after⟩ := cut
    obtain ⟨hpool, -, -⟩ := FirstMatch.of_split_eq_some hsplit
    obtain ⟨⟨hrem, hnum, hunit⟩, hall⟩ := h
    simp only [SpacePool.removeAllocspace, hsplit]
    refine ⟨⟨hrem, hnum, toU32_sub (n := 1) ?_⟩, hall⟩
    rw [hunit, hpool]
    simp only [length_append, length_cons]
    rfl

theorem Inv.step (h : Inv pool) (e : Event) : Inv (pool.step e) := by
  cases e with
  | add chunkID len hbidS dnLoc =>
    exact h.addFschunk ⟨FsChunk.atRest_init _ _ _ _, len.isLt⟩ rfl
  | alloc lbS lbLen mem =>
    rw [SpacePool.step]
    split_ifs with hle
    · exact h.allocSpace _ _ _ (hle.trans_lt h.remaining_lt)
    · exact h
  | invalChunk chunkID => exact h.invalFschunk chunkID
  | invalPool => exact h.invalPool
  | reportUnuse => exact h.reportUnuse
  | cleanup => exact h.cleanup
  | flush =>
    refine ⟨⟨h.accounted.remaining, h.accounted.chunks, ?_⟩, h.settled⟩
    rw [SpacePool.step, reportChunkAlloc, length_map]
    exact h.accounted.units
  | remove lbidS => exact h.removeAllocspace lbidS
  | requesting doInc => exact ⟨⟨h.accounted.remaining, h.accounted.chunks, h.accounted.units⟩, h.settled⟩

theorem Inv.run (h : Inv pool) (es : List Event) : Inv (pool.run es) := by
  induction es generalizing pool with
  | nil => exact h
  | cons e es ih => exact ih (h.step e)

end Step

/-- After every sequence of operations the counters are what they count as numbers of 32 bits, so the very
numbers as long as these fit. -/
theorem pool_counters_mod (volumeID : Nat) (es : List Event) :
    AccountedMod (run (init volumeID) es) ∧
      (freeLen (run (init volumeID) es).spaceChunkPool < 2 ^ 32 →
        (run (init volumeID) es).spaceChunkPool.length < 2 ^ 32 →
        (run (init volumeID) es).allocChunkPool.length < 2 ^ 32 → Accounted (run (init volumeID) es)) := by
  obtain ⟨hrem, hnum, hunit⟩ := ((inv_init volumeID).run es).accounted
  refine ⟨⟨hrem, hnum, hunit⟩, fun hfree hchunks hunits => ⟨?_, ?_, ?_⟩⟩
  · rw [hrem, Nat.mod_eq_of_lt hfree]
  · rw [hnum, Nat.mod_eq_of_lt hchunks]
  · rw [hunit, Nat.mod_eq_of_lt hunits]

/-- The first of two chunks is used up without memory for an item, the second invalidated and cleaned up. -/
def mixedOps : List Event :=
  [.add 1 10 100 [], .add 2 20 200 [], .alloc 0 16 ⟨true, [], [true, false]⟩, .alloc 0 1 ⟨true, [false], []⟩,
    .invalChunk 2, .invalPool, .cleanup, .flush, .remove 0]

theorem pool_counters_mod_two_chunks :
    freeLen (run (init 3) mixedOps).spaceChunkPool < 2 ^ 32 ∧ Accounted (run (init 3) mixedOps) :=
  ⟨by decide, (pool_counters_mod 3 mixedOps).2 (by decide) (by decide) (by decide)⟩

/-- The free space of two chunks does not fit into the counter. -/
theorem pool_remaining_wraps :
    ¬Accounted (run (init 3) [.add 1 4294967295 0 [], .add 2 1 0 []]) := by
  intro h
  exact absurd h.remaining (by decide)

end DiscoClient.SpacePool
