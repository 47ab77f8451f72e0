import DiscoClient.DnClient.DnWorkQOrder

namespace DiscoClient
namespace DncWorker
variable {ρ : Type*} {w : DncWorker ρ}

def deqIdxAfter (w : DncWorker ρ) : Nat → Nat
  | 0 => w.deqBucketIdx
  | n + 1 => (w.deqBucketIdx + (n + 1)) % dncWorkqHashNum

def FindsIn (w : DncWorker ρ) (n : Nat) : Prop :=
  ∃ j < n, w.wkerReqPool dncWorkqHpBkIdx ≠ [] ∨ w.wkerReqPool (w.deqIdxAfter j) ≠ []

def Due (w : DncWorker ρ) (n : Nat) : Prop :=
  w.queueLen = 0 ∨ ∃ j, w.FindsIn j ∧ dncWorkqTotalNum * (w.queueLen - 1) + j ≤ n

theorem Due.mono {m n : Nat} (h : w.Due m) (hmn : m ≤ n) : w.Due n :=
  h.imp_right fun ⟨j, hj, hle⟩ => ⟨j, hj, hle.trans hmn⟩

theorem Due.empty (h : w.Due 0) : w.queueLen = 0 := by
  rcases h with hlen | ⟨j, ⟨i, hi, -⟩, hle⟩
  · exact hlen
  · omega

theorem deqIdxAfter_succ {w w' : DncWorker ρ} (hw : w'.deqBucketIdx = (w.deqBucketIdx + 1) % dncWorkqHashNum) (n : Nat) :
    w'.deqIdxAfter n = w.deqIdxAfter (n + 1) := by
  cases n with
  | zero => exact hw
  | succ n =>
    change (w'.deqBucketIdx + (n + 1)) % dncWorkqHashNum = (w.deqBucketIdx + (n + 1 + 1)) % dncWorkqHashNum
    rw [hw, Nat.mod_add_mod, Nat.add_right_comm, Nat.add_assoc]

theorem exists_mem_of_queueLen (h : w.queueLen ≠ 0) :
    ∃ b < dncWorkqTotalNum, w.wkerReqPool b ≠ [] := by
  obtain ⟨b, hb, hlen⟩ := Finset.exists_ne_zero_of_sum_ne_zero h
  exact ⟨b, Finset.mem_range.mp hb, fun hnil => hlen (by rw [hnil, List.length_nil])⟩

theorem findsIn_total (hidx : w.deqBucketIdx < dncWorkqTotalNum) (h : w.queueLen ≠ 0) :
    w.FindsIn dncWorkqTotalNum := by
  obtain ⟨b, hb, hpool⟩ := exists_mem_of_queueLen h
  rcases Nat.lt_succ_iff_lt_or_eq.mp hb with hlt | rfl
  · -- the first index may be that of the bucket of high priority, so bucket b is met later than at once
    obtain ⟨j, hj, hjb⟩ : ∃ j < dncWorkqHashNum, (w.deqBucketIdx + (j + 1)) % dncWorkqHashNum = b := by
      refine ⟨(b + 2 * dncWorkqHashNum - w.deqBucketIdx - 1) % dncWorkqHashNum, Nat.mod_lt _ (by decide), ?_⟩
      rw [dncWorkqTotalNum] at hidx
      simp only [dncWorkqHashNum] at hidx hlt ⊢
      omega
    exact ⟨j + 1, Nat.succ_lt_succ hj, .inr (by rwa [deqIdxAfter, hjb])⟩
  · exact ⟨0, Nat.succ_pos _, .inl hpool⟩

theorem due_total (hidx : w.deqBucketIdx < dncWorkqTotalNum) :
    w.Due (dncWorkqTotalNum * w.queueLen) := by
  by_cases h : w.queueLen = 0
  · exact .inl h
  · refine .inr ⟨_, findsIn_total hidx h, ?_⟩
    obtain ⟨k, hk⟩ := Nat.exists_eq_succ_of_ne_zero h
    rw [hk, Nat.succ_sub_one, Nat.mul_succ]

theorem Due.less {w' : DncWorker ρ} {n : Nat} (h : w.Due (n + 1)) (hidx : w'.deqBucketIdx < dncWorkqTotalNum)
    (hlen : w.queueLen = w'.queueLen + 1) : w'.Due n := by
  rcases h with hzero | ⟨j, ⟨i, hi, -⟩, hle⟩
  · omega
  · refine (due_total hidx).mono ?_
    rw [hlen, Nat.add_sub_cancel] at hle
    omega

variable [DecidableEq ρ] {comm : ρ → DnReqKey}

namespace Kept

theorem due_rmReqWorkQ (h : Kept comm w) {n : Nat} (hdue : w.Due n) (r : ρ) : (w.rmReqWorkQ comm r).Due n := by
  by_cases hr : w.feaInWorkQ r = true
  · exact (hdue.mono (Nat.le_succ n)).less (h.rmReqWorkQ r).idx
      (h.queueLen_erase hr fun b => h.pool_takeOut _ r b)
  · rw [DncWorker.rmReqWorkQ, DncWorker.takeOut, if_neg hr, setFea_eq (Bool.eq_false_iff.mpr hr)]
    exact hdue

theorem due_peekReqWorkQ (h : Kept comm w) {n : Nat} (hdue : w.Due (n + 1)) : w.peekReqWorkQ.1.Due n := by
  cases hf : w.found with
  | some r =>
    refine hdue.less h.peekReqWorkQ.idx (h.queueLen_erase (h.found_mem hf).1 fun b => ?_)
    rw [h.pool_peekReqWorkQ, hf]
    rfl
  | none =>
    -- nothing of high priority, and the bucket that was looked at is empty
    have hhp : ¬ w.wkerHpReqQSize > 0 := fun hpos => by
      rw [DncWorker.found, peekIdx, if_pos hpos] at hf
      exact h.hp_pos.mp hpos (List.head?_eq_none_iff.mp hf)
    have hcur : w.wkerReqPool w.deqBucketIdx = [] := by
      rw [DncWorker.found, peekIdx, if_neg hhp] at hf
      exact List.head?_eq_none_iff.mp hf
    have hpeek : w.peekReqWorkQ.1 = { w with deqBucketIdx := (w.deqBucketIdx + 1) % dncWorkqHashNum } := by
      rw [DncWorker.peekReqWorkQ, hf, ← and_dncWorkqModNum]
      exact if_neg hhp
    rw [hpeek]
    refine hdue.imp_right ?_
    rintro ⟨j, ⟨i, hi, hfinds⟩, hle⟩
    cases i with
    | zero => exact absurd hfinds (not_or.mpr ⟨h.hp_pos.not.mp hhp, not_not.mpr hcur⟩)
    | succ i =>
      refine ⟨j - 1, ⟨i, by omega, ?_⟩, ?_⟩
      · rwa [deqIdxAfter_succ rfl]
      · change dncWorkqTotalNum * (w.queueLen - 1) + (j - 1) ≤ n
        omega

end Kept
end DncWorker

namespace DncRun
variable {ρ : Type*} [DecidableEq ρ] {comm : ρ → DnReqKey} {s : DncRun ρ}

theorem Inv.due_exec (h : Inv comm s) {n : Nat} (hdue : s.wker.Due n) {es : List (DncEvent ρ)}
    (hes : ∀ e ∈ es, e.isAdd = false) : (s.exec comm es).wker.Due (n - es.countP DncEvent.isPeek) := by
  induction es generalizing s n with
  | nil => exact hdue
  | cons e es ih =>
    obtain ⟨he, hrest⟩ := List.forall_mem_cons.mp hes
    cases e with
    | add r => cases he
    | peek =>
      rw [List.countP_cons_of_pos rfl, Nat.add_comm, ← Nat.sub_sub]
      refine ih (h.step .peek) ?_ hrest
      exact h.kept.due_peekReqWorkQ (hdue.mono (by omega))
    | rm r =>
      rw [List.countP_cons_of_neg (by simp [DncEvent.isPeek])]
      exact ih (h.step (.rm r)) (h.kept.due_rmReqWorkQ hdue r) hrest
    | update r ev =>
      rw [List.countP_cons_of_neg (by simp [DncEvent.isPeek])]
      exact ih (h.step (.update r ev)) hdue hrest

theorem pool_step_add (comm : ρ → DnReqKey) (s : DncRun ρ) (r : ρ) (b : Nat) :
    (s.step comm (.add r)).wker.wkerReqPool b =
      s.wker.wkerReqPool b ++ if s.wker.feaInWorkQ r = false ∧ b = (comm r).workqIdx then [r] else [] := by
  rw [step]
  by_cases hr : s.wker.feaInWorkQ r = true
  · rw [if_pos hr, if_neg (by simp [hr]), List.append_nil, DncWorker.addReqWorkQ, if_pos hr, DncWorker.setFea_eq hr]
  · have hfea : s.wker.feaInWorkQ r = false := Bool.eq_false_iff.mpr hr
    rw [if_neg hr, DncWorker.Kept.pool_addReqWorkQ hfea]
    exact congrArg _ (if_congr (by simp [hfea]) rfl rfl)

/-- Whatever is added, peeked at and removed: the counters are the lengths of the lists; a request that is added goes
to the end of its bucket, and nowhere if it is queued, and the queued ones are in theirs; low priority is
taken only when none of high priority is queued; additions to a bucket are taken in order, each once, and
sent as taken; and without further ones, as many peeks as there are buckets for each request take them all.
-/
theorem send_queue_served (comm : ρ → DnReqKey) (es : List (DncEvent ρ)) :
    let s := init.exec comm es
    (s.wker.wkerReqQSize = s.wker.queueLen ∧
      s.wker.wkerHpReqQSize = (s.wker.wkerReqPool dncWorkqHpBkIdx).length) ∧
    ((∀ r b, (s.step comm (.add r)).wker.wkerReqPool b =
        s.wker.wkerReqPool b ++ if s.wker.feaInWorkQ r = false ∧ b = (comm r).workqIdx then [r] else []) ∧
      ∀ b r, r ∈ s.wker.wkerReqPool b ↔ s.wker.feaInWorkQ r = true ∧ (comm r).workqIdx = b) ∧
    (∀ r, s.wker.peekReqWorkQ.2 = some r → s.wker.found = some r) ∧
    (∀ r, s.wker.found = some r → (comm r).reqPrior = .low →
      ∀ b, ∀ q ∈ s.wker.wkerReqPool b, (comm q).reqPrior = .low) ∧
    (s.taken.Pairwise fun p q => (comm p.2).workqIdx = (comm q.2).workqIdx → p.1 < q.1) ∧
    ((∀ p ∈ s.taken, s.added[p.1]? = some p.2) ∧ (s.taken.map Prod.fst).Nodup) ∧
    ∀ fs : List (DncEvent ρ), (∀ e ∈ fs, e.isAdd = false) →
      dncWorkqTotalNum * s.wker.queueLen ≤ fs.countP DncEvent.isPeek → (s.exec comm fs).wker.queueLen = 0 := by
  intro s
  have h : Inv comm s := Inv.exec ⟨DncWorker.kept_init comm, Ordered.init⟩ es
  refine ⟨⟨h.kept.size, h.kept.hpSize⟩, ⟨pool_step_add comm s, h.kept.placed⟩, fun r => DncWorker.found_of_peek,
    fun r hr hlow b q hq => ?_, h.ordered.order, ⟨h.ordered.takenAdded, h.ordered.once⟩, fun fs hfs hpeeks => ?_⟩
  · exact h.kept.found_low hr hlow ((h.kept.placed b q).mp hq).1
  · have hdue := h.due_exec (DncWorker.due_total h.kept.idx) hfs
    rw [Nat.sub_eq_zero_of_le hpeeks] at hdue
    exact hdue.empty

/-- The request in bucket 0 waits for the bucket of high priority and for all others, as the first addition has
left deq_bucket_idx at the former. -/
theorem send_queue_served_bucket_zero :
    let comm : Bool → DnReqKey := fun r => ⟨0, if r then .high else .low⟩
    let s := init.exec comm [.add true, .add false, .peek]
    s.wker.queueLen = 1 ∧ (s.exec comm (List.replicate 32 .peek)).wker.queueLen = 1 ∧
      (s.exec comm (List.replicate 33 .peek)).wker.queueLen = 0 := by
  intro comm s
  obtain ⟨-, -, -, -, -, -, hserved⟩ := send_queue_served comm [.add true, .add false, .peek]
  have hlen : s.wker.queueLen = 1 := by decide +kernel
  refine ⟨hlen, by decide +kernel, hserved (List.replicate 33 .peek) (fun e he => ?_) ?_⟩
  · rw [List.eq_of_mem_replicate he]
    rfl
  · change dncWorkqTotalNum * s.wker.queueLen ≤ _
    rw [hlen]
    decide

end DncRun
end DiscoClient
