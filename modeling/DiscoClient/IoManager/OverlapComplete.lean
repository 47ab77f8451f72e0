import Mathlib.Data.List.Perm.Basic
import DiscoClient.IoManager.OverlapSubmit

namespace DiscoClient.VolIoReqPool
open List

section complete
variable {s t : VolIoReqPool} {r : Nat}

private def behind (s : VolIoReqPool) (r : Nat) : List Nat := (s.req r).wakeList.map OvlpItem.waitIor

private theorem mem_behind (h : LinkInv s) (w : Nat) : w ∈ s.behind r ↔ s.Blocks r w := by
  simp only [behind, mem_map, h.mem_wake]
  constructor
  · rintro ⟨it, ⟨x, hb, rfl⟩, rfl⟩
    exact hb
  · intro hb
    exact ⟨s.link r w, ⟨w, hb, rfl⟩, rfl⟩

private theorem wakeList_eq (h : LinkInv s) : (s.req r).wakeList = (s.behind r).map (s.link r) := by
  rw [behind, map_map]
  conv_lhs => rw [← map_id (s.req r).wakeList]
  refine map_congr_left fun it hit => ?_
  obtain ⟨x, -, rfl⟩ := (h.mem_wake r it).mp hit
  rfl

private theorem behind_nodup (h : LinkInv s) : (s.behind r).Nodup := by
  have hn := h.wake_nodup r
  rw [wakeList_eq h] at hn
  exact hn.of_map

theorem PoolInv.not_blocked (h : PoolInv s) (hr : r ∈ s.ioReqPool) (q : Nat) : ¬ s.Blocks q r :=
  (h.waitList_eq_nil_iff r).mp (h.running_free r hr) q

theorem PoolInv.blocked_waits (h : PoolInv s) {q w : Nat} (hb : s.Blocks q w) : w ∈ s.ioReqOvlpPool :=
  hb.2.2.1.resolve_left fun hp => h.not_blocked hp q hb

private theorem mem_woken (h : LinkInv s) (w : Nat) :
    w ∈ s.woken (s.behind r) ↔ s.Blocks r w ∧ (s.req w).waitList.length = 1 := by
  rw [woken, mem_filter, mem_behind h, h.cnt_wait]
  simp

/-- r leaves, and the requests that waited for r only move on to the running queue. -/
structure Completed (s t : VolIoReqPool) (r : Nat) (ws b : List Nat) : Prop where
  nodup : b.Nodup
  waited : ∀ w ∈ b, w ∈ s.ioReqOvlpPool
  numSubmitted : t.numSubmitted = s.numSubmitted
  pool : t.ioReqPool = s.ioReqPool.erase r ++ b
  ovlpPool : t.ioReqOvlpPool = s.ioReqOvlpPool.diff b
  onfly : t.cntOnflyIoReq = s.cntOnflyIoReq - 1 + b.length
  onfly_ovlp : t.cntOnflyOvlpIoReq = s.cntOnflyOvlpIoReq - b.length
  enterLog : t.enterLog = s.enterLog ++ b
  sameIo : ∀ x, SameIo (t.req x) (s.req x)
  wait : ∀ x, (t.req x).waitList = (s.req x).waitList.erase (s.link r x) ∧
    (t.req x).cntOvlpWait = (s.req x).cntOvlpWait - (if x ∈ ws then 1 else 0)
  wake : ∀ x, (t.req x).wakeList = (if x = r then [] else (s.req x).wakeList) ∧
    (t.req x).cntOvlpWake = (if x = r then 0 else (s.req x).cntOvlpWake)
  inReqPool : ∀ x, (t.req x).inReqPool =
    if x = r then false else if x ∈ b then true else (s.req x).inReqPool
  inWaitPool : ∀ x, (t.req x).inWaitPool = if x ∈ b then false else (s.req x).inWaitPool
  stat : ∀ x, (t.req x).stat = if x ∈ b then .rwUserData else (s.req x).stat

private theorem completed (h : PoolInv s) (hr : r ∈ s.ioReqPool) :
    Completed s (s.ioReqRmIoReqQueue r) r (s.behind r) (s.woken (s.behind r)) := by
  obtain ⟨b, hb⟩ : ∃ b, b = s.woken (s.behind r) := ⟨_, rfl⟩
  have hl := h.toLinkInv
  have hwo (w : Nat) (hw : w ∈ s.behind r) : w ∈ s.ioReqOvlpPool :=
    h.blocked_waits ((mem_behind hl w).mp hw)
  have hne (w : Nat) (hw : w ∈ s.behind r) : w ≠ r := fun he => h.not_both (hwo w hw) (he ▸ hr)
  have hbsub (w : Nat) (hw : w ∈ b) : w ∈ s.behind r := mem_of_mem_filter (hb ▸ hw)
  have hws (w : Nat) (hw : w ∈ s.behind r) : (s.req w).stat = .ovlpWait ∧
      (s.req w).inWaitPool = true ∧ (s.req w).inReqPool = false := by
    refine ⟨h.waiting_stat w (hwo w hw), (h.in_wait w).mpr (hwo w hw), ?_⟩
    exact Bool.eq_false_iff.mpr fun hp => h.not_both (hwo w hw) ((h.in_pool w).mp hp)
  have heq := ioReqRmIoReqQueue_eq s r (s.link r) (fun _ => rfl) (s.behind r) (wakeList_eq hl)
    (fun hm => hne r hm rfl) (behind_nodup hl) ((h.in_pool r).mpr hr) hws
  have hnd : s.ioReqOvlpPool.Nodup := (nodup_append.mp h.nodup).1
  have hdd : (s.ioReqOvlpPool.diff b).diff b = s.ioReqOvlpPool.diff b := by
    rw [(hnd.diff).sdiff_eq_filter, filter_eq_self]
    intro x hx
    simpa using (hnd.mem_sdiff_iff.mp hx).2
  have hnolink (x : Nat) (hx : x ∉ s.behind r) : (s.req x).waitList.erase (s.link r x) = (s.req x).waitList := by
    refine erase_of_not_mem fun hm => hx ?_
    obtain ⟨q, hb, he⟩ := (hl.mem_wait x _).mp hm
    rw [mem_behind hl, show r = q from s.link_injective_left x he]
    exact hb
  have hrb : r ∉ s.behind r := fun hm => hne r hm rfl
  have hrw : r ∉ b := fun hm => hrb (hbsub r hm)
  have hone (x : Nat) (hx : x ∈ s.behind r) : x ∈ b ↔ (s.req x).cntOvlpWait = 1 := by
    rw [hb, mem_woken hl, hl.cnt_wait, ← mem_behind hl]
    simp [hx]
  rw [← hb] at heq ⊢
  rw [heq]
  refine ⟨hb ▸ (behind_nodup hl).filter _, fun w hw => hwo w (hbsub w hw), rfl, rfl, hdd, rfl, rfl, rfl,
    fun x => ?_, fun x => ?_, fun x => ?_, fun x => ?_, fun x => ?_, fun x => ?_⟩
  all_goals
    by_cases h1 : x = r
    · subst h1
      have hc := hl.cnt_wake x
      rw [wakeList_eq hl, length_map] at hc
      simp [SameIo, hrb, hrw, hnolink x hrb, hc]
    · by_cases h3 : x ∈ s.behind r
      · by_cases h2 : x ∈ b
        · simp [SameIo, h1, h2, h3, unlink, (hone x h3).mp h2]
        · simp [SameIo, h1, h2, h3, unlink, mt (hone x h3).mpr h2]
      · have h2 : x ∉ b := fun hm => h3 (hbsub x hm)
        simp [SameIo, h1, h2, h3, hnolink x h3]

namespace Completed
variable {ws b : List Nat}

variable (hc : Completed s t r ws b)
include hc

theorem mem_ovlpPool (h : QueueInv s) (x : Nat) :
    x ∈ t.ioReqOvlpPool ↔ x ∈ s.ioReqOvlpPool ∧ x ∉ b := by
  rw [hc.ovlpPool]
  exact (nodup_append.mp h.nodup).1.mem_sdiff_iff

theorem mem_pool (h : QueueInv s) (x : Nat) :
    x ∈ t.ioReqPool ↔ (x ∈ s.ioReqPool ∧ x ≠ r) ∨ x ∈ b := by
  rw [hc.pool, mem_append, (nodup_append.mp h.nodup).2.1.mem_erase_iff, and_comm]

theorem unfinished (h : QueueInv s) (hr : r ∈ s.ioReqPool) (x : Nat) :
    t.Unfinished x ↔ s.Unfinished x ∧ x ≠ r := by
  have hro : r ∉ s.ioReqOvlpPool := fun hw => h.not_both hw hr
  unfold Unfinished
  rw [hc.mem_pool h, hc.mem_ovlpPool h]
  constructor
  · rintro ((⟨hx, hne⟩ | hx) | ⟨hx, -⟩)
    · exact ⟨Or.inl hx, hne⟩
    · exact ⟨Or.inr (hc.waited x hx), fun he => hro (hc.waited r (he ▸ hx))⟩
    · exact ⟨Or.inr hx, fun he => hro (he ▸ hx)⟩
  · rintro ⟨hx | hx, hne⟩
    · exact Or.inl (Or.inl ⟨hx, hne⟩)
    · by_cases hb : x ∈ b
      · exact Or.inl (Or.inr hb)
      · exact Or.inr ⟨hx, hb⟩

theorem nodup_pools (h : QueueInv s) :
    (t.ioReqOvlpPool ++ t.ioReqPool).Nodup := by
  obtain ⟨hn1, hn2, -⟩ := nodup_append.mp h.nodup
  rw [nodup_append]
  refine ⟨hc.ovlpPool ▸ hn1.diff, ?_, ?_⟩
  · rw [hc.pool]
    refine (hn2.erase r).append hc.nodup fun x hx hb => ?_
    exact h.not_both (hc.waited x hb) (mem_of_mem_erase hx)
  · rintro x hx y hy rfl
    rw [hc.mem_ovlpPool h] at hx
    rcases (hc.mem_pool h x).mp hy with ⟨hy, -⟩ | hy
    · exact h.not_both hx.1 hy
    · exact hx.2 hy

theorem length_ovlpPool (h : QueueInv s) :
    b.length + t.ioReqOvlpPool.length = s.ioReqOvlpPool.length := by
  have hcnt : ∀ x ∈ b, b.count x ≤ s.ioReqOvlpPool.count x := by
    intro x hx
    rw [count_eq_one_of_mem hc.nodup hx,
      count_eq_one_of_mem (nodup_append.mp h.nodup).1 (hc.waited x hx)]
  rw [hc.ovlpPool, ← length_append]
  exact (subperm_append_diff_self_of_count_le hcnt).length_eq

theorem queueInv (h : QueueInv s) (hr : r ∈ s.ioReqPool) : QueueInv t := by
  have hrb : r ∉ b := fun hm => h.not_both (hc.waited r hm) hr
  refine ⟨hc.nodup_pools h, fun x hx => ?_, fun x => ?_, fun x => ?_, fun x hx => ?_, fun x hx => ?_,
    ?_, ?_, fun x => ?_⟩
  · rw [hc.numSubmitted]
    exact h.submitted x ((hc.unfinished h hr x).mp hx).1
  · rw [hc.inReqPool, hc.mem_pool h]
    split_ifs with h1 h2
    · simp [h1, hrb]
    · simp [h2]
    · simp [h.in_pool, h1, h2]
  · rw [hc.inWaitPool, hc.mem_ovlpPool h]
    split_ifs with h2
    · simp [h2]
    · simp [h.in_wait, h2]
  · obtain ⟨hx, hb⟩ := (hc.mem_ovlpPool h x).mp hx
    rw [hc.stat, if_neg hb]
    exact h.waiting_stat x hx
  · rw [hc.stat]
    split_ifs with hb
    · trivial
    · exact h.running_stat x (((hc.mem_pool h x).mp hx).resolve_right hb).1
  · rw [hc.onfly, hc.pool, h.onfly, length_append, length_erase_of_mem hr]
    have := length_pos_of_mem hr
    omega
  · rw [hc.onfly_ovlp, h.onfly_ovlp, ← hc.length_ovlpPool h]
    omega
  · rw [hc.enterLog, count_append, h.entered, hc.numSubmitted]
    simp only [hc.mem_ovlpPool h]
    by_cases hb : x ∈ b
    · have hx := h.submitted x (Or.inr (hc.waited x hb))
      simp [hb, hc.waited x hb, hx, count_eq_one_of_mem hc.nodup hb]
    · simp [hb, count_eq_zero_of_not_mem hb]

end Completed

theorem PoolInv.complete (h : PoolInv s) (hr : r ∈ s.ioReqPool) : PoolInv (s.ioReqRmIoReqQueue r) := by
  have hc := completed h hr
  have hq := h.toQueueInv
  have hlast := mem_woken (r := r) h.toLinkInv
  have hdep : Departure s (s.ioReqRmIoReqQueue r) r (s.behind r) :=
    ⟨h.not_blocked hr, hc.sameIo, hc.unfinished hq hr, mem_behind h.toLinkInv, hc.wait, hc.wake⟩
  refine ⟨hdep.linkInv h.toLinkInv, hc.queueInv hq hr, fun x hx => ?_, fun x hx he => ?_⟩
  · rw [(hc.wait x).1]
    rcases (hc.mem_pool hq x).mp hx with ⟨hx, -⟩ | hx
    · rw [h.running_free x hx]
      rfl
    · obtain ⟨hb, hone⟩ := (hlast x).mp hx
      have hmem := (h.mem_wait x _).mpr ⟨r, hb, rfl⟩
      refine length_eq_zero_iff.mp ?_
      rw [length_erase_of_mem hmem, hone]
  · obtain ⟨hx, hnb⟩ := (hc.mem_ovlpPool hq x).mp hx
    rw [(hc.wait x).1] at he
    by_cases hmem : s.link r x ∈ (s.req x).waitList
    · have hlen := length_erase_of_mem hmem
      have hpos := length_pos_of_mem hmem
      rw [he, length_nil] at hlen
      obtain ⟨q, hb, hqr⟩ := (h.mem_wait x _).mp hmem
      have hrq : r = q := s.link_injective_left x hqr
      exact hnb ((hlast x).mpr ⟨hrq ▸ hb, by omega⟩)
    · rw [erase_of_not_mem hmem] at he
      exact h.waiting_linked x hx he

theorem PoolInv.complete_length (h : PoolInv s) (hr : r ∈ s.ioReqPool) :
    (s.ioReqRmIoReqQueue r).ioReqPool.length + (s.ioReqRmIoReqQueue r).ioReqOvlpPool.length + 1 =
      s.ioReqPool.length + s.ioReqOvlpPool.length ∧
    (s.ioReqRmIoReqQueue r).numSubmitted = s.numSubmitted := by
  have hc := completed h hr
  have hlen := hc.length_ovlpPool h.toQueueInv
  have hpos := length_pos_of_mem hr
  rw [hc.pool, length_append, length_erase_of_mem hr]
  exact ⟨by omega, hc.numSubmitted⟩

theorem PoolInv.complete_sameIo (h : PoolInv s) (hr : r ∈ s.ioReqPool) (x : Nat) :
    SameIo ((s.ioReqRmIoReqQueue r).req x) (s.req x) :=
  (completed h hr).sameIo x

theorem PoolInv.complete_unfinished (h : PoolInv s) (hr : r ∈ s.ioReqPool) (x : Nat) :
    (s.ioReqRmIoReqQueue r).Unfinished x ↔ s.Unfinished x ∧ x ≠ r :=
  (completed h hr).unfinished h.toQueueInv hr x

end complete

theorem PoolInv.progress {s : VolIoReqPool} {r : Nat} (h : PoolInv s) (hr : r ∈ s.ioReqPool)
    (e : IorFsmEvent) :
    PoolInv (s.modifyReq r fun q => { q with stat := (ioReqUpdateState q.stat e).1 }) := by
  obtain ⟨t, ht⟩ : ∃ t, t = s.modifyReq r fun q => { q with stat := (ioReqUpdateState q.stat e).1 } :=
    ⟨_, rfl⟩
  rw [← ht]
  have hreq (x : Nat) : t.req x = { s.req x with
      stat := if x = r then (ioReqUpdateState (s.req x).stat e).1 else (s.req x).stat } := by
    by_cases hx : x = r
    · subst hx
      simp [ht, modifyReq]
    · simp [ht, modifyReq, hx]
  have hunf (x : Nat) : t.Unfinished x ↔ s.Unfinished x := by rw [ht]; rfl
  have hblocks (q x : Nat) : t.Blocks q x ↔ s.Blocks q x := by
    simp only [Blocks, hunf, hreq, Conflict]
  have hlink (q x : Nat) : t.link q x = s.link q x := by
    simp only [link, linkItem, hreq]
  have hpool : t.ioReqPool = s.ioReqPool := by rw [ht]; rfl
  have hovlp : t.ioReqOvlpPool = s.ioReqOvlpPool := by rw [ht]; rfl
  refine ⟨⟨?_, ?_, ?_, ?_, ?_, ?_⟩, ⟨?_, ?_, ?_, ?_, ?_, ?_, ?_, ?_, ?_⟩, ?_, ?_⟩ <;>
    simp only [hpool, hovlp, hunf, hblocks, hlink, hreq]
  · exact h.wait_nodup
  · exact h.wake_nodup
  · exact h.mem_wait
  · exact h.mem_wake
  · exact h.cnt_wait
  · exact h.cnt_wake
  · exact h.nodup
  · rw [ht]
    exact h.submitted
  · exact h.in_pool
  · exact h.in_wait
  · intro x hx
    rw [if_neg fun he : x = r => h.not_both hx (he ▸ hr)]
    exact h.waiting_stat x hx
  · intro x hx
    split_ifs
    · exact (h.running_stat x hx).update e
    · exact h.running_stat x hx
  · rw [ht]
    exact h.onfly
  · rw [ht]
    exact h.onfly_ovlp
  · rw [ht]
    exact h.entered
  · exact h.running_free
  · exact h.waiting_linked

theorem PoolInv.step {s : VolIoReqPool} (h : PoolInv s) {e : PoolEvent} (he : poolMachine.enabled s e) :
    PoolInv (poolMachine.step s e) := by
  cases e with
  | submit a wf dir => exact h.submit a wf dir
  | progress r e => exact h.progress he e
  | complete r => exact h.complete he

end DiscoClient.VolIoReqPool
