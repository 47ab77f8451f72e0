import Mathlib.Data.Set.Card
import DiscoClient.IoManager.OverlapArrival
import DiscoClient.IoManager.OverlapRelease

/-! The invariant of a volume's overlap queues. Its first half is about the links
between requests, its second half about the two queues. -/
namespace DiscoClient.VolIoReqPool
open List

def Unfinished (s : VolIoReqPool) (r : Nat) : Prop := r ∈ s.ioReqPool ∨ r ∈ s.ioReqOvlpPool

def Blocks (s : VolIoReqPool) (q r : Nat) : Prop :=
  q < r ∧ s.Unfinished q ∧ s.Unfinished r ∧ Conflict (s.req q) (s.req r)

def link (s : VolIoReqPool) (q r : Nat) : OvlpItem := linkItem (s.req q) (s.req r) q r

@[simp] theorem link_waitIor (s : VolIoReqPool) (q r : Nat) : (s.link q r).waitIor = r := rfl

theorem link_injective_left (s : VolIoReqPool) (r : Nat) : Function.Injective (s.link · r) :=
  fun _ _ h => congrArg OvlpItem.processIor h

theorem link_congr {s t : VolIoReqPool} {q r : Nat} (hq : SameIo (t.req q) (s.req q))
    (hr : SameIo (t.req r) (s.req r)) : t.link q r = s.link q r :=
  hq.linkItem hr q r

theorem conflict_congr {p q n m : IoRequest} (h : SameIo p q) (k : SameIo n m) :
    Conflict p n ↔ Conflict q m := by
  simp only [Conflict, h.1, h.2, k.1, k.2]

structure LinkInv (s : VolIoReqPool) : Prop where
  wait_nodup : ∀ r, (s.req r).waitList.Nodup
  wake_nodup : ∀ r, (s.req r).wakeList.Nodup
  mem_wait : ∀ r it, it ∈ (s.req r).waitList ↔ ∃ q, s.Blocks q r ∧ it = s.link q r
  mem_wake : ∀ q it, it ∈ (s.req q).wakeList ↔ ∃ r, s.Blocks q r ∧ it = s.link q r
  cnt_wait : ∀ r, (s.req r).cntOvlpWait = (s.req r).waitList.length
  cnt_wake : ∀ r, (s.req r).cntOvlpWake = (s.req r).wakeList.length

namespace LinkInv
variable {s t : VolIoReqPool}

theorem waitList_eq_nil_iff (h : LinkInv s) (r : Nat) :
    (s.req r).waitList = [] ↔ ∀ q, ¬ s.Blocks q r := by
  rw [eq_nil_iff_forall_not_mem]
  constructor
  · intro hn q hb
    exact hn _ ((h.mem_wait r _).mpr ⟨q, hb, rfl⟩)
  · intro hn it hit
    obtain ⟨q, hb, -⟩ := (h.mem_wait r it).mp hit
    exact hn q hb

end LinkInv

/-- The request n arrives, and is linked to the unfinished requests rv it conflicts with. -/
structure Arrival (s t : VolIoReqPool) (n : Nat) (rv : List Nat) : Prop where
  fresh : ∀ x, s.Unfinished x → x < n
  sameIo : ∀ x, x ≠ n → SameIo (t.req x) (s.req x)
  unfinished : ∀ x, t.Unfinished x ↔ s.Unfinished x ∨ x = n
  nodup : rv.Nodup
  mem : ∀ q, q ∈ rv ↔ s.Unfinished q ∧ Conflict (t.req q) (t.req n)
  new_wait : (t.req n).waitList = rv.map (t.link · n) ∧ (t.req n).cntOvlpWait = rv.length
  new_wake : (t.req n).wakeList = [] ∧ (t.req n).cntOvlpWake = 0
  wait : ∀ x, x ≠ n → (t.req x).waitList = (s.req x).waitList ∧
    (t.req x).cntOvlpWait = (s.req x).cntOvlpWait
  wake : ∀ x, x ≠ n →
    (t.req x).wakeList = (s.req x).wakeList ++ (if x ∈ rv then [t.link x n] else []) ∧
    (t.req x).cntOvlpWake = (s.req x).cntOvlpWake + (if x ∈ rv then 1 else 0)

namespace Arrival
variable {s t : VolIoReqPool} {n : Nat} {rv : List Nat}

variable (ha : Arrival s t n rv)
include ha

theorem not_blocks (q : Nat) : ¬ s.Blocks q n ∧ ¬ s.Blocks n q :=
  ⟨fun hb => Nat.lt_irrefl n (ha.fresh n hb.2.2.1), fun hb => Nat.lt_irrefl n (ha.fresh n hb.2.1)⟩

theorem ne_of_blocks {q r : Nat} (hb : s.Blocks q r) : q ≠ n ∧ r ≠ n :=
  ⟨Nat.ne_of_lt (ha.fresh q hb.2.1), Nat.ne_of_lt (ha.fresh r hb.2.2.1)⟩

/-- The new request waits for its rivals; nothing else changes about who waits for whom. -/
theorem blocks_iff (q r : Nat) : t.Blocks q r ↔ s.Blocks q r ∨ (r = n ∧ q ∈ rv) := by
  constructor
  · rintro ⟨hqr, hq, hr, hc⟩
    rw [ha.unfinished] at hq hr
    by_cases hrn : r = n
    · subst hrn
      exact Or.inr ⟨rfl, (ha.mem q).mpr ⟨hq.resolve_right (Nat.ne_of_lt hqr), hc⟩⟩
    · have hr' := hr.resolve_right hrn
      have hqn : q ≠ n := Nat.ne_of_lt (Nat.lt_trans hqr (ha.fresh r hr'))
      exact Or.inl ⟨hqr, hq.resolve_right hqn, hr',
        (conflict_congr (ha.sameIo q hqn) (ha.sameIo r hrn)).mp hc⟩
  · rintro (hb | ⟨rfl, hq⟩)
    · obtain ⟨hqn, hrn⟩ := ha.ne_of_blocks hb
      obtain ⟨hqr, hq, hr, hc⟩ := hb
      exact ⟨hqr, (ha.unfinished q).mpr (Or.inl hq), (ha.unfinished r).mpr (Or.inl hr),
        (conflict_congr (ha.sameIo q hqn) (ha.sameIo r hrn)).mpr hc⟩
    · obtain ⟨hq, hc⟩ := (ha.mem q).mp hq
      exact ⟨ha.fresh q hq, (ha.unfinished q).mpr (Or.inl hq), (ha.unfinished r).mpr (Or.inr rfl), hc⟩

theorem link_eq {q r : Nat} (hb : s.Blocks q r) : t.link q r = s.link q r :=
  link_congr (ha.sameIo q (ha.ne_of_blocks hb).1) (ha.sameIo r (ha.ne_of_blocks hb).2)

theorem mem_waitList (h : LinkInv s) (r : Nat) (it : OvlpItem) :
    it ∈ (t.req r).waitList ↔ ∃ q, t.Blocks q r ∧ it = t.link q r := by
  by_cases hr : r = n
  · subst hr
    simp only [ha.new_wait.1, mem_map, ha.blocks_iff, (ha.not_blocks _).1, true_and, false_or]
    exact exists_congr fun q => and_congr_right fun _ => eq_comm
  · rw [(ha.wait r hr).1, h.mem_wait]
    refine exists_congr fun q => ?_
    simp only [ha.blocks_iff, hr, false_and, or_false]
    exact and_congr_right fun hb => by rw [ha.link_eq hb]

theorem mem_wakeList (h : LinkInv s) (q : Nat) (it : OvlpItem) :
    it ∈ (t.req q).wakeList ↔ ∃ r, t.Blocks q r ∧ it = t.link q r := by
  by_cases hq : q = n
  · subst hq
    simp only [ha.new_wake.1, not_mem_nil, false_iff, not_exists, ha.blocks_iff]
    rintro r ⟨hb | ⟨rfl, hb⟩, -⟩
    · exact (ha.not_blocks r).2 hb
    · exact Nat.lt_irrefl r (ha.fresh r ((ha.mem r).mp hb).1)
  · rw [(ha.wake q hq).1, mem_append, h.mem_wake]
    constructor
    · rintro (⟨r, hb, rfl⟩ | hit)
      · exact ⟨r, (ha.blocks_iff q r).mpr (Or.inl hb), (ha.link_eq hb).symm⟩
      · split_ifs at hit with hqr
        · exact ⟨n, (ha.blocks_iff q n).mpr (Or.inr ⟨rfl, hqr⟩), mem_singleton.mp hit⟩
        · exact absurd hit not_mem_nil
    · rintro ⟨r, hb, rfl⟩
      rcases (ha.blocks_iff q r).mp hb with hb | ⟨rfl, hqr⟩
      · exact Or.inl ⟨r, hb, ha.link_eq hb⟩
      · exact Or.inr (by simp [hqr])

theorem nodup_wakeList (h : LinkInv s) (r : Nat) : (t.req r).wakeList.Nodup := by
  by_cases hr : r = n
  · rw [hr, ha.new_wake.1]
    exact nodup_nil
  · rw [(ha.wake r hr).1]
    split_ifs with hrr
    · refine (h.wake_nodup r).append (nodup_singleton _) fun it hit hit' => ?_
      obtain ⟨x, hb, rfl⟩ := (h.mem_wake r it).mp hit
      have hx : x = n := by simpa using congrArg OvlpItem.waitIor (mem_singleton.mp hit')
      exact (ha.ne_of_blocks hb).2 hx
    · simpa using h.wake_nodup r

theorem linkInv (h : LinkInv s) : LinkInv t := by
  refine ⟨fun r => ?_, ha.nodup_wakeList h, ha.mem_waitList h, ha.mem_wakeList h, fun r => ?_, fun r => ?_⟩
  · by_cases hr : r = n
    · rw [hr, ha.new_wait.1]
      exact ha.nodup.map (t.link_injective_left n)
    · rw [(ha.wait r hr).1]
      exact h.wait_nodup r
  · by_cases hr : r = n
    · rw [hr, ha.new_wait.1, ha.new_wait.2, length_map]
    · rw [(ha.wait r hr).1, (ha.wait r hr).2, h.cnt_wait]
  · by_cases hr : r = n
    · rw [hr, ha.new_wake.1, ha.new_wake.2]
      rfl
    · rw [(ha.wake r hr).1, (ha.wake r hr).2, h.cnt_wake]
      split_ifs <;> simp

end Arrival

/-- The running request r leaves, with the links to the requests ws behind it. -/
structure Departure (s t : VolIoReqPool) (r : Nat) (ws : List Nat) : Prop where
  running : ∀ q, ¬ s.Blocks q r
  sameIo : ∀ x, SameIo (t.req x) (s.req x)
  unfinished : ∀ x, t.Unfinished x ↔ s.Unfinished x ∧ x ≠ r
  mem : ∀ w, w ∈ ws ↔ s.Blocks r w
  wait : ∀ x, (t.req x).waitList = (s.req x).waitList.erase (s.link r x) ∧
    (t.req x).cntOvlpWait = (s.req x).cntOvlpWait - (if x ∈ ws then 1 else 0)
  wake : ∀ x, (t.req x).wakeList = (if x = r then [] else (s.req x).wakeList) ∧
    (t.req x).cntOvlpWake = (if x = r then 0 else (s.req x).cntOvlpWake)

namespace Departure
variable {s t : VolIoReqPool} {r : Nat} {ws : List Nat}

variable (hd : Departure s t r ws)
include hd

theorem blocks_iff (q x : Nat) : t.Blocks q x ↔ s.Blocks q x ∧ q ≠ r := by
  have hx : s.Blocks q x → x ≠ r := fun hb he => hd.running q (he ▸ hb)
  constructor
  · rintro ⟨h1, h2, h3, h4⟩
    rw [hd.unfinished] at h2 h3
    exact ⟨⟨h1, h2.1, h3.1, (conflict_congr (hd.sameIo q) (hd.sameIo x)).mp h4⟩, h2.2⟩
  · rintro ⟨hb, hq⟩
    exact ⟨hb.1, (hd.unfinished q).mpr ⟨hb.2.1, hq⟩, (hd.unfinished x).mpr ⟨hb.2.2.1, hx hb⟩,
      (conflict_congr (hd.sameIo q) (hd.sameIo x)).mpr hb.2.2.2⟩

theorem link_eq (q x : Nat) : t.link q x = s.link q x :=
  link_congr (hd.sameIo q) (hd.sameIo x)

theorem mem_link (h : LinkInv s) (x : Nat) :
    s.link r x ∈ (s.req x).waitList ↔ x ∈ ws := by
  rw [h.mem_wait, hd.mem]
  refine ⟨?_, fun hb => ⟨r, hb, rfl⟩⟩
  rintro ⟨q, hb, he⟩
  rwa [s.link_injective_left x he]

theorem linkInv (h : LinkInv s) : LinkInv t := by
  refine ⟨fun x => ?_, fun x => ?_, fun x it => ?_, fun q it => ?_, fun x => ?_, fun x => ?_⟩
  · rw [(hd.wait x).1]
    exact (h.wait_nodup x).erase _
  · rw [(hd.wake x).1]
    split_ifs
    · exact nodup_nil
    · exact h.wake_nodup x
  · rw [(hd.wait x).1, (h.wait_nodup x).mem_erase_iff, h.mem_wait]
    constructor
    · rintro ⟨hne, q, hb, rfl⟩
      exact ⟨q, (hd.blocks_iff q x).mpr ⟨hb, fun hq => hne (hq ▸ rfl)⟩, (hd.link_eq q x).symm⟩
    · rintro ⟨q, hb, rfl⟩
      obtain ⟨hb, hq⟩ := (hd.blocks_iff q x).mp hb
      rw [hd.link_eq]
      exact ⟨fun he => hq (s.link_injective_left x he), q, hb, rfl⟩
  · rw [(hd.wake q).1]
    split_ifs with hq
    · simp [hd.blocks_iff, hq]
    · simp [h.mem_wake, hd.blocks_iff, hd.link_eq, hq]
  · rw [(hd.wait x).1, (hd.wait x).2, h.cnt_wait, length_erase]
    by_cases hx : x ∈ ws
    · have := length_pos_of_mem ((hd.mem_link h x).mpr hx)
      rw [if_pos hx, if_pos ((hd.mem_link h x).mpr hx)]
      omega
    · rw [if_neg hx, if_neg (mt (hd.mem_link h x).mp hx)]
      simp
  · rw [(hd.wake x).1, (hd.wake x).2]
    split_ifs
    · rfl
    · exact h.cnt_wake x

end Departure

structure QueueInv (s : VolIoReqPool) : Prop where
  nodup : (s.ioReqOvlpPool ++ s.ioReqPool).Nodup
  submitted : ∀ r, s.Unfinished r → r < s.numSubmitted
  in_pool : ∀ r, (s.req r).inReqPool = true ↔ r ∈ s.ioReqPool
  in_wait : ∀ r, (s.req r).inWaitPool = true ↔ r ∈ s.ioReqOvlpPool
  waiting_stat : ∀ r ∈ s.ioReqOvlpPool, (s.req r).stat = .ovlpWait
  running_stat : ∀ r ∈ s.ioReqPool, (s.req r).stat.Started
  onfly : s.cntOnflyIoReq = s.ioReqPool.length
  onfly_ovlp : s.cntOnflyOvlpIoReq = s.ioReqOvlpPool.length
  entered : ∀ r, s.enterLog.count r = if r < s.numSubmitted ∧ r ∉ s.ioReqOvlpPool then 1 else 0

structure PoolInv (s : VolIoReqPool) : Prop extends LinkInv s, QueueInv s where
  running_free : ∀ r ∈ s.ioReqPool, (s.req r).waitList = []
  waiting_linked : ∀ r ∈ s.ioReqOvlpPool, (s.req r).waitList ≠ []

namespace QueueInv
variable {s : VolIoReqPool}

theorem not_both (h : QueueInv s) {r : Nat} (hw : r ∈ s.ioReqOvlpPool) : r ∉ s.ioReqPool :=
  fun hp => (nodup_append.mp h.nodup).2.2 r hw r hp rfl

theorem not_entered (h : QueueInv s) {r : Nat} (hr : s.numSubmitted ≤ r) :
    r ∉ s.ioReqPool ∧ r ∉ s.ioReqOvlpPool := by
  constructor <;> intro hm
  · exact absurd (h.submitted r (Or.inl hm)) (by omega)
  · exact absurd (h.submitted r (Or.inr hm)) (by omega)

end QueueInv

theorem PoolInv.init : PoolInv initVolIoQ := by
  constructor
  · constructor <;> simp [initVolIoQ, Blocks, Unfinished, default, IoRequest.initRequest]
  · constructor <;> simp [initVolIoQ, Unfinished, default, IoRequest.initRequest]
  · simp [initVolIoQ]
  · simp [initVolIoQ]

end DiscoClient.VolIoReqPool
