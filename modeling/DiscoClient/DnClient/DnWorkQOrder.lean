import DiscoClient.DnClient.DnWorkQ

namespace DiscoClient
open List

inductive DncEvent (ρ : Type*) where
  | add (r : ρ)
  | peek
  | rm (r : ρ)
  /-- What else becomes of a request, as when it is cancelled or to be sent again. -/
  | update (r : ρ) (e : DnReqEvent)

namespace DncEvent
variable {ρ : Type*}

def isAdd : DncEvent ρ → Bool
  | .add _ => true
  | _ => false

def isPeek : DncEvent ρ → Bool
  | .peek => true
  | _ => false

end DncEvent

/-- The worker with the requests added, the number of each one's last addition, and the additions taken. -/
structure DncRun (ρ : Type*) where
  wker : DncWorker ρ
  added : List ρ
  ticket : ρ → Nat
  taken : List (Nat × ρ)

namespace DncRun
variable {ρ : Type*}

def init : DncRun ρ where
  wker := .init
  added := []
  ticket _ := 0
  taken := []

/-- Lists are in the order of the additions, and what was taken from a bucket was added before what is left.
-/
structure Ordered (comm : ρ → DnReqKey) (s : DncRun ρ) : Prop where
  sorted : ∀ b, (s.wker.wkerReqPool b).Pairwise fun p q => s.ticket p < s.ticket q
  numbered : ∀ b, ∀ r ∈ s.wker.wkerReqPool b, s.added[s.ticket r]? = some r
  takenAdded : ∀ p ∈ s.taken, s.added[p.1]? = some p.2
  takenFirst : ∀ p ∈ s.taken, ∀ r ∈ s.wker.wkerReqPool (comm p.2).workqIdx, p.1 < s.ticket r
  order : s.taken.Pairwise fun p q => (comm p.2).workqIdx = (comm q.2).workqIdx → p.1 < q.1

variable {comm : ρ → DnReqKey} {s : DncRun ρ}

namespace Ordered

theorem init : Ordered comm (DncRun.init : DncRun ρ) where
  sorted _ := .nil
  numbered _ _ hr := absurd hr not_mem_nil
  takenAdded _ hp := absurd hp not_mem_nil
  takenFirst _ hp := absurd hp not_mem_nil
  order := .nil

theorem of_sublist (h : Ordered comm s) {w : DncWorker ρ}
    (hw : ∀ b, (w.wkerReqPool b).Sublist (s.wker.wkerReqPool b)) : Ordered comm { s with wker := w } where
  sorted b := (h.sorted b).sublist (hw b)
  numbered b r hr := h.numbered b r ((hw b).subset hr)
  takenAdded := h.takenAdded
  takenFirst p hp r hr := h.takenFirst p hp r ((hw _).subset hr)
  order := h.order

theorem ticket_lt (h : Ordered comm s) {b : Nat} {r : ρ} (hr : r ∈ s.wker.wkerReqPool b) :
    s.ticket r < s.added.length :=
  (List.getElem?_eq_some_iff.mp (h.numbered b r hr)).1

theorem once (h : Ordered comm s) : (s.taken.map Prod.fst).Nodup := by
  rw [List.Nodup, pairwise_map]
  refine h.order.imp_of_mem fun {p q} hp hq hlt heq => ?_
  have hsame : p.2 = q.2 := by
    have hadded := h.takenAdded p hp
    rw [heq, h.takenAdded q hq] at hadded
    exact (Option.some.inj hadded).symm
  exact absurd heq (Nat.ne_of_lt (hlt (by rw [hsame])))

end Ordered

variable [DecidableEq ρ]

def step (comm : ρ → DnReqKey) (s : DncRun ρ) : DncEvent ρ → DncRun ρ
  | .add r =>
    if s.wker.feaInWorkQ r then { s with wker := s.wker.addReqWorkQ comm r }
    else { s with
      wker := s.wker.addReqWorkQ comm r
      added := s.added ++ [r]
      ticket := Function.update s.ticket r s.added.length }
  | .peek => { s with
      wker := s.wker.peekReqWorkQ.1
      taken := s.taken ++ (s.wker.found.map fun r => (s.ticket r, r)).toList }
  | .rm r => { s with wker := s.wker.rmReqWorkQ comm r }
  | .update r e => { s with wker := s.wker.updateState r e }

def exec (comm : ρ → DnReqKey) (s : DncRun ρ) (es : List (DncEvent ρ)) : DncRun ρ := es.foldl (step comm) s

namespace Ordered

theorem of_added (h : Ordered comm s) {r : ρ} {w : DncWorker ρ} (hnew : ∀ b, r ∉ s.wker.wkerReqPool b)
    (hw : ∀ b, w.wkerReqPool b = s.wker.wkerReqPool b ++ if b = (comm r).workqIdx then [r] else []) :
    Ordered comm { s with
      wker := w
      added := s.added ++ [r]
      ticket := Function.update s.ticket r s.added.length } := by
  have hold {b : Nat} {q : ρ} (hq : q ∈ s.wker.wkerReqPool b) :
      Function.update s.ticket r s.added.length q = s.ticket q :=
    Function.update_of_ne (ne_of_mem_of_not_mem hq (hnew b)) _ _
  have hlast : Function.update s.ticket r s.added.length r = s.added.length := Function.update_self _ _ _
  have hmem {b : Nat} {q : ρ} (hq : q ∈ w.wkerReqPool b) : q ∈ s.wker.wkerReqPool b ∨ q = r := by
    rw [hw, mem_append] at hq
    refine hq.imp_right fun hq => ?_
    split_ifs at hq
    · exact mem_singleton.mp hq
    · cases hq
  refine ⟨fun b => ?_, fun b q hq => ?_, fun p hp => ?_, fun p hp q hq => ?_, h.order⟩
  · change (w.wkerReqPool b).Pairwise fun p q =>
      Function.update s.ticket r s.added.length p < Function.update s.ticket r s.added.length q
    rw [hw, pairwise_append]
    refine ⟨(h.sorted b).imp_of_mem fun hp hq hlt => ?_, ?_, fun p hp q hq => ?_⟩
    · rwa [hold hp, hold hq]
    · split_ifs <;> simp
    · split_ifs at hq
      · rw [hold hp, mem_singleton.mp hq, hlast]
        exact h.ticket_lt hp
      · cases hq
  · change (s.added ++ [r])[Function.update s.ticket r s.added.length q]? = some q
    rcases hmem hq with hq | rfl
    · rw [hold hq, List.getElem?_append_left (h.ticket_lt hq)]
      exact h.numbered b q hq
    · rw [hlast, List.getElem?_concat_length]
  · have hadded := h.takenAdded p hp
    change (s.added ++ [r])[p.1]? = some p.2
    rwa [List.getElem?_append_left (List.getElem?_eq_some_iff.mp hadded).1]
  · change p.1 < Function.update s.ticket r s.added.length q
    rcases hmem hq with hq | rfl
    · rw [hold hq]
      exact h.takenFirst p hp q hq
    · rw [hlast]
      exact (List.getElem?_eq_some_iff.mp (h.takenAdded p hp)).1

theorem add (h : Ordered comm s) (hk : s.wker.Kept comm) (r : ρ) : Ordered comm (s.step comm (.add r)) := by
  rw [step]
  split_ifs with hr
  · rw [DncWorker.addReqWorkQ, if_pos hr, DncWorker.setFea_eq hr]
    exact h
  · have hfea : s.wker.feaInWorkQ r = false := Bool.eq_false_iff.mpr hr
    exact h.of_added (hk.not_mem hfea) (DncWorker.Kept.pool_addReqWorkQ hfea)

theorem peek (h : Ordered comm s) (hk : s.wker.Kept comm) : Ordered comm (s.step comm .peek) := by
  rw [step]
  cases hf : s.wker.found with
  | none =>
    have hleft := h.of_sublist (w := s.wker.peekReqWorkQ.1) fun b => by
      rw [hk.pool_peekReqWorkQ, hf]
      exact List.Sublist.refl _
    simpa using hleft
  | some r =>
    have hpool (b : Nat) : s.wker.peekReqWorkQ.1.wkerReqPool b = (s.wker.wkerReqPool b).erase r := by
      rw [hk.pool_peekReqWorkQ, hf]
      rfl
    have hleft := h.of_sublist (w := s.wker.peekReqWorkQ.1) fun b => hpool b ▸ erase_sublist
    have hidx := (hk.found_mem hf).2
    obtain ⟨rest, hhead⟩ : ∃ rest, s.wker.wkerReqPool (comm r).workqIdx = r :: rest :=
      List.head?_eq_some_iff.mp (hidx ▸ hf)
    have hmem : r ∈ s.wker.wkerReqPool (comm r).workqIdx := hhead ▸ mem_cons_self
    refine ⟨hleft.sorted, hleft.numbered, ?_, ?_, ?_⟩
    · intro p hp
      rcases mem_append.mp hp with hp | hp
      · exact h.takenAdded p hp
      · rw [mem_singleton.mp hp]
        exact h.numbered _ r hmem
    · intro p hp q hq
      rcases mem_append.mp hp with hp | hp
      · exact hleft.takenFirst p hp q hq
      · rw [mem_singleton.mp hp] at hq ⊢
        rw [hpool, hhead, erase_cons_head] at hq
        have hsorted := h.sorted (comm r).workqIdx
        rw [hhead] at hsorted
        exact rel_of_pairwise_cons hsorted hq
    · refine pairwise_append.mpr ⟨h.order, pairwise_singleton _ _, fun p hp q hq hsame => ?_⟩
      rw [mem_singleton.mp hq] at hsame ⊢
      exact h.takenFirst p hp r (hsame ▸ hmem)

end Ordered

structure Inv (comm : ρ → DnReqKey) (s : DncRun ρ) : Prop where
  kept : s.wker.Kept comm
  ordered : Ordered comm s

theorem Inv.step (h : Inv comm s) (e : DncEvent ρ) : Inv comm (s.step comm e) := by
  cases e with
  | add r =>
    refine ⟨?_, h.ordered.add h.kept r⟩
    rw [DncRun.step]
    split_ifs <;> exact h.kept.addReqWorkQ r
  | peek => exact ⟨h.kept.peekReqWorkQ, h.ordered.peek h.kept⟩
  | rm r =>
    refine ⟨h.kept.rmReqWorkQ r, h.ordered.of_sublist fun b => ?_⟩
    rw [DncWorker.rmReqWorkQ, h.kept.pool_takeOut]
    exact erase_sublist
  | update r e => exact ⟨h.kept.updateState r e, h.ordered.of_sublist fun _ => List.Sublist.refl _⟩

theorem Inv.exec (h : Inv comm s) (es : List (DncEvent ρ)) : Inv comm (s.exec comm es) := by
  induction es generalizing s with
  | nil => exact h
  | cons e es ih => exact ih (h.step e)

end DncRun
end DiscoClient
