import DiscoClient.NnClient.OvwQueue
import Mathlib.Data.List.Nodup

namespace DiscoClient.OvwQueue
open List

def numIn (st : OvwReqState) (q : List OvwReq) : Nat := q.countP (·.state == st)

structure Accounted (s : OvwQueue) : Prop where
  waiting : s.numWaitForSend = numIn .ovwStart s.queue
  sent : s.numSendToNn = numIn .sendToNn s.queue
  size : s.workingQueueSize = s.queue.length

/-- With a request to send and the limit not exceeded, the send worker's condition holds. -/
def WakesUp (s : OvwQueue) : Prop :=
  (∃ r ∈ s.queue, r.state = .ovwStart) → s.numSendToNn ≤ maxOvwRequestCanBeSendOut → s.wakeUp = true

instance (s : OvwQueue) : Decidable (WakesUp s) :=
  inferInstanceAs (Decidable ((∃ r ∈ s.queue, r.state = .ovwStart) → _ → _))

/-- The requests that receive threads hold. -/
def holders (s : OvwQueue) : List Nat := s.rx.map (·.req) ++ s.removing

/-- The request get_ovw_req is about to free is not one that a receive thread holds. -/
def TakesUnheld (s : OvwQueue) : Prop :=
  ∀ cut ∈ FirstMatch.split stopsAt s.queue, cut.2.1.state = .cancel → cut.2.1.addr ∉ s.holders

def AnswersSent (s : OvwQueue) (volid : Nat) : Prop := ∀ r ∈ s.findOvwReq volid, r.state ≠ .ovwStart

/-- A bitmap that is not cancelled is received whole. -/
def EndsWhole (s : OvwQueue) (h : OvwRx) (recvFail : Bool) : Prop :=
  recvFail = true → h.cancelled = true ∨ ∀ r ∈ s.queue, r.addr = h.req → r.state = .cancel

/-- The request that a receive thread is about to free is held by no other one. -/
def RemovesUnheld (s : OvwQueue) (addr : Nat) : Prop := addr ∉ holders { s with removing := s.removing.erase addr }

def Orderly (s : OvwQueue) : Event → Prop
  | .take => TakesUnheld s
  | .respBegin volid => AnswersSent s volid
  | .respEnd h recvFail => EndsWhole s h recvFail
  | .respRemove addr => RemovesUnheld s addr
  | _ => True

instance decidableOrderly (s : OvwQueue) : ∀ e, Decidable (Orderly s e)
  | .take => inferInstanceAs (Decidable (∀ cut ∈ FirstMatch.split stopsAt s.queue, cut.2.1.state = .cancel →
      cut.2.1.addr ∉ s.holders))
  | .respBegin volid => inferInstanceAs (Decidable (∀ r ∈ s.findOvwReq volid, r.state ≠ .ovwStart))
  | .respEnd h recvFail => inferInstanceAs (Decidable (recvFail = true →
      h.cancelled = true ∨ ∀ r ∈ s.queue, r.addr = h.req → r.state = .cancel))
  | .respRemove addr => inferInstanceAs (Decidable (addr ∉ holders { s with removing := s.removing.erase addr }))
  | .addFind _ | .addInsert _ _ | .cancel _ | .retry => isTrue trivial

theorem Accounted.wakesUp {s : OvwQueue} (h : Accounted s) : WakesUp s := by
  rintro ⟨r, hr, hstart⟩ hlimit
  have hsize : 0 < s.queue.length := length_pos_of_mem hr
  have hwait : 0 < numIn .ovwStart s.queue := countP_pos_iff.mpr ⟨r, hr, by simp [hstart]⟩
  have hsize' : 0 < s.workingQueueSize := by rw [h.size]; exact_mod_cast hsize
  have hwait' : 0 < s.numWaitForSend := by rw [h.waiting]; exact_mod_cast hwait
  simp [wakeUp, hsize', hwait', hlimit]

/-! ### One request changes or leaves -/

section Change
variable {s s' : OvwQueue} {before after : List OvwReq} {r r' : OvwReq}

def one (st : OvwReqState) (r : OvwReq) : Nat := if r.state = st then 1 else 0

theorem numIn_cut (st : OvwReqState) (before after : List OvwReq) (r : OvwReq) :
    numIn st (before ++ r :: after) = numIn st (before ++ after) + one st r := by
  simp only [numIn, one, countP_append, countP_cons, beq_iff_eq]
  omega

theorem Accounted.replace (h : Accounted s) (hq : s.queue = before ++ r :: after)
    (hq' : s'.queue = before ++ r' :: after)
    (hw : s'.numWaitForSend = s.numWaitForSend - one .ovwStart r + one .ovwStart r')
    (hs : s'.numSendToNn = s.numSendToNn - one .sendToNn r + one .sendToNn r')
    (hn : s'.workingQueueSize = s.workingQueueSize) : Accounted s' := by
  obtain ⟨hwait, hsent, hsize⟩ := h
  rw [hq, numIn_cut] at hwait hsent
  rw [hq] at hsize
  refine ⟨?_, ?_, ?_⟩
  · rw [hw, hq', numIn_cut, hwait]
    push_cast
    omega
  · rw [hs, hq', numIn_cut, hsent]
    push_cast
    omega
  · rw [hn, hq', hsize]
    simp

/-- Neither waiting nor out. -/
structure Busy (r : OvwReq) : Prop where
  notStart : r.state ≠ .ovwStart
  notSent : r.state ≠ .sendToNn

theorem Accounted.remove (h : Accounted s) (hq : s.queue = before ++ r :: after) (hr : Busy r)
    (hq' : s'.queue = before ++ after)
    (hw : s'.numWaitForSend = s.numWaitForSend) (hs : s'.numSendToNn = s.numSendToNn)
    (hn : s'.workingQueueSize = s.workingQueueSize - 1) : Accounted s' := by
  obtain ⟨hwait, hsent, hsize⟩ := h
  rw [hq, numIn_cut, one, if_neg hr.notStart] at hwait
  rw [hq, numIn_cut, one, if_neg hr.notSent] at hsent
  rw [hq] at hsize
  refine ⟨by rw [hw, hq', hwait]; simp, by rw [hs, hq', hsent]; simp, ?_⟩
  rw [hn, hq', hsize]
  simp only [length_append, length_cons]
  push_cast
  omega

end Change

/-- An address is queued once, and what a receive thread holds is queued and busy. -/
structure Inv (s : OvwQueue) : Prop where
  accounted : Accounted s
  addrs : (s.queue.map (·.addr)).Nodup
  held : ∀ addr ∈ s.holders, ∃ r ∈ s.queue, r.addr = addr ∧ Busy r

section Step
variable {s : OvwQueue}

theorem Inv.busy_of_held (hs : Inv s) {r : OvwReq} (hr : r ∈ s.queue) (hheld : r.addr ∈ s.holders) : Busy r := by
  obtain ⟨r', hr', ha', hbusy⟩ := hs.held r.addr hheld
  have heq : r' = r := inj_on_of_nodup_map hs.addrs hr' hr ha'
  rwa [← heq]

/-- A step that leaves the queue as it is. -/
theorem Inv.unchanged (hs : Inv s) {s' : OvwQueue} (hq : s'.queue = s.queue) (hw : s'.numWaitForSend = s.numWaitForSend)
    (hsent : s'.numSendToNn = s.numSendToNn) (hn : s'.workingQueueSize = s.workingQueueSize)
    (hheld : s'.holders ⊆ s.holders) : Inv s' := by
  refine ⟨⟨?_, ?_, ?_⟩, hq ▸ hs.addrs, fun addr h => hq ▸ hs.held addr (hheld h)⟩
  · rw [hw, hq, hs.accounted.waiting]
  · rw [hsent, hq, hs.accounted.sent]
  · rw [hn, hq, hs.accounted.size]

theorem Inv.replaced (hs : Inv s) {s' : OvwQueue} {before after : List OvwReq} {r r' : OvwReq}
    (hq : s.queue = before ++ r :: after) (hq' : s'.queue = before ++ r' :: after)
    (haddr : r'.addr = r.addr) (hacc : Accounted s') (hheld : s'.holders ⊆ s.holders)
    (hbusy : r.addr ∈ s.holders → Busy r') : Inv s' := by
  refine ⟨hacc, ?_, ?_⟩
  · have haddrs : s'.queue.map (·.addr) = s.queue.map (·.addr) := by simp [hq, hq', haddr]
    rw [haddrs]
    exact hs.addrs
  · intro addr h
    obtain ⟨q, hqm, rfl, hst⟩ := hs.held addr (hheld h)
    rw [hq] at hqm
    rcases mem_append.mp hqm with hb | ht
    · exact ⟨q, by rw [hq']; exact mem_append_left _ hb, rfl, hst⟩
    · rcases mem_cons.mp ht with rfl | haft
      · exact ⟨r', by rw [hq']; simp, haddr, hbusy (hheld h)⟩
      · exact ⟨q, by rw [hq']; simp [haft], rfl, hst⟩

theorem Inv.removed (hs : Inv s) {s' : OvwQueue} {before after : List OvwReq} {r : OvwReq}
    (hq : s.queue = before ++ r :: after) (hq' : s'.queue = before ++ after) (hacc : Accounted s')
    (hheld : s'.holders ⊆ s.holders) (hfree : r.addr ∉ s'.holders) : Inv s' := by
  refine ⟨hacc, ?_, ?_⟩
  · rw [hq']
    refine hs.addrs.sublist ?_
    rw [hq]
    exact (List.Sublist.append_left (sublist_cons_self r after) before).map _
  · intro addr h
    obtain ⟨q, hqm, rfl, hst⟩ := hs.held addr (hheld h)
    refine ⟨q, ?_, rfl, hst⟩
    rw [hq] at hqm
    rw [hq']
    rcases mem_append.mp hqm with hb | ht
    · exact mem_append_left _ hb
    · rcases mem_cons.mp ht with rfl | haft
      · exact absurd h hfree
      · exact mem_append_right _ haft

theorem findSetOvwReq_cases (s : OvwQueue) (volid : Nat) (state : OvwReqState) :
    ((s.findSetOvwReq volid state).1 = s ∧
      ∀ r ∈ (s.findSetOvwReq volid state).2, r ∈ s.queue ∧ r.state = .cancel) ∨
    ∃ before r after r', s.queue = before ++ r :: after ∧ s.findOvwReq volid = some r ∧ r.state ≠ .cancel ∧
      r'.addr = r.addr ∧ r'.state = state ∧
      s.findSetOvwReq volid state =
        ({ s with
            queue := before ++ r' :: after
            numWaitForSend := s.numWaitForSend - if (state == .cancel) && r.state == .ovwStart then 1 else 0
            numSendToNn := s.numSendToNn - if r.state = .sendToNn then 1 else 0 }, some r) := by
  by_cases hready : s.ready = true
  · cases hsplit : FirstMatch.split (·.volId == volid) s.queue with
    | none => exact Or.inl (by simp [findSetOvwReq, hready, hsplit])
    | some cut =>
      obtain ⟨before, r, after⟩ := cut
      obtain ⟨hq, -, -⟩ := FirstMatch.of_split_eq_some hsplit
      by_cases hcancel : r.state = .cancel
      · refine Or.inl ⟨by simp [findSetOvwReq, hready, hsplit, hcancel], ?_⟩
        intro q hqm
        obtain rfl : r = q := by simpa [findSetOvwReq, hready, hsplit, hcancel] using hqm
        exact ⟨by simp [hq], hcancel⟩
      · refine Or.inr ⟨before, r, after, _, hq, by simp [findOvwReq, hready, hsplit], hcancel, ?_, ?_,
          by rw [findSetOvwReq, if_pos hready, hsplit]; simp only [hcancel, if_false]; rfl⟩ <;> rfl
  · exact Or.inl (by simp [findSetOvwReq, hready])

section

variable (hs : Inv s)
include hs

theorem Inv.addFind (a : OvwAdder) : Inv (s.addFind a) := by
  unfold OvwQueue.addFind
  split_ifs
  · exact hs.unchanged rfl rfl rfl rfl (List.Subset.refl _)
  · exact hs

theorem Inv.addInsert (a : OvwAdder) (addr : Option Nat)
    (hfresh : ∀ r ∈ s.queue, some r.addr ≠ addr) : Inv (s.addInsert a addr) := by
  cases addr with
  | none => exact hs.unchanged rfl rfl rfl rfl (List.Subset.refl _)
  | some addr =>
    obtain ⟨hwait, hsent, hsize⟩ := hs.accounted
    refine ⟨⟨?_, ?_, ?_⟩, ?_, ?_⟩
    · simp [OvwQueue.addInsert, numIn, createOvwReq, hwait]
    · simp [OvwQueue.addInsert, numIn, createOvwReq, hsent]
    · simp [OvwQueue.addInsert, hsize]
    · have hnot : addr ∉ s.queue.map (·.addr) := by
        intro hmem
        obtain ⟨r, hr, ha⟩ := mem_map.mp hmem
        exact hfresh r hr (congrArg some ha)
      simpa [OvwQueue.addInsert, createOvwReq] using hs.addrs.concat hnot
    · intro h hh
      obtain ⟨r, hr, hst⟩ := hs.held h hh
      exact ⟨r, mem_append_left _ hr, hst⟩

theorem Inv.take (hfree : TakesUnheld s) : Inv s.getOvwReq.1 := by
  cases hsplit : FirstMatch.split stopsAt s.queue with
  | none => simpa [getOvwReq, hsplit] using hs
  | some cut =>
    obtain ⟨before, r, after⟩ := cut
    obtain ⟨hq, hstops, -⟩ := FirstMatch.of_split_eq_some hsplit
    have hmem : r ∈ s.queue := by simp [hq]
    by_cases hstart : r.state = .ovwStart
    · have hget : s.getOvwReq.1 =
          { s with
            queue := before ++ { r with state := .sendToNn } :: after
            numSendToNn := s.numSendToNn + 1
            numWaitForSend := s.numWaitForSend - 1 } := by simp [getOvwReq, hsplit, hstart]
      have hacc : Accounted s.getOvwReq.1 := by
        rw [hget]
        exact hs.accounted.replace hq rfl (by simp [one, hstart]) (by simp [one, hstart]) rfl
      rw [hget] at hacc ⊢
      -- a receive thread holds no request that waits to be sent
      exact hs.replaced hq rfl rfl hacc (List.Subset.refl _) fun hheld =>
        absurd hstart (hs.busy_of_held hmem hheld).notStart
    · have hcancel : r.state = .cancel := by
        rcases Bool.or_eq_true_iff.mp hstops with h | h
        · exact absurd (eq_of_beq h) hstart
        · exact eq_of_beq h
      have hget : s.getOvwReq.1 =
          { s with queue := before ++ after, workingQueueSize := s.workingQueueSize - 1 } := by
        simp [getOvwReq, hsplit, hstart]
      have hacc : Accounted s.getOvwReq.1 := by
        rw [hget]
        exact hs.accounted.remove hq ⟨hstart, by simp [hcancel]⟩ rfl rfl rfl rfl
      rw [hget] at hacc ⊢
      exact hs.removed hq rfl hacc (List.Subset.refl _) (hfree _ hsplit hcancel)

theorem Inv.findSet (volid : Nat) {state : OvwReqState}
    (hstate : state = .cancel ∨ state = .processResponse ∧ AnswersSent s volid) :
    Inv (s.findSetOvwReq volid state).1 := by
  rcases findSetOvwReq_cases s volid state with ⟨hsame, -⟩ | ⟨before, r, after, r', hq, hfind, -, haddr, hst, heq⟩
  · rw [hsame]
    exact hs
  · have hacc : Accounted (s.findSetOvwReq volid state).1 := by
      rw [heq]
      rcases hstate with rfl | ⟨rfl, hsent⟩
      · refine hs.accounted.replace hq rfl ?_ ?_ rfl
        · by_cases h : r.state = .ovwStart <;> simp [one, hst, h]
        · by_cases h : r.state = .sendToNn <;> simp [one, hst, h]
      · have hstart : r.state ≠ .ovwStart := hsent r hfind
        refine hs.accounted.replace hq rfl ?_ ?_ rfl
        · simp [one, hst, hstart]
        · by_cases h : r.state = .sendToNn <;> simp [one, hst, h]
    rw [heq] at hacc ⊢
    refine hs.replaced hq rfl haddr hacc (List.Subset.refl _) fun _ => ?_
    rcases hstate with rfl | ⟨rfl, -⟩ <;> exact ⟨by simp [hst], by simp [hst]⟩

theorem Inv.respBegin (volid : Nat) (hsent : AnswersSent s volid) : Inv (s.respBegin volid) := by
  have hset := hs.findSet volid (Or.inr ⟨rfl, hsent⟩)
  obtain ⟨t, ht⟩ : ∃ t, t = s.findSetOvwReq volid .processResponse := ⟨_, rfl⟩
  -- the request the thread goes on with is in PROCESS_RESPONSE, or was cancelled before
  have hfound : ∀ r ∈ t.2, ∃ q ∈ t.1.queue, q.addr = r.addr ∧ Busy q := by
    rw [ht]
    rcases findSetOvwReq_cases s volid .processResponse with ⟨hsame, hall⟩ | ⟨before, r, after, r', -, -, -, ha, hst, heq⟩
    · intro r hr
      obtain ⟨hmem, hcancel⟩ := hall r hr
      exact ⟨r, by rw [hsame]; exact hmem, rfl, by simp [hcancel], by simp [hcancel]⟩
    · intro q hq
      rw [heq] at hq ⊢
      obtain rfl : r = q := by simpa using hq
      exact ⟨r', by simp, ha, by simp [hst], by simp [hst]⟩
  rw [OvwQueue.respBegin, ← ht]
  rw [← ht] at hset
  obtain ⟨s', found⟩ := t
  cases found with
  | none => exact hset
  | some r =>
    refine ⟨⟨hset.accounted.waiting, hset.accounted.sent, hset.accounted.size⟩, hset.addrs, ?_⟩
    intro addr h
    rcases mem_cons.mp h with rfl | h
    · exact hfound r rfl
    · exact hset.held addr h

theorem Inv.respEnd {h : OvwRx} (hh : h ∈ s.rx) (recvFail : Bool) (hwhole : EndsWhole s h recvFail) :
    Inv (s.respEnd h recvFail) := by
  have hin : h.req ∈ s.holders := mem_append_left _ (mem_map_of_mem hh)
  have hheld : (s.rx.erase h).map (·.req) ++ h.req :: s.removing ⊆ s.holders := by
    intro addr ha
    rcases mem_append.mp ha with ha | ha
    · exact mem_append_left _ (map_subset _ erase_subset ha)
    · rcases mem_cons.mp ha with rfl | ha
      · exact hin
      · exact mem_append_right _ ha
  have hpass : Inv { s with rx := s.rx.erase h, removing := h.req :: s.removing } := hs.unchanged rfl rfl rfl rfl hheld
  by_cases hcan : h.cancelled = true
  · rw [OvwQueue.respEnd, if_pos hcan]
    exact hpass
  rw [OvwQueue.respEnd, if_neg hcan]
  cases hsplit : FirstMatch.split (·.addr == h.req) s.queue with
  | none => exact hpass
  | some cut =>
    obtain ⟨before, r, after⟩ := cut
    obtain ⟨hq, haddr, -⟩ := FirstMatch.of_split_eq_some hsplit
    have haddr : r.addr = h.req := by simpa using haddr
    have hmem : r ∈ s.queue := by simp [hq]
    dsimp only
    by_cases hcancel : r.state = .cancel
    · rw [if_pos hcancel]
      exact hpass
    have hfail : ¬recvFail = true := fun hfail => hcancel ((hwhole hfail).resolve_left hcan r hmem haddr)
    have hbusy := hs.busy_of_held hmem (haddr ▸ hin)
    rw [if_neg hcancel, if_neg hfail]
    refine hs.replaced hq rfl rfl
      (hs.accounted.replace hq rfl ?_ ?_ rfl) hheld fun _ => ⟨by simp, by simp⟩
    · simp [one, hbusy.notStart]
    · simp [one, hbusy.notSent]

theorem Inv.respRemove {addr : Nat} (ha : addr ∈ s.removing) (hfree : RemovesUnheld s addr) :
    Inv (s.respRemove addr) := by
  have hheld : holders { s with removing := s.removing.erase addr } ⊆ s.holders := fun a ha =>
    (mem_append.mp ha).elim (mem_append_left _) fun h => mem_append_right _ (mem_of_mem_erase h)
  rw [OvwQueue.respRemove, rmOvwReq]
  split
  · exact hs.unchanged rfl rfl rfl rfl hheld
  · rename_i before r after hsplit
    obtain ⟨hq, haddr, -⟩ := FirstMatch.of_split_eq_some hsplit
    have haddr : r.addr = addr := by simpa using haddr
    have hbusy := hs.busy_of_held (hq ▸ mem_append_right _ mem_cons_self)
      (haddr ▸ mem_append_right _ ha)
    exact hs.removed hq rfl (hs.accounted.remove hq hbusy rfl rfl rfl rfl) hheld (haddr ▸ hfree)

end

theorem retryLoop_eq (s : OvwQueue) (q : List OvwReq) :
    retryLoop s q =
      { s with
        numSendToNn := s.numSendToNn - numIn .sendToNn q
        numWaitForSend := s.numWaitForSend + numIn .sendToNn q } := by
  induction q generalizing s with
  | nil => simp [retryLoop, numIn]
  | cons r q ih =>
    by_cases h : r.state = .sendToNn
    · have hone : numIn .sendToNn (r :: q) = numIn .sendToNn q + 1 := by simp [numIn, h]
      rw [retryLoop, if_pos h, ih, hone]
      simp only [OvwQueue.mk.injEq, true_and, and_true]
      push_cast
      omega
    · have hzero : numIn .sendToNn (r :: q) = numIn .sendToNn q := by simp [numIn, h]
      rw [retryLoop, if_neg h, ih, hzero]

theorem numIn_retry (q : List OvwReq) :
    numIn .ovwStart (q.map retryOne) = numIn .ovwStart q + numIn .sendToNn q ∧
      numIn .sendToNn (q.map retryOne) = 0 := by
  induction q with
  | nil => exact ⟨rfl, rfl⟩
  | cons r q ih =>
    obtain ⟨hstart, hsend⟩ := ih
    by_cases h : r.state = .sendToNn
    · have hone : retryOne r = { r with state := .ovwStart } := if_pos h
      simp only [numIn, map_cons, countP_cons, hone, h] at hstart hsend ⊢
      simp only [beq_self_eq_true, if_true]
      refine ⟨?_, ?_⟩
      · rw [hstart]
        simp
        omega
      · rw [hsend]
        simp
    · have hsame : retryOne r = r := if_neg h
      have hb : (r.state == .sendToNn) = false := by simpa using h
      simp only [numIn, map_cons, countP_cons, hsame, hb] at hstart hsend ⊢
      simp only [Bool.false_eq_true, if_false]
      omega

theorem Inv.retry (hs : Inv s) : Inv s.retryNnOvwReq := by
  obtain ⟨hstart, hsend⟩ := numIn_retry s.queue
  obtain ⟨hwait, hsent, hsize⟩ := hs.accounted
  rw [retryNnOvwReq, retryLoop_eq]
  refine ⟨⟨?_, ?_, ?_⟩, ?_, ?_⟩
  · simp only [hwait, hstart]
    push_cast
    rfl
  · simp [hsent, hsend]
  · simp [hsize]
  · have haddrs : (s.queue.map retryOne).map (·.addr) = s.queue.map (·.addr) := by
      rw [map_map]
      refine map_congr_left fun r _ => ?_
      simp only [Function.comp, retryOne]
      split_ifs <;> rfl
    rw [haddrs]
    exact hs.addrs
  · intro addr h
    obtain ⟨r, hr, ha, hst⟩ := hs.held addr h
    exact ⟨r, mem_map.mpr ⟨r, hr, if_neg hst.notSent⟩, ha, hst⟩

theorem Inv.step (hs : Inv s) {e : Event} (he : s.enabled e) (ho : Orderly s e) : Inv (s.step e) := by
  cases e with
  | addFind a => exact hs.addFind a
  | addInsert a addr => exact hs.addInsert a addr he.2
  | take => exact hs.take ho
  | respBegin volid => exact hs.respBegin volid ho
  | respEnd h recvFail => exact hs.respEnd he recvFail ho
  | respRemove addr => exact hs.respRemove he ho
  | cancel volid => exact hs.findSet volid (Or.inl rfl)
  | retry => exact hs.retry

theorem inv_init (ready : Bool) : Inv (init ready) :=
  ⟨⟨rfl, rfl, rfl⟩, nodup_nil, fun _ h => absurd h not_mem_nil⟩

end Step

/-- In every run whose responses find their request sent and are received whole, and in which no request is
freed under a receive thread, the counters say what is queued and the send worker is woken when there is
something to send. -/
theorem ovw_queue_accounted (ready : Bool) (es : List Event)
    (h : (machine.restrict Orderly).Legal (init ready) es) :
    Accounted (machine.exec (init ready) es) ∧ WakesUp (machine.exec (init ready) es) := by
  have hinv : Inv (machine.exec (init ready) es) :=
    GuardedMachine.exec_invariant (m := machine.restrict Orderly) (I := Inv) (inv_init ready)
      (fun _ _ ht he => ht.step he.1 he.2) h
  exact ⟨hinv.accounted, hinv.accounted.wakesUp⟩

/-- A query is taken again after its connection came back, another is cancelled while its bitmap is
received. -/
def orderlyRun : List Event :=
  [.addFind ⟨1, 10⟩, .addInsert ⟨1, 10⟩ (some 100), .take, .addFind ⟨2, 20⟩, .addInsert ⟨2, 20⟩ (some 200),
    .retry, .take, .take, .respBegin 2, .cancel 2, .respEnd ⟨200, false⟩ true, .respBegin 1, .respRemove 200,
    .respEnd ⟨100, false⟩ false, .cancel 1, .respRemove 100, .addFind ⟨3, 30⟩, .addInsert ⟨3, 30⟩ (some 100)]

instance (s : OvwQueue) (e : Event) : Decidable ((machine.restrict Orderly).enabled s e) :=
  inferInstanceAs (Decidable (s.enabled e ∧ Orderly s e))

theorem ovw_queue_accounted_two_volumes :
    (machine.restrict Orderly).Legal (init true) orderlyRun ∧
      Accounted (machine.exec (init true) orderlyRun) ∧ WakesUp (machine.exec (init true) orderlyRun) :=
  ⟨by decide, ovw_queue_accounted true orderlyRun (by decide)⟩

instance (s : OvwQueue) : Decidable (Accounted s) :=
  decidable_of_iff (s.numWaitForSend = numIn .ovwStart s.queue ∧ s.numSendToNn = numIn .sendToNn s.queue ∧
      s.workingQueueSize = s.queue.length)
    ⟨fun h => ⟨h.1, h.2.1, h.2.2⟩, fun h => ⟨h.waiting, h.sent, h.size⟩⟩

def brokenOff : List Event :=
  [.addFind ⟨1, 10⟩, .addInsert ⟨1, 10⟩ (some 100), .take, .respBegin 1, .respEnd ⟨100, false⟩ true]

def lateResponse : List Event :=
  [.addFind ⟨1, 10⟩, .addInsert ⟨1, 10⟩ (some 100), .take, .retry, .respBegin 1]

/-- A query cancelled while its bitmap is received is freed, and its memory is used for another one. -/
def freedUnderReceiver : List Event :=
  [.addFind ⟨1, 10⟩, .addInsert ⟨1, 10⟩ (some 100), .take, .respBegin 1, .cancel 1, .take,
    .addFind ⟨2, 20⟩, .addInsert ⟨2, 20⟩ (some 100), .respEnd ⟨100, false⟩ false, .respRemove 100]

theorem ovw_queue_miscounted :
    (machine.Legal (init true) brokenOff ∧ ¬Accounted (machine.exec (init true) brokenOff) ∧
      ¬WakesUp (machine.exec (init true) brokenOff)) ∧
    (machine.Legal (init true) lateResponse ∧ ¬Accounted (machine.exec (init true) lateResponse)) ∧
    (machine.Legal (init true) freedUnderReceiver ∧
      ¬Accounted (machine.exec (init true) freedUnderReceiver)) := by
  decide

end DiscoClient.OvwQueue
