import Mathlib.Data.List.Nodup
import DiscoClient.IoManager.IoReqOverlap

namespace DiscoClient.VolIoReqPool
open List

def unlink (q : IoRequest) (it : OvlpItem) : IoRequest :=
  { q with
    waitList := q.waitList.erase it
    cntOvlpWait := q.cntOvlpWait - 1
    stat := if q.cntOvlpWait = 1 then .rwUserData else q.stat }

def woken (s : VolIoReqPool) (ws : List Nat) : List Nat :=
  ws.filter fun w => (s.req w).cntOvlpWait = 1

def unlinkAll (s : VolIoReqPool) (r : Nat) (f : Nat → OvlpItem) (ws : List Nat) : VolIoReqPool :=
  { s with
    req := fun x =>
      if x = r then { s.req r with cntOvlpWake := (s.req r).cntOvlpWake - ws.length }
      else if x ∈ ws then unlink (s.req x) (f x)
      else s.req x
    ioReqOvlpPool := s.ioReqOvlpPool.diff (s.woken ws) }

@[simp] theorem unlinkAll_nil (s : VolIoReqPool) (r : Nat) (f : Nat → OvlpItem) :
    s.unlinkAll r f [] = s := by
  have h : (fun x => if x = r then s.req r else s.req x) = s.req := by
    funext x
    split_ifs with hx <;> simp [hx]
  simp [unlinkAll, woken, h]

/-- The loop body of ioReq_get_ovlpReq follows one link. -/
private theorem wakeLoop_cons (r w : Nat) (f : Nat → OvlpItem) (hf : ∀ w, (f w).waitIor = w)
    (rest : List OvlpItem) (buff : List Nat) (s : VolIoReqPool) (hw : w ≠ r)
    (hst : (s.req w).stat = .ovlpWait) :
    wakeLoop r (f w :: rest) buff s =
      wakeLoop r rest (buff ++ s.woken [w]) (s.unlinkAll r f [w]) := by
  simp only [wakeLoop, hf, modifyReq, Function.update_of_ne hw, Function.update_self, hst,
    ioReqUpdateState, if_true]
  by_cases hc : (s.req w).cntOvlpWait = 1
  · simp only [hc, woken, unlinkAll, filter_cons, decide_true, Int.sub_self, if_true,
      filter_nil, diff_cons, diff_nil]
    congr 2
    funext x
    by_cases h1 : x = r
    · subst h1
      simp [Function.update, Ne.symm hw]
    · by_cases h2 : x = w <;> simp [Function.update, h1, h2, unlink, hc, hw]
  · have h0 : (s.req w).cntOvlpWait - 1 ≠ 0 := by omega
    simp only [h0, if_false, woken, unlinkAll, filter_cons, hc, decide_false,
      Bool.false_eq_true, filter_nil, diff_nil, append_nil]
    congr 2
    funext x
    by_cases h1 : x = r
    · subst h1
      simp [Function.update, Ne.symm hw]
    · by_cases h2 : x = w <;> simp [Function.update, h1, h2, unlink, hc, hw, hst]

private theorem unlinkAll_unlinkAll (s : VolIoReqPool) (r w : Nat) (f : Nat → OvlpItem)
    (ws : List Nat) (hw : w ≠ r) (hws : w ∉ ws) (hr : r ∉ ws) :
    (s.unlinkAll r f [w]).woken ws = s.woken ws ∧
      (s.unlinkAll r f [w]).unlinkAll r f ws = s.unlinkAll r f (w :: ws) := by
  have hwk : (s.unlinkAll r f [w]).woken ws = s.woken ws := by
    refine filter_congr fun x hx => ?_
    have h1 : x ≠ r := fun h => hr (h ▸ hx)
    have h2 : x ≠ w := fun h => hws (h ▸ hx)
    simp [unlinkAll, h1, h2]
  refine ⟨hwk, ?_⟩
  have hsplit : s.woken (w :: ws) = s.woken [w] ++ s.woken ws := by
    simp only [woken, filter_cons]
    split_ifs <;> simp
  simp only [unlinkAll] at hwk ⊢
  rw [hwk, hsplit, diff_append]
  congr 1
  funext x
  by_cases h1 : x = r
  · subst h1
    simp
    omega
  · by_cases h2 : x = w
    · subst h2
      simp [h1, hws]
    · simp [h1, h2]

/-- Closed form of the loop of ioReq_get_ovlpReq, for links to distinct waiting requests. -/
theorem wakeLoop_eq (r : Nat) (f : Nat → OvlpItem) (hf : ∀ w, (f w).waitIor = w) (ws : List Nat)
    (buff : List Nat) (s : VolIoReqPool) (hr : r ∉ ws) (hnd : ws.Nodup)
    (hst : ∀ w ∈ ws, (s.req w).stat = .ovlpWait) :
    wakeLoop r (ws.map f) buff s = (buff ++ s.woken ws, s.unlinkAll r f ws) := by
  induction ws generalizing buff s with
  | nil => simp [wakeLoop, woken]
  | cons w ws ih =>
    obtain ⟨hws, hnd'⟩ := nodup_cons.mp hnd
    have hw : w ≠ r := fun h => hr (h ▸ mem_cons_self)
    have hr' : r ∉ ws := fun h => hr (mem_cons_of_mem _ h)
    obtain ⟨hwk, hun⟩ := unlinkAll_unlinkAll s r w f ws hw hws hr'
    have hst' : ∀ x ∈ ws, ((s.unlinkAll r f [w]).req x).stat = .ovlpWait := by
      intro x hx
      have h1 : x ≠ r := fun h => hr' (h ▸ hx)
      have h2 : x ≠ w := fun h => hws (h ▸ hx)
      simpa [unlinkAll, h1, h2] using hst x (mem_cons_of_mem _ hx)
    rw [map_cons, wakeLoop_cons r w f hf _ _ _ hw (hst w mem_cons_self),
      ih _ _ hr' hnd' hst', hwk, hun, append_assoc]
    congr 2
    simp only [woken, filter_cons]
    split_ifs <;> simp

def moveAll (s : VolIoReqPool) (b : List Nat) : VolIoReqPool :=
  { s with
    req := fun x =>
      if x ∈ b then { s.req x with
        inWaitPool := false, refCnt := (s.req x).refCnt + 1, inReqPool := true }
      else s.req x
    ioReqPool := s.ioReqPool ++ b
    ioReqOvlpPool := s.ioReqOvlpPool.diff b
    cntOnflyIoReq := s.cntOnflyIoReq + b.length
    cntOnflyOvlpIoReq := s.cntOnflyOvlpIoReq - b.length
    enterLog := s.enterLog ++ b }

private theorem mvOvlpIor_eq (s : VolIoReqPool) (x : Nat) (hw : (s.req x).inWaitPool = true)
    (hp : (s.req x).inReqPool = false) : s.mvOvlpIor x = s.moveAll [x] := by
  simp only [mvOvlpIor, rmOvlpReqNolock, hw, if_true, modifyReq, addReqNolock, Function.update_self, hp,
    Bool.false_eq_true, if_false, moveAll, diff_cons, diff_nil, Function.update_idem]
  congr 1
  funext y
  by_cases h : y = x <;> simp [Function.update, h]

/-- Closed form of the loop of mv_ovlp_ior_toIO. -/
theorem foldl_mvOvlpIor (b : List Nat) (s : VolIoReqPool) (hb : b.Nodup)
    (hw : ∀ x ∈ b, (s.req x).inWaitPool = true ∧ (s.req x).inReqPool = false) :
    b.foldl mvOvlpIor s = s.moveAll b := by
  induction b generalizing s with
  | nil => simp [moveAll]
  | cons x b ih =>
    obtain ⟨hx, hb'⟩ := nodup_cons.mp hb
    obtain ⟨h1, h2⟩ := hw x mem_cons_self
    have hne (y : Nat) (hy : y ∈ b) : y ≠ x := fun h => hx (h ▸ hy)
    have hw' : ∀ y ∈ b, ((s.moveAll [x]).req y).inWaitPool = true ∧
        ((s.moveAll [x]).req y).inReqPool = false := by
      intro y hy
      simpa [moveAll, hne y hy] using hw y (mem_cons_of_mem _ hy)
    rw [foldl_cons, mvOvlpIor_eq s x h1 h2, ih _ hb' hw']
    simp only [moveAll, append_assoc, singleton_append, diff_cons, diff_nil,
      length_cons, length_nil]
    congr 1
    · funext y
      by_cases h : y = x
      · subst h
        simp [hx]
      · simp [h]
    · push_cast
      omega
    · push_cast
      omega

/-- Closed form of _ioReq_rm_ioReqQueue for a running request whose links lead to
distinct waiting requests. -/
theorem ioReqRmIoReqQueue_eq (s : VolIoReqPool) (r : Nat) (f : Nat → OvlpItem)
    (hf : ∀ w, (f w).waitIor = w) (ws : List Nat) (hwake : (s.req r).wakeList = ws.map f)
    (hr : r ∉ ws) (hnd : ws.Nodup) (hp : (s.req r).inReqPool = true)
    (hws : ∀ w ∈ ws, (s.req w).stat = .ovlpWait ∧ (s.req w).inWaitPool = true ∧
      (s.req w).inReqPool = false) :
    s.ioReqRmIoReqQueue r =
      { s with
        req := fun x =>
          if x = r then { s.req r with
            inReqPool := false, wakeList := [], cntOvlpWake := (s.req r).cntOvlpWake - ws.length }
          else if x ∈ s.woken ws then { unlink (s.req x) (f x) with
            inWaitPool := false, refCnt := (s.req x).refCnt + 1, inReqPool := true }
          else if x ∈ ws then unlink (s.req x) (f x)
          else s.req x
        ioReqPool := s.ioReqPool.erase r ++ s.woken ws
        ioReqOvlpPool := (s.ioReqOvlpPool.diff (s.woken ws)).diff (s.woken ws)
        cntOnflyIoReq := s.cntOnflyIoReq - 1 + (s.woken ws).length
        cntOnflyOvlpIoReq := s.cntOnflyOvlpIoReq - (s.woken ws).length
        enterLog := s.enterLog ++ s.woken ws } := by
  have hne (w : Nat) (h : w ∈ ws) : w ≠ r := fun he => hr (he ▸ h)
  have hsub (w : Nat) (h : w ∈ s.woken ws) : w ∈ ws := mem_of_mem_filter h
  obtain ⟨t, ht⟩ : ∃ t, t = s.rmReqNolock r := ⟨_, rfl⟩
  have htr (w : Nat) (h : w ≠ r) : t.req w = s.req w := by
    simp [ht, rmReqNolock, hp, modifyReq, h]
  have htk : (t.req r).wakeList = ws.map f := by simp [ht, rmReqNolock, hp, modifyReq, hwake]
  have hwk : t.woken ws = s.woken ws :=
    filter_congr fun x hx => by rw [htr x (hne x hx)]
  have hget : t.ioReqGetOvlpReq r = (s.woken ws,
      (t.unlinkAll r f ws).modifyReq r fun q => { q with wakeList := [] }) := by
    rw [ioReqGetOvlpReq, htk, wakeLoop_eq r f hf ws [] t hr hnd fun w hw => by
      rw [htr w (hne w hw)]; exact (hws w hw).1]
    simp [hwk]
  have hfold := foldl_mvOvlpIor (s.woken ws)
    ((t.unlinkAll r f ws).modifyReq r fun q => { q with wakeList := [] }) (hnd.filter _) (by
      intro x hx
      have h1 := hne x (hsub x hx)
      simpa [modifyReq, unlinkAll, h1, hsub x hx, unlink, htr x h1] using (hws x (hsub x hx)).2)
  rw [ioReqRmIoReqQueue, ← ht, mvOvlpIorToIo, hget]
  refine hfold.trans ?_
  simp only [moveAll, modifyReq, unlinkAll, hwk]
  simp only [ht, rmReqNolock, hp, if_true, modifyReq]
  congr 1
  funext x
  by_cases h1 : x = r
  · subst h1
    have : x ∉ s.woken ws := fun h => hr (hsub x h)
    simp [this]
  · by_cases h2 : x ∈ s.woken ws
    · simp [h1, h2, hsub x h2, unlink]
    · by_cases h3 : x ∈ ws <;> simp [h1, h2, h3]

end DiscoClient.VolIoReqPool
