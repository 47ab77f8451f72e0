import Mathlib.Data.List.Nodup
import DiscoClient.IoManager.IoReqOverlap

namespace DiscoClient
open VolIoReqPool List

def Conflict (p n : IoRequest) : Prop :=
  (p.iodir = .write ∨ n.iodir = .write) ∧ ∃ lb, p.usrIoAddr.Covers lb ∧ n.usrIoAddr.Covers lb

/-- The test ioReq_chk_ovlp makes on a queued request. -/
def ovlpTest (p n : IoRequest) : Bool :=
  !chkIoRw p n && decide ((chkLbOvlp p.usrIoAddr n.usrIoAddr (0, 0)).1 ≠ .noOvlp)

theorem chkLbOvlp_noOvlp_iff {p n : UserIoAddr} (hp : p.WellFormed) (hn : n.WellFormed)
    (out : Nat × Nat) :
    (chkLbOvlp p n out).1 = .noOvlp ↔ ¬ ∃ lb, p.Covers lb ∧ n.Covers lb := by
  have hpe : (p.lbidStart + p.lbidLen - 1) % 2^64 = p.lbidStart + p.lbidLen - 1 :=
    Nat.mod_eq_of_lt (by have := hp.len_pos; have := hp.end_le; omega)
  have hne : (n.lbidStart + n.lbidLen - 1) % 2^64 = n.lbidStart + n.lbidLen - 1 :=
    Nat.mod_eq_of_lt (by have := hn.len_pos; have := hn.end_le; omega)
  have hpl := hp.len_pos
  have hnl := hn.len_pos
  have shared : (∃ lb, p.Covers lb ∧ n.Covers lb) ↔
      p.lbidStart < n.lbidStart + n.lbidLen ∧ n.lbidStart < p.lbidStart + p.lbidLen := by
    constructor
    · rintro ⟨lb, ⟨h1, h2⟩, h3, h4⟩
      omega
    · rintro ⟨h1, h2⟩
      exact ⟨max p.lbidStart n.lbidStart, ⟨by omega, by omega⟩, by omega, by omega⟩
  rw [shared]
  simp only [chkLbOvlp, hpe, hne]
  split_ifs <;> simp <;> omega

theorem chkLbOvlp_out {p n : UserIoAddr} {out : Nat × Nat}
    (h : (chkLbOvlp p n out).1 ≠ .noOvlp) (out' : Nat × Nat) :
    chkLbOvlp p n out' = chkLbOvlp p n out := by
  unfold chkLbOvlp at h ⊢
  dsimp only at h ⊢
  by_cases hbefore : p.lbidStart > (n.lbidStart + n.lbidLen - 1) % 2^64
  · exact absurd (by rw [if_pos hbefore]) h
  rw [if_neg hbefore] at h ⊢
  rw [if_neg hbefore]
  by_cases hbehind : n.lbidStart > (p.lbidStart + p.lbidLen - 1) % 2^64
  · exact absurd (by rw [if_pos hbehind]) h
  rw [if_neg hbehind, if_neg hbehind]

theorem chkLbOvlp_fst (p n : UserIoAddr) (out out' : Nat × Nat) :
    (chkLbOvlp p n out).1 = (chkLbOvlp p n out').1 := by
  simp only [chkLbOvlp]
  split_ifs <;> rfl

theorem ovlpTest_iff (p n : IoRequest) : ovlpTest p n = true ↔ Conflict p n := by
  have hrw : chkIoRw p n = false ↔ p.iodir = .write ∨ n.iodir = .write := by
    unfold chkIoRw
    split_ifs <;> simp_all
  have hlb := chkLbOvlp_noOvlp_iff p.addr_wf n.addr_wf (0, 0)
  simp only [ovlpTest, Bool.and_eq_true, Bool.not_eq_true', hrw, decide_eq_true_eq, Conflict,
    ne_eq, hlb, not_not]

namespace VolIoReqPool

def linkItem (p n : IoRequest) (q r : Nat) : OvlpItem :=
  let c := chkLbOvlp p.usrIoAddr n.usrIoAddr (0, 0)
  genOvlpItem q r c.1 c.2

def SameIo (p q : IoRequest) : Prop := p.usrIoAddr = q.usrIoAddr ∧ p.iodir = q.iodir

theorem SameIo.ovlpTest {p q n m : IoRequest} (h : SameIo p q) (k : SameIo n m) :
    ovlpTest p n = ovlpTest q m := by
  simp only [DiscoClient.ovlpTest, chkIoRw, h.1, h.2, k.1, k.2]

theorem SameIo.linkItem {p q n m : IoRequest} (h : SameIo p q) (k : SameIo n m) (a b : Nat) :
    linkItem p n a b = linkItem q m a b := by
  simp only [VolIoReqPool.linkItem, h.1, k.1]

def rivals (s : VolIoReqPool) (n : Nat) (l : List Nat) : List Nat :=
  l.filter fun q => ovlpTest (s.req q) (s.req n)

def linkAll (s : VolIoReqPool) (n : Nat) (l : List Nat) : VolIoReqPool :=
  { s with req := fun r =>
      if r = n then
        { s.req n with
          isOvlpIor := (s.req n).isOvlpIor || !(s.rivals n l).isEmpty
          waitList := (s.req n).waitList ++
            (s.rivals n l).map fun q => linkItem (s.req q) (s.req n) q n
          cntOvlpWait := (s.req n).cntOvlpWait + (s.rivals n l).length }
      else if r ∈ s.rivals n l then
        { s.req r with
          wakeList := (s.req r).wakeList ++ [linkItem (s.req r) (s.req n) r n]
          cntOvlpWake := (s.req r).cntOvlpWake + 1 }
      else s.req r }

@[simp] theorem linkAll_nil (s : VolIoReqPool) (n : Nat) : s.linkAll n [] = s := by
  have h : (fun r => if r = n then s.req n else s.req r) = s.req := by
    funext r
    split_ifs with hr <;> simp [hr]
  simp [linkAll, rivals, h]

theorem linkAll_self (s : VolIoReqPool) (n : Nat) (l : List Nat) : (s.linkAll n l).req n =
    { s.req n with
      isOvlpIor := (s.req n).isOvlpIor || !(s.rivals n l).isEmpty
      waitList := (s.req n).waitList ++ (s.rivals n l).map fun q => linkItem (s.req q) (s.req n) q n
      cntOvlpWait := (s.req n).cntOvlpWait + (s.rivals n l).length } := by
  simp [linkAll]

theorem linkAll_of_ne {s : VolIoReqPool} {n r : Nat} (hr : r ≠ n) (l : List Nat) : (s.linkAll n l).req r =
    { s.req r with
      wakeList := (s.req r).wakeList ++ if r ∈ s.rivals n l then [linkItem (s.req r) (s.req n) r n] else []
      cntOvlpWake := (s.req r).cntOvlpWake + if r ∈ s.rivals n l then 1 else 0 } := by
  by_cases hm : r ∈ s.rivals n l <;> simp [linkAll, hr, hm]

theorem linkAll_sameIo (s : VolIoReqPool) (n : Nat) (l : List Nat) (r : Nat) :
    SameIo ((s.linkAll n l).req r) (s.req r) := by
  by_cases hn : r = n
  · rw [hn, linkAll_self]
    exact ⟨rfl, rfl⟩
  · rw [linkAll_of_ne hn]
    exact ⟨rfl, rfl⟩

theorem linkAll_rivals (s : VolIoReqPool) (n : Nat) (l l' : List Nat) :
    (s.linkAll n l).rivals n l' = s.rivals n l' := by
  refine filter_congr fun q _ => ?_
  exact (linkAll_sameIo s n l q).ovlpTest (linkAll_sameIo s n l n)

theorem linkAll_append (s : VolIoReqPool) (n : Nat) (l l' : List Nat)
    (hd : ∀ q ∈ l, q ∉ l') : (s.linkAll n l).linkAll n l' = s.linkAll n (l ++ l') := by
  have hr : s.rivals n (l ++ l') = s.rivals n l ++ s.rivals n l' := filter_append ..
  have hi (q : Nat) : linkItem ((s.linkAll n l).req q) ((s.linkAll n l).req n) q n =
      linkItem (s.req q) (s.req n) q n :=
    (linkAll_sameIo s n l q).linkItem (linkAll_sameIo s n l n) q n
  have hmem (q : Nat) (h : q ∈ s.rivals n l) : q ∉ s.rivals n l' := fun h' =>
    hd q (mem_of_mem_filter h) (mem_of_mem_filter h')
  have hreq (f g : Nat → IoRequest) (h : f = g) : ({ s with req := f } : VolIoReqPool) = { s with req := g } := by
    rw [h]
  rw [linkAll]
  simp only [linkAll_rivals, hi]
  refine hreq _ _ (funext fun r => ?_)
  by_cases h1 : r = n
  · subst r
    simp only [linkAll, hr, if_true, map_append, append_assoc, length_append,
      Int.natCast_add, Bool.or_assoc, IoRequest.mk.injEq, true_and, and_true]
    refine ⟨?_, by omega⟩
    cases s.rivals n l <;> simp
  by_cases h2 : r ∈ s.rivals n l
  · simp [linkAll, hr, h1, h2, hmem r h2]
  · by_cases h3 : r ∈ s.rivals n l' <;> simp [linkAll, hr, h1, h2, h3]

/-- The loop body of ioReq_chk_ovlp on a conflicting request. -/
private theorem link_one (s : VolIoReqPool) (n cur : Nat) (hn : n ≠ cur)
    (ht : ovlpTest (s.req cur) (s.req n) = true) :
    ((s.modifyReq n fun q => { q with isOvlpIor := true }).addWaitReq n
      (linkItem (s.req cur) (s.req n) cur n)).addWakeReq cur
      (linkItem (s.req cur) (s.req n) cur n) = s.linkAll n [cur] := by
  have hr : s.rivals n [cur] = [cur] := by simp [rivals, ht]
  simp only [linkAll, hr, addWakeReq, addWaitReq, modifyReq]
  congr 1
  funext r
  by_cases h1 : r = n
  · subst r
    simp [Function.update, hn]
  · by_cases h2 : r = cur <;> simp [Function.update, h1, h2, Ne.symm hn]

/-- Closed form of the loop of ioReq_chk_ovlp on a queue that does not hold n. -/
theorem chkOvlpLoop_eq (n : Nat) (l : List Nat) (ret : IorOvlpRes) (out : Nat × Nat)
    (s : VolIoReqPool) (hn : n ∉ l) (hl : l.Nodup) :
    chkOvlpLoop n l ret out s = (if s.rivals n l = [] then ret else .ovlp, s.linkAll n l) := by
  induction l generalizing ret out s with
  | nil => simp [chkOvlpLoop, rivals]
  | cons cur rest ih =>
    have hne : n ≠ cur := fun h => hn (h ▸ mem_cons_self)
    have hnr : n ∉ rest := fun h => hn (mem_cons_of_mem _ h)
    obtain ⟨hcr, hrest⟩ := nodup_cons.mp hl
    have skip (ht : ovlpTest (s.req cur) (s.req n) = false) (out : Nat × Nat) :
        chkOvlpLoop n rest ret out s =
          (if s.rivals n (cur :: rest) = [] then ret else .ovlp, s.linkAll n (cur :: rest)) := by
      have hr : s.rivals n (cur :: rest) = s.rivals n rest := by simp [rivals, ht]
      rw [ih ret out s hnr hrest]
      simp only [linkAll, hr]
    simp only [chkOvlpLoop, if_neg hne]
    by_cases hrw : chkIoRw (s.req cur) (s.req n) = true
    · rw [if_pos hrw]
      exact skip (by simp [ovlpTest, hrw]) out
    rw [if_neg hrw]
    by_cases hlb : (chkLbOvlp (s.req cur).usrIoAddr (s.req n).usrIoAddr out).1 = .noOvlp
    · have ht : ovlpTest (s.req cur) (s.req n) = false := by
        simp [ovlpTest, chkLbOvlp_fst _ _ (0, 0) out, hlb]
      split
      · exact skip ht _
      · rename_i w o hno he
        rw [he] at hlb
        exact absurd hlb (by simpa using hno)
    · have ht : ovlpTest (s.req cur) (s.req n) = true := by
        simp [ovlpTest, hrw, chkLbOvlp_fst _ _ (0, 0) out, hlb]
      have hr : s.rivals n (cur :: rest) ≠ [] := by simp [rivals, ht]
      have hout := chkLbOvlp_out hlb (0, 0)
      split
      · rename_i o he
        rw [he] at hlb
        exact absurd rfl hlb
      · rename_i w o hno he
        rw [he] at hout
        have hit : genOvlpItem cur n w o = linkItem (s.req cur) (s.req n) cur n := by
          simp only [linkItem, hout]
        have hd : ∀ q ∈ [cur], q ∉ rest := by simpa using hcr
        rw [hit, link_one s n cur hne ht, ih .ovlp o _ hnr hrest, if_neg hr,
          linkAll_append s n [cur] rest hd]
        simp

/-- Closed form of ioReq_add_ReqPool for a request that is in neither queue. -/
theorem ioReqAddReqPool_eq (s : VolIoReqPool) (n : Nat) (hst : (s.req n).stat = .init)
    (hw : (s.req n).inWaitPool = false) (hp : (s.req n).inReqPool = false)
    (hn : n ∉ s.ioReqOvlpPool ++ s.ioReqPool) (hnd : (s.ioReqOvlpPool ++ s.ioReqPool).Nodup) :
    let queued := s.ioReqOvlpPool.reverse ++ s.ioReqPool.reverse
    let t := s.linkAll n queued
    s.ioReqAddReqPool n =
      if s.rivals n queued = [] then
        (true, { t.modifyReq n (fun q => { q with stat := .rwUserData, inReqPool := true }) with
          ioReqPool := s.ioReqPool ++ [n]
          cntOnflyIoReq := s.cntOnflyIoReq + 1
          enterLog := s.enterLog ++ [n] })
      else
        (false, { t.modifyReq n (fun q => { q with stat := .ovlpWait, inWaitPool := true }) with
          ioReqOvlpPool := s.ioReqOvlpPool ++ [n]
          cntOnflyOvlpIoReq := s.cntOnflyOvlpIoReq + 1 }) := by
  intro queued t
  obtain ⟨hn1, hn2⟩ : n ∉ s.ioReqOvlpPool ∧ n ∉ s.ioReqPool := by simpa using hn
  obtain ⟨hd1, hd2, hdisj⟩ := nodup_append.mp hnd
  have hap : (s.linkAll n s.ioReqOvlpPool.reverse).linkAll n s.ioReqPool.reverse = t := by
    refine linkAll_append s n _ _ fun q hq hq' => ?_
    exact hdisj q (by simpa using hq) q (by simpa using hq') rfl
  have h1 := chkOvlpLoop_eq n s.ioReqOvlpPool.reverse .noOvlp (0, 0) s (by simpa using hn1)
    (nodup_reverse.mpr hd1)
  have h2 := chkOvlpLoop_eq n s.ioReqPool.reverse .noOvlp (0, 0)
    (s.linkAll n s.ioReqOvlpPool.reverse) (by simpa using hn2) (nodup_reverse.mpr hd2)
  rw [hap, linkAll_rivals] at h2
  have hr : s.rivals n queued =
      s.rivals n s.ioReqOvlpPool.reverse ++ s.rivals n s.ioReqPool.reverse := filter_append ..
  have hpool : (s.linkAll n s.ioReqOvlpPool.reverse).ioReqPool = s.ioReqPool := rfl
  have htst : (t.req n).stat = .init := by simpa [t, linkAll] using hst
  have htw : (t.req n).inWaitPool = false := by simpa [t, linkAll] using hw
  have htp : (t.req n).inReqPool = false := by simpa [t, linkAll] using hp
  by_cases ho : s.rivals n s.ioReqOvlpPool.reverse = [] <;>
    by_cases hq : s.rivals n s.ioReqPool.reverse = [] <;>
    simp [ioReqAddReqPool, chkOvlpReqPool, ioReqChkOvlp, h1, h2, hpool, hr, ho, hq, htst, htw, htp,
      ioReqUpdateState, addReqNolock, addOvlpReqNolock, modifyReq] <;>
    simp [t, linkAll]

end VolIoReqPool
end DiscoClient
