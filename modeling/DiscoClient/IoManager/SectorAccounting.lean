import DiscoClient.IoManager.VolumeOwnership
import DiscoClient.VdiskManager.PendingSectors

namespace DiscoClient.IoWorkers
open List
variable {V W S : Type*} {s t u : IoWorkers V W S} {v : V} {w : W} {i : S} {e : IoWorkerEvent V W S}

def NoBatch (s : IoWorkers V W S) (v : V) : Prop := ∀ w rqs sectStart, s.worker w ≠ .batch v rqs sectStart

structure SameQueue (v : V) (s t : IoWorkers V W S) : Prop where
  list : (t.vol v).volRqsList = (s.vol v).volRqsList
  sects : (t.vol v).sects = (s.vol v).sects
  start : (t.vol v).sectStart = (s.vol v).sectStart
  batch : ∀ w rqs sectStart, t.worker w = .batch v rqs sectStart ↔ s.worker w = .batch v rqs sectStart

theorem SameFor.sameQueue (h : SameFor v s t) : SameQueue v s t :=
  ⟨by rw [h.vol], by rw [h.vol], by rw [h.vol], fun w _ _ => h.worker w _ rfl⟩

namespace SameQueue

theorem trans (h : SameQueue v s t) (h' : SameQueue v t u) : SameQueue v s u where
  list := h'.list.trans h.list
  sects := h'.sects.trans h.sects
  start := h'.start.trans h.start
  batch w rqs sectStart := (h'.batch w rqs sectStart).trans (h.batch w rqs sectStart)

theorem setVol [DecidableEq V] {d : VolumeDevice} (hlist : d.volRqsList = (s.vol v).volRqsList)
    (hsects : d.sects = (s.vol v).sects) (hstart : d.sectStart = (s.vol v).sectStart) :
    SameQueue v s (s.setVol v d) := by
  have hvol : (s.setVol v d).vol v = d := vol_setVol s v d
  exact ⟨by rw [hvol, hlist], by rw [hvol, hsects], by rw [hvol, hstart], fun _ _ _ => Iff.rfl⟩

theorem setSubmitter [DecidableEq S] (q : SubmitterAt V) : SameQueue v s (s.setSubmitter i q) :=
  ⟨rfl, rfl, rfl, fun _ _ _ => Iff.rfl⟩

theorem setWorker [DecidableEq W] {p : IoWorkerAt V} (hold : ∀ rqs sectStart, s.worker w ≠ .batch v rqs sectStart)
    (hnew : ∀ rqs sectStart, p ≠ .batch v rqs sectStart) : SameQueue v s (s.setWorker w p) := by
  refine ⟨rfl, rfl, rfl, fun w' rqs sectStart => ?_⟩
  rw [worker_setWorker]
  split_ifs with heq
  · rw [heq]
    exact iff_of_false (hnew rqs sectStart) (hold rqs sectStart)
  · exact Iff.rfl

theorem enqVolActiveList [DecidableEq V] (x : V) : SameQueue v s (s.enqVolActiveList x) := by
  rw [IoWorkers.enqVolActiveList]
  split_ifs <;> exact ⟨rfl, rfl, rfl, fun _ _ _ => Iff.rfl⟩

theorem updateVolActiveStat [DecidableEq V] (s : IoWorkers V W S) (v : V) (op : VolActiveOp) :
    SameQueue v s (s.setVol v ((s.vol v).updateVolActiveStat op).1) := by
  obtain ⟨stat, heq⟩ := (s.vol v).updateVolActiveStat_frame op
  rw [heq]
  exact setVol rfl rfl rfl

end SameQueue

/-- What is left in the list is counted in full, and a batch under way begins inside of its first request.
-/
structure Accounting (s : IoWorkers V W S) (v : V) : Prop where
  quiet : s.NoBatch v → ∃ off, (s.vol v).StartsAt off ∧ (s.vol v).Pends off
  batch : ∀ w rqs sectStart, s.worker w = .batch v rqs sectStart → (s.vol v).Pends 0 ∧
    ∃ off, ∀ rq ∈ rqs.head?, off < rq.sectors ∧ sectStart = (rq.pos + off) % 2^64

namespace Accounting

theorem same (h : Accounting s v) (hs : SameQueue v s t) : Accounting t v := by
  have hpends {off : Nat} (hp : (s.vol v).Pends off) : (t.vol v).Pends off := by
    intro dir
    rw [hs.sects, hs.list]
    exact hp dir
  refine ⟨fun hno => ?_, fun w rqs sectStart hw => ?_⟩
  · obtain ⟨off, hstart, hp⟩ := h.quiet fun w rqs sectStart hw => hno w rqs sectStart ((hs.batch w _ _).mpr hw)
    refine ⟨off, fun rq hrq => ?_, hpends hp⟩
    rw [hs.start]
    exact hstart rq (by rwa [hs.list] at hrq)
  · obtain ⟨hp, hinside⟩ := h.batch w rqs sectStart ((hs.batch w _ _).mp hw)
    exact ⟨hpends hp, hinside⟩

theorem submit [DecidableEq V] [DecidableEq S] (h : Accounting s v) (hcnt : (s.vol v).Counted)
    (rq : BlkRq) (q : SubmitterAt V) :
    Accounting ((s.setVol v ((s.vol v).enqDmsRqVolList rq)).setSubmitter i q) v := by
  obtain ⟨t, ht⟩ : ∃ t, t = (s.setVol v ((s.vol v).enqDmsRqVolList rq)).setSubmitter i q := ⟨_, rfl⟩
  have hvol : t.vol v = (s.vol v).enqDmsRqVolList rq := ht ▸ vol_setVol s v _
  have hworker : t.worker = s.worker := by
    rw [ht]
    rfl
  rw [← ht]
  refine ⟨fun hno => ?_, fun w rqs sectStart hw => ?_⟩
  · rw [NoBatch, hworker] at hno
    rw [hvol]
    obtain ⟨off, hstart, hp⟩ := h.quiet hno
    by_cases hnil : (s.vol v).volRqsList = []
    · have hp0 : (s.vol v).Pends 0 := by
        intro dir
        have hdir := hp dir
        rw [hnil] at hdir ⊢
        exact hdir
      exact ⟨0, (VolumeDevice.startsAt_of_nil hnil 0).enqDmsRqVolList hcnt (fun _ => rfl) rq,
        hp0.enqDmsRqVolList (fun _ => rfl) rq⟩
    · exact ⟨off, hstart.enqDmsRqVolList hcnt (fun h => absurd h hnil) rq,
        hp.enqDmsRqVolList (fun h => absurd h hnil) rq⟩
  · rw [hworker] at hw
    rw [hvol]
    obtain ⟨hp, hinside⟩ := h.batch w rqs sectStart hw
    exact ⟨hp.enqDmsRqVolList (fun _ => rfl) rq, hinside⟩

theorem noBatch_of_owns (hact : Activation s v) (hown : s.Owns w v)
    (hw : ∀ rqs sectStart, s.worker w ≠ .batch v rqs sectStart) : s.NoBatch v := by
  intro w' rqs sectStart hw'
  obtain ⟨-, hsole⟩ := hact.of_holds (o := .wk w) hown
  cases hsole.unique (.wk w') (congrArg IoWorkerAt.vol? hw')
  exact hw rqs sectStart hw'

theorem ends [DecidableEq V] [DecidableEq W] {d : VolumeDevice} {p : IoWorkerAt V} (off : Nat) (hact : Activation s v)
    (hown : s.Owns w v) (hp : ∀ rqs sectStart, p ≠ .batch v rqs sectStart) (hstart : d.StartsAt off)
    (hpends : d.Pends off) :
    Accounting ((s.setVol v d).setWorker w p) v := by
  obtain ⟨-, hsole⟩ := hact.of_holds (o := .wk w) hown
  have hvol : ((s.setVol v d).setWorker w p).vol v = d := vol_setVol s v d
  refine ⟨fun _ => ?_, fun w' rqs sectStart hw' => ?_⟩
  · rw [hvol]
    exact ⟨off, hstart, hpends⟩
  · rw [worker_setWorker] at hw'
    split_ifs at hw' with heq
    · exact absurd hw' (hp rqs sectStart)
    · cases hsole.unique (.wk w') (congrArg IoWorkerAt.vol? hw')
      exact absurd rfl heq

end Accounting

theorem accounting_init (v : V) : Accounting (init : IoWorkers V W S) v where
  quiet _ := ⟨0, VolumeDevice.startsAt_of_nil rfl 0, fun dir => by cases dir <;> rfl⟩
  batch _ _ _ hw := by cases hw

theorem drop_of_leftOver {rqs : List BlkRq} {r sectS : Nat}
    (h : LeftOver (fun j => rqs.getD j default) rqs.length r sectS) :
    ∃ rq rest off, rqs.drop r = rq :: rest ∧ off < rq.sectors ∧ sectS = (rq.pos + off) % 2^64 ∧
      ∀ x ∈ rq :: rest, x.dir = .write := by
  obtain ⟨hlt, ⟨off, hoff, hs⟩, hwrites⟩ := h
  have hget {j : Nat} (hj : j < rqs.length) : rqs.getD j default = rqs[j] := by
    rw [getD_eq_getElem?_getD, List.getElem?_eq_getElem hj, Option.getD_some]
  rw [hget hlt] at hoff hs
  refine ⟨rqs[r], rqs.drop (r + 1), off, drop_eq_getElem_cons hlt, hoff, hs, fun x hx => ?_⟩
  rw [← drop_eq_getElem_cons hlt] at hx
  obtain ⟨k, hk, rfl⟩ := mem_iff_getElem.mp hx
  rw [length_drop] at hk
  have hj : r + k < rqs.length := by omega
  have hdir := hwrites (r + k) (Nat.le_add_right r k) hj
  rw [hget hj] at hdir
  rw [getElem_drop]
  exact hdir

variable [DecidableEq V] [DecidableEq W] [DecidableEq S]

theorem accounting_deq (h : Accounting s v) (hact : Activation s v) (hw : s.worker w = .deq v) :
    Accounting (s.step (.deq w v)) v := by
  have hown : s.Owns w v := congrArg IoWorkerAt.vol? hw
  have hno : s.NoBatch v := Accounting.noBatch_of_owns hact hown (by simp [hw])
  obtain ⟨off, hstart, hp⟩ := h.quiet hno
  have hne := hact.deq_ne_nil hw
  rw [step]
  dsimp only
  rw [if_neg hne]
  refine ⟨fun hno' => ?_, fun w' rqs sectStart hw' => ?_⟩
  · refine absurd ?_ (hno' w (s.vol v).deqDmsRqList.2 (s.vol v).sectStart)
    rw [worker_setWorker, if_pos rfl]
  · rw [worker_setWorker] at hw'
    split_ifs at hw' with heq
    · cases hw'
      refine ⟨?_, off, fun rq hrq => hstart rq ?_⟩
      · exact (vol_setVol s v _).symm ▸ hp.deqDmsRqList hstart
      · rwa [VolumeDevice.head?_deqDmsRqList] at hrq
    · exact absurd hw' (hno w' rqs sectStart)

theorem accounting_ioBatch {rqs : List BlkRq} {sectStart : Nat} (h : Accounting s v) (hact : Activation s v)
    (hw : s.worker w = .batch v rqs sectStart) (numRefIor : Nat → Nat) :
    Accounting (s.step (.ioBatch w v rqs sectStart numRefIor)) v := by
  have hown : s.Owns w v := congrArg IoWorkerAt.vol? hw
  obtain ⟨hp, off, hinside⟩ := h.batch w rqs sectStart hw
  obtain ⟨first, others, rfl⟩ := exists_cons_of_ne_nil (hact.batches w rqs sectStart hw)
  obtain ⟨hoff, hs⟩ := hinside first rfl
  rw [step, ioBatch]
  split
  · next r hr =>
    have hlen : 0 < (first :: others).length := Nat.succ_pos _
    obtain ⟨rq, rest, off', hdrop, hoff', hs', hdir⟩ := drop_of_leftOver (doIoBatch_left hlen hoff hs hr)
    dsimp only
    rw [hdrop]
    apply Accounting.ends off' hact hown (by simp)
    · exact VolumeDevice.startsAt_enqBatch _ _ hoff' hs'
    · exact hp.enqBatch hdir hoff' hs'
  · apply Accounting.ends 0 hact hown (by simp)
    · exact VolumeDevice.startsAt_updateVolRqListStart (s.vol v)
    · exact hp.updateVolRqListStart

theorem accounting_step (h : ∀ v, Accounting s v) (hact : ∀ v, Activation s v) (he : s.Enabled e) (v : V) :
    Accounting (s.step e) v := by
  by_cases hv : v = e.vol
  · subst hv
    cases e with
    | submit i x rq => exact (h x).submit (hact x).counted rq _
    | deq w x => exact accounting_deq (h x) (hact x) he
    | ioBatch w x rqs sectStart numRefIor => exact accounting_ioBatch (h x) (hact x) he numRefIor
    | raise i x => exact (h x).same ((SameQueue.updateVolActiveStat s x _).trans (SameQueue.setSubmitter _))
    | subEnq i x => exact (h x).same ((SameQueue.enqVolActiveList x).trans (SameQueue.setSubmitter _))
    | take w x =>
      have hw : s.worker w = .idle := he.1
      have hlist : SameQueue x s { s with activeVolList := s.activeVolList.tail } :=
        ⟨rfl, rfl, rfl, fun _ _ _ => Iff.rfl⟩
      exact (h x).same (hlist.trans (SameQueue.setWorker (by simp [hw]) (by simp)))
    | chkActive w x left =>
      have hw : s.worker w = .batched x left := he
      refine (h x).same (SameQueue.setWorker (by simp [hw]) ?_)
      split_ifs <;> simp
    | rest w x left =>
      have hw : s.worker w = .rest x left := he
      obtain ⟨n, p, heq, -, -, hp⟩ := s.rest_cases w x left
      rw [step, heq]
      have hvol : SameQueue x s (s.setVol x { s.vol x with rqAggWaitCnt := n }) := SameQueue.setVol rfl rfl rfl
      refine (h x).same (hvol.trans (SameQueue.setWorker ?_ hp))
      simp [setVol, hw]
    | rqsDone w x =>
      have hw : s.worker w = .finish x := he
      refine (h x).same ((SameQueue.updateVolActiveStat s x _).trans (SameQueue.setWorker (by simp [setVol, hw]) ?_))
      split_ifs <;> simp
    | wkEnq w x =>
      have hw : s.worker w = .enq x := he
      refine (h x).same ((SameQueue.enqVolActiveList x).trans (SameQueue.setWorker ?_ (by simp)))
      simp [worker_enqVolActiveList, hw]
  · exact (h v).same (sameFor_step he hv).sameQueue

theorem accounting_exec {es : List (IoWorkerEvent V W S)} (h : machine.Legal (init : IoWorkers V W S) es) (v : V) :
    Activation (machine.exec (init : IoWorkers V W S) es) v ∧
      Accounting (machine.exec (init : IoWorkers V W S) es) v := by
  have hinv := GuardedMachine.exec_invariant (m := machine)
    (I := fun s => s.activeVolList.Nodup ∧ (∀ v, Activation s v) ∧ ∀ v, Accounting s v)
    ⟨nodup_nil, activation_init, accounting_init⟩
    (fun _ _ hs he => ⟨nodup_step hs.1, activation_step hs.2.1 hs.1 he, accounting_step hs.2.2 hs.2.1 he⟩) h
  exact ⟨hinv.2.1 v, hinv.2.2 v⟩

/-- Whenever no batch of a volume is in progress, cnt_rqs is the length of its request list, sect_start is
inside of its first request, and r_sects and w_sects are the sectors pending from there on. -/
theorem pending_sectors_accounted (es : List (IoWorkerEvent V W S)) (h : machine.Legal init es) (v : V)
    (hno : (machine.exec init es).NoBatch v) :
    let d := (machine.exec init es).vol v
    d.cntRqs = d.volRqsList.length ∧
    ∃ off, (∀ rq ∈ d.volRqsList.head?, off < rq.sectors ∧ d.sectStart = (rq.pos + off) % 2^64) ∧
      d.rSects = pendingFrom .read off d.volRqsList ∧ d.wSects = pendingFrom .write off d.volRqsList := by
  obtain ⟨hact, hacc⟩ := accounting_exec h v
  obtain ⟨off, hstart, hp⟩ := hacc.quiet hno
  exact ⟨hact.counted, off, hstart, hp .read, hp .write⟩

/-- Two writes leave 44 sectors behind an IO request, which go back in front of a read that came meanwhile.
-/
def batchLeavesWrite : List (IoWorkerEvent Unit Unit Unit) :=
  let w1 : BlkRq := ⟨8, 200, .write, Nat.le_of_ble_eq_true rfl, Nat.succ_pos 199, Nat.le_of_ble_eq_true rfl⟩
  let w2 : BlkRq := ⟨208, 100, .write, Nat.le_of_ble_eq_true rfl, Nat.succ_pos 99, Nat.le_of_ble_eq_true rfl⟩
  [.submit () () w1, .raise () (), .subEnq () (), .submit () () w2, .raise () (), .take () (), .deq () (),
    .submit () () default, .raise () (), .ioBatch () () [w1, w2] 8 fun _ => 0]

theorem batch_leaves_write_accounted :
    let d := (machine.exec init batchLeavesWrite).vol ()
    machine.Legal init batchLeavesWrite ∧ d.sectStart = 264 ∧ d.wSects = 44 ∧ d.rSects = 1 ∧
      d.cntRqs = d.volRqsList.length := by
  have hlegal : machine.Legal init batchLeavesWrite :=
    ⟨rfl, rfl, rfl, rfl, rfl, ⟨rfl, rfl⟩, rfl, rfl, rfl, rfl, trivial⟩
  refine ⟨hlegal, rfl, rfl, rfl, (pending_sectors_accounted batchLeavesWrite hlegal () ?_).1⟩
  intro w rqs sectStart
  cases w
  exact nofun

end DiscoClient.IoWorkers
