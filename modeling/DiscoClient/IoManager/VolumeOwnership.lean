import DiscoClient.IoManager.VolumeActivation
import Mathlib.Data.List.Nodup

namespace DiscoClient
open Token List

namespace IoWorkers
variable {V W S : Type*} {s : IoWorkers V W S} {v : V} {w : W} {i : S} {e : IoWorkerEvent V W S}

/-- What do_io_batch does to the volume and to the worker. -/
theorem ioBatch_cases [DecidableEq V] [DecidableEq W] (s : IoWorkers V W S) (w : W) (v : V) {rqs : List BlkRq}
    (hne : rqs ≠ []) (sectStart : Nat) (numRefIor : Nat → Nat) :
    ∃ d left, s.ioBatch w v rqs sectStart numRefIor = (s.setVol v d).setWorker w (.batched v left) ∧
      d.volActStat = (s.vol v).volActStat ∧ ((s.vol v).Counted → d.Counted) ∧ (left = true → d.volRqsList ≠ []) := by
  rw [ioBatch]
  split
  · next r hr =>
    have hlt : r < rqs.length := doIoBatch_remain_lt (length_pos_iff.mpr hne) hr
    refine ⟨_, true, rfl, VolumeDevice.volActStat_enqBatch _ _ _, fun h => h.enqBatch _ _, fun _ => ?_⟩
    dsimp only
    rw [VolumeDevice.volRqsList_enqBatch]
    exact fun h => absurd (append_eq_nil_iff.mp h).1 (drop_eq_nil_iff.not.mpr (Nat.not_le.mpr hlt))
  · obtain ⟨hlist, hcnt, hstat⟩ := VolumeDevice.updateVolRqListStart_eq (s.vol v)
    refine ⟨_, false, rfl, hstat, fun h => ?_, fun h => absurd h Bool.false_ne_true⟩
    rw [VolumeDevice.Counted]
    dsimp only
    rw [hlist, hcnt]
    exact h

theorem rest_cases [DecidableEq V] [DecidableEq W] (s : IoWorkers V W S) (w : W) (v : V) (left : Bool) :
    ∃ n p, s.rest w v left = (s.setVol v { s.vol v with rqAggWaitCnt := n }).setWorker w p ∧ p.vol? = some v ∧
      (p.needsRq v → left = true ∨ (s.vol v).cntRqs > 0) ∧ ∀ rqs sectStart, p ≠ .batch v rqs sectStart := by
  cases left with
  | true => exact ⟨_, .deq v, rfl, rfl, fun _ => .inl rfl, by simp⟩
  | false =>
    by_cases hcnt : (s.vol v).cntRqs > 0
    · exact ⟨0, .deq v, by simp [rest, hcnt], rfl, fun _ => .inr hcnt, by simp⟩
    · exact ⟨0, .finish v, by simp [rest, hcnt], rfl, fun hreq => False.elim hreq, by simp⟩

theorem Activation.deq_ne_nil (h : Activation s v) (hw : s.worker w = .deq v) : (s.vol v).deqDmsRqList.2 ≠ [] := by
  have hneeds : (s.worker w).needsRq v := by
    rw [hw]
    rfl
  exact VolumeDevice.deqDmsRqList_eq_nil.not.mpr (h.ready (.inr (.inr ⟨w, hneeds⟩)))

theorem activation_init (v : V) : Activation (init : IoWorkers V W S) v where
  counted := rfl
  token := .inr ⟨rfl, fun o ho => by cases o <;> cases ho⟩
  woken _ hne := absurd rfl hne
  ready hneeds := by
    rcases hneeds with hlist | ⟨i, hi⟩ | ⟨w, hw⟩
    · cases hlist
    · cases hi
    · exact False.elim hw
  batches _ _ _ hw := by cases hw

/-- A volume with requests, to which no submission is under way, is in the active list once or at one worker. -/
theorem Activation.placed [DecidableEq V] (h : Activation s v) (hnodup : s.activeVolList.Nodup)
    (hne : (s.vol v).volRqsList ≠ []) (hsub : ∀ i, (s.submitter i).vol? ≠ some v) :
    (s.activeVolList.count v = 1 ∧ ∀ w, ¬ s.Owns w v) ∨ (v ∉ s.activeVolList ∧ ∃! w, s.Owns w v) := by
  rcases h.token with ⟨-, o, hsole⟩ | ⟨hoff, -⟩
  · cases o with
    | list =>
      refine .inl ⟨count_eq_one_of_mem hnodup hsole.holds, fun w hw => ?_⟩
      cases hsole.unique (.wk w) hw
    | sub i => exact absurd (congrArg SubmitterAt.vol? hsole.holds) (hsub i)
    | wk w =>
      refine .inr ⟨fun hlist => ?_, w, hsole.holds, fun w' hw' => ?_⟩
      · cases hsole.unique .list hlist
      · exact VolHolder.wk.inj (hsole.unique (.wk w') hw')
  · obtain ⟨i, hi⟩ := h.woken hoff hne
    exact absurd (congrArg SubmitterAt.vol? hi) (hsub i)

variable [DecidableEq V] [DecidableEq W] [DecidableEq S]

theorem nodup_step (h : s.activeVolList.Nodup) : (s.step e).activeVolList.Nodup := by
  have henq (x : V) : (s.enqVolActiveList x).activeVolList.Nodup := by
    rw [enqVolActiveList]
    split_ifs with hmem
    · exact h
    · exact nodup_append.mpr ⟨h, by simp, fun a ha b hb hab =>
        hmem (mem_singleton.mp hb ▸ hab ▸ ha)⟩
  cases e with
  | subEnq i x => exact henq x
  | wkEnq w x => exact henq x
  | take w x => exact h.tail
  | ioBatch w x rqs sectStart numRefIor =>
    rw [step, IoWorkers.ioBatch]
    split <;> exact h
  | rest w x left =>
    rw [step, IoWorkers.rest]
    split_ifs <;> exact h
  | submit | raise | deq | chkActive | rqsDone => exact h

theorem activation_raise (h : Activation s v) (hi : s.submitter i = .added v) :
    Activation (s.step (.raise i v)) v := by
  rw [step, VolumeDevice.updateVolActiveStat_enqRqs]
  split_ifs with hwake
  · exact h.raise_wakes hwake.1 (h.counted.pos_iff.mp hwake.2)
  · simp only [setVol_self]
    refine h.raise_idle hi fun hoff => ?_
    by_contra hne
    exact hwake ⟨hoff, h.counted.pos_iff.mpr hne⟩

theorem activation_rqsDone (h : Activation s v) (hw : s.worker w = .finish v) :
    Activation (s.step (.rqsDone w v)) v := by
  have hown : s.Owns w v := congrArg IoWorkerAt.vol? hw
  obtain ⟨hactive, -⟩ := h.of_holds (o := .wk w) hown
  rw [step, VolumeDevice.updateVolActiveStat_rqsDone hactive]
  split_ifs with hzero
  · exact h.worker_leaves hown (h.counted.eq_zero_iff.mp hzero)
  · exact h.worker_stays hown rfl h.counted rfl (fun _ => h.counted.eq_zero_iff.not.mp hzero)
      fun _ _ hp => by cases hp

theorem activation_deq (h : Activation s v) (hw : s.worker w = .deq v) : Activation (s.step (.deq w v)) v := by
  have hown : s.Owns w v := congrArg IoWorkerAt.vol? hw
  -- otherwise the worker would drop the volume, with the volume still active
  have hne := h.deq_ne_nil hw
  rw [step]
  dsimp only
  rw [if_neg hne]
  refine h.worker_stays hown rfl h.counted.deqDmsRqList ?_ (fun hp => by cases hp) fun rqs sectStart hp => ?_
  · exact (VolumeDevice.deqLoop_eq _ _ _ _ _).2.2.2
  · cases hp
    exact hne

theorem activation_ioBatch {rqs : List BlkRq} {sectStart : Nat} (h : Activation s v)
    (hw : s.worker w = .batch v rqs sectStart) (numRefIor : Nat → Nat) :
    Activation (s.step (.ioBatch w v rqs sectStart numRefIor)) v := by
  have hown : s.Owns w v := congrArg IoWorkerAt.vol? hw
  obtain ⟨d, left, heq, hstat, hcnt, hleft⟩ := s.ioBatch_cases w v (h.batches w rqs sectStart hw) sectStart numRefIor
  rw [step, heq]
  refine h.worker_stays hown rfl (hcnt h.counted) hstat (fun hp => hleft ?_) fun _ _ hp => by cases hp
  cases left with
  | true => rfl
  | false => cases hp

theorem activation_chkActive {left : Bool} (h : Activation s v) (hw : s.worker w = .batched v left) :
    Activation (s.step (.chkActive w v left)) v := by
  have hown : s.Owns w v := congrArg IoWorkerAt.vol? hw
  obtain ⟨p, hp⟩ : ∃ p : IoWorkerAt V, p = if s.activeVolList ≠ [] then .finish v else .rest v left := ⟨_, rfl⟩
  have heq : s.step (.chkActive w v left) = (s.setVol v (s.vol v)).setWorker w p := by
    rw [setVol_self, hp]
    rfl
  rw [heq]
  refine h.worker_stays hown ?_ h.counted rfl (fun hreq => h.ready (.inr (.inr ⟨w, ?_⟩))) fun rqs sectStart hbatch => ?_
  · rw [hp]
    split_ifs <;> rfl
  · rw [hw]
    rw [hp] at hreq
    split_ifs at hreq
    · cases hreq
    · cases left with
      | true => rfl
      | false => cases hreq
  · rw [hp] at hbatch
    split_ifs at hbatch

theorem activation_rest {left : Bool} (h : Activation s v) (hw : s.worker w = .rest v left) :
    Activation (s.step (.rest w v left)) v := by
  have hown : s.Owns w v := congrArg IoWorkerAt.vol? hw
  obtain ⟨n, p, heq, hp, hneeds, hbatch⟩ := s.rest_cases w v left
  rw [step, heq]
  refine h.worker_stays hown hp h.counted rfl (fun hreq => ?_) fun rqs sectStart hp => absurd hp (hbatch _ _)
  rcases hneeds hreq with rfl | hcnt
  · have hneeds : (s.worker w).needsRq v := by
      rw [hw]
      rfl
    exact h.ready (.inr (.inr ⟨w, hneeds⟩))
  · exact h.counted.pos_iff.mp hcnt

theorem activation_step (h : ∀ v, Activation s v) (hnodup : s.activeVolList.Nodup) (he : s.Enabled e) (v : V) :
    Activation (s.step e) v := by
  by_cases hv : v = e.vol
  · subst hv
    cases e with
    | submit i x rq => exact (h x).submit rq he
    | raise i x => exact activation_raise (h x) he
    | subEnq i x => exact (h x).subEnq he
    | take w x => exact (h x).take hnodup he.2
    | deq w x => exact activation_deq (h x) he
    | ioBatch w x rqs sectStart numRefIor => exact activation_ioBatch (h x) he numRefIor
    | chkActive w x left => exact activation_chkActive (h x) he
    | rest w x left => exact activation_rest (h x) he
    | rqsDone w x => exact activation_rqsDone (h x) he
    | wkEnq w x => exact (h x).wkEnq he
  · exact (h v).same (sameFor_step he hv)

theorem activation_exec {es : List (IoWorkerEvent V W S)} (h : machine.Legal (init : IoWorkers V W S) es) :
    (machine.exec (init : IoWorkers V W S) es).activeVolList.Nodup ∧
      ∀ v, Activation (machine.exec (init : IoWorkers V W S) es) v :=
  GuardedMachine.exec_invariant (m := machine) (I := fun s => s.activeVolList.Nodup ∧ ∀ v, Activation s v)
    ⟨nodup_nil, activation_init⟩ (fun _ _ hs he => ⟨nodup_step hs.1, activation_step hs.2 hs.1 he⟩) h

/-- Volume activation never strands requests, and never gives a volume away twice: in every interleaving of
any number of submitters and IO workers. -/
theorem volume_never_stranded (es : List (IoWorkerEvent V W S)) (h : machine.Legal init es) (v : V) :
    let s := machine.exec init es
    ((s.vol v).volRqsList ≠ [] → (∀ i, (s.submitter i).vol? ≠ some v) →
      (s.activeVolList.count v = 1 ∧ ∀ w, ¬ s.Owns w v) ∨ (v ∉ s.activeVolList ∧ ∃! w, s.Owns w v)) ∧
    s.activeVolList.count v ≤ 1 ∧
    (∀ w, v ∈ s.activeVolList → ¬ s.Owns w v) ∧
    (∀ w w', s.Owns w v → s.Owns w' v → w = w') := by
  obtain ⟨hnodup, hact⟩ := activation_exec h
  refine ⟨(hact v).placed hnodup, nodup_iff_count_le_one.mp hnodup v, fun w hlist hw => ?_, fun w w' hw hw' => ?_⟩
  · obtain ⟨-, hsole⟩ := (hact v).of_holds (o := .list) hlist
    cases hsole.unique (.wk w) hw
  · obtain ⟨-, hsole⟩ := (hact v).of_holds (o := .wk w') hw'
    exact VolHolder.wk.inj (hsole.unique (.wk w) hw)

def arrivalDuringBatch : List (IoWorkerEvent Bool Bool Bool) :=
  [.submit true true default, .raise true true, .subEnq true true, .take false true, .deq false true,
    .submit false true default, .raise false true]

theorem arrival_during_batch_not_stranded :
    let s := machine.exec init arrivalDuringBatch
    machine.Legal init arrivalDuringBatch ∧ s.worker false = .batch true [default] 0 ∧
      ((s.activeVolList.count true = 1 ∧ ∀ w, ¬ s.Owns w true) ∨ (true ∉ s.activeVolList ∧ ∃! w, s.Owns w true)) := by
  have hlegal : machine.Legal init arrivalDuringBatch := ⟨rfl, rfl, rfl, ⟨rfl, rfl⟩, rfl, rfl, rfl, trivial⟩
  refine ⟨hlegal, rfl, (volume_never_stranded arrivalDuringBatch hlegal true).1 (cons_ne_nil _ _) fun i => ?_⟩
  cases i <;> exact nofun

end IoWorkers
end DiscoClient
