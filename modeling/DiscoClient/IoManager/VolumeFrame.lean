import DiscoClient.IoManager.IoWorkers

namespace DiscoClient
open IoWorkerAt

def IoWorkerEvent.vol {V W S : Type*} : IoWorkerEvent V W S → V
  | .submit _ v _ | .raise _ v | .subEnq _ v => v
  | .take _ v | .deq _ v | .ioBatch _ v _ _ _ | .chkActive _ v _ | .rest _ v _ | .rqsDone _ v | .wkEnq _ v => v

namespace IoWorkers
variable {V W S : Type*} {s t u : IoWorkers V W S} {v x : V} {w : W} {i : S} {d : VolumeDevice}
variable {p : IoWorkerAt V} {q : SubmitterAt V} {e : IoWorkerEvent V W S}

def Owns (s : IoWorkers V W S) (w : W) (v : V) : Prop := (s.worker w).vol? = some v

structure SameFor (v : V) (s t : IoWorkers V W S) : Prop where
  vol : t.vol v = s.vol v
  list : v ∈ t.activeVolList ↔ v ∈ s.activeVolList
  added : ∀ i, t.submitter i = .added v ↔ s.submitter i = .added v
  enq : ∀ i, t.submitter i = .enq v ↔ s.submitter i = .enq v
  worker : ∀ w p, p.vol? = some v → (t.worker w = p ↔ s.worker w = p)

namespace SameFor

theorem trans (h : SameFor v s t) (h' : SameFor v t u) : SameFor v s u where
  vol := h'.vol.trans h.vol
  list := h'.list.trans h.list
  added i := (h'.added i).trans (h.added i)
  enq i := (h'.enq i).trans (h.enq i)
  worker w p hp := (h'.worker w p hp).trans (h.worker w p hp)

theorem setVol [DecidableEq V] (h : v ≠ x) : SameFor v s (s.setVol x d) where
  vol := Function.update_of_ne h _ _
  list := Iff.rfl
  added _ := Iff.rfl
  enq _ := Iff.rfl
  worker _ _ _ := Iff.rfl

theorem setWorker [DecidableEq W] (hold : (s.worker w).vol? ≠ some v) (hnew : p.vol? ≠ some v) :
    SameFor v s (s.setWorker w p) where
  vol := rfl
  list := Iff.rfl
  added _ := Iff.rfl
  enq _ := Iff.rfl
  worker w' p' hp' := by
    rw [worker_setWorker]
    split_ifs with heq
    · rw [heq]
      refine ⟨fun h => absurd (h ▸ hp') hnew, fun h => absurd (h ▸ hp') hold⟩
    · exact Iff.rfl

theorem setSubmitter [DecidableEq S] (hold : (s.submitter i).vol? ≠ some v) (hnew : q.vol? ≠ some v) :
    SameFor v s (s.setSubmitter i q) := by
  have hiff (j : S) {p : SubmitterAt V} (hp : p.vol? = some v) :
      (s.setSubmitter i q).submitter j = p ↔ s.submitter j = p := by
    rw [submitter_setSubmitter]
    split_ifs with heq
    · rw [heq]
      exact iff_of_false (fun h => hnew (h ▸ hp)) fun h => hold (h ▸ hp)
    · exact Iff.rfl
  exact ⟨rfl, Iff.rfl, fun j => hiff j rfl, fun j => hiff j rfl, fun _ _ _ => Iff.rfl⟩

theorem enqVolActiveList [DecidableEq V] (h : v ≠ x) : SameFor v s (s.enqVolActiveList x) := by
  rw [IoWorkers.enqVolActiveList]
  split_ifs
  · exact ⟨rfl, Iff.rfl, fun _ => Iff.rfl, fun _ => Iff.rfl, fun _ _ _ => Iff.rfl⟩
  · refine ⟨rfl, ?_, fun _ => Iff.rfl, fun _ => Iff.rfl, fun _ _ _ => Iff.rfl⟩
    simp [h]

theorem owns (h : SameFor v s t) (w : W) : t.Owns w v ↔ s.Owns w v :=
  ⟨fun ht => (congrArg vol? ((h.worker w _ ht).mp rfl)).trans ht,
    fun hs => (congrArg vol? ((h.worker w _ hs).mpr rfl)).trans hs⟩

end SameFor

theorem sameFor_point [DecidableEq W] (hv : v ≠ x) (hold : s.Owns w x) (hnew : p.vol? = some x ∨ p = .idle) :
    SameFor v s (s.setWorker w p) := by
  refine SameFor.setWorker ?_ ?_
  · rw [hold]
    exact fun h => hv (Option.some.inj h).symm
  · rcases hnew with hp | rfl
    · rw [hp]
      exact fun h => hv (Option.some.inj h).symm
    · simp [vol?]

theorem sameFor_work [DecidableEq V] [DecidableEq W] (hv : v ≠ x) (hold : s.Owns w x)
    (hnew : p.vol? = some x ∨ p = .idle) : SameFor v s ((s.setVol x d).setWorker w p) :=
  (SameFor.setVol hv).trans (sameFor_point hv hold hnew)

theorem sameFor_submit [DecidableEq V] [DecidableEq S] (hv : v ≠ x)
    (hold : (s.submitter i).vol? = some x ∨ s.submitter i = .idle) (hnew : q.vol? = some x ∨ q = .idle) :
    SameFor v s ((s.setVol x d).setSubmitter i q) := by
  have hother {q : SubmitterAt V} (hq : q.vol? = some x ∨ q = .idle) : q.vol? ≠ some v := by
    rcases hq with hq | rfl
    · rw [hq]
      exact fun h => hv (Option.some.inj h).symm
    · simp [SubmitterAt.vol?]
  exact (SameFor.setVol hv).trans (SameFor.setSubmitter (hother hold) (hother hnew))

theorem sameFor_take [DecidableEq W] (hv : v ≠ x) (hidle : s.worker w = .idle)
    (hhead : s.activeVolList.head? = some x) :
    SameFor v s (({ s with activeVolList := s.activeVolList.tail }).setWorker w (.deq x)) := by
  have hlist := List.eq_cons_of_mem_head? hhead
  refine SameFor.trans (t := { s with activeVolList := s.activeVolList.tail }) ?_ (SameFor.setWorker ?_ ?_)
  · refine ⟨rfl, ?_, fun _ => Iff.rfl, fun _ => Iff.rfl, fun _ _ _ => Iff.rfl⟩
    change v ∈ s.activeVolList.tail ↔ v ∈ s.activeVolList
    rw [hlist, List.tail_cons, List.mem_cons, or_iff_right hv]
  · change (s.worker w).vol? ≠ some v
    rw [hidle]
    simp [vol?]
  · exact fun h => hv (Option.some.inj h).symm

theorem sameFor_subEnq [DecidableEq V] [DecidableEq S] (hv : v ≠ x) (henq : s.submitter i = .enq x) :
    SameFor v s ((s.enqVolActiveList x).setSubmitter i .idle) := by
  refine (SameFor.enqVolActiveList hv).trans (SameFor.setSubmitter ?_ (by simp [SubmitterAt.vol?]))
  rw [submitter_enqVolActiveList, henq]
  exact fun h => hv (Option.some.inj h).symm

theorem sameFor_wkEnq [DecidableEq V] [DecidableEq W] (hv : v ≠ x) (henq : s.worker w = .enq x) :
    SameFor v s ((s.enqVolActiveList x).setWorker w .idle) := by
  refine (SameFor.enqVolActiveList hv).trans (SameFor.setWorker ?_ (by simp [vol?]))
  rw [worker_enqVolActiveList, henq]
  exact fun h => hv (Option.some.inj h).symm

theorem sameFor_step [DecidableEq V] [DecidableEq W] [DecidableEq S] (he : s.Enabled e) (hv : v ≠ e.vol) :
    SameFor v s (s.step e) := by
  cases e with
  | submit i x rq => exact sameFor_submit hv (.inr he) (.inl rfl)
  | raise i x =>
    refine sameFor_submit hv (.inl (congrArg SubmitterAt.vol? he)) ?_
    split_ifs <;> simp [SubmitterAt.vol?]
  | subEnq i x => exact sameFor_subEnq hv he
  | take w x => exact sameFor_take hv he.1 he.2
  | deq w x =>
    refine sameFor_work hv (congrArg vol? he) ?_
    split_ifs <;> simp [vol?]
  | ioBatch w x rqs sectStart numRefIor =>
    rw [step, ioBatch]
    split <;> exact sameFor_work hv (congrArg vol? he) (.inl rfl)
  | chkActive w x left =>
    refine sameFor_point hv (congrArg vol? he) (.inl ?_)
    split_ifs <;> rfl
  | rest w x left =>
    rw [step, rest]
    split_ifs <;> exact sameFor_work hv (congrArg vol? he) (.inl rfl)
  | rqsDone w x =>
    refine sameFor_work hv (congrArg vol? he) ?_
    split_ifs <;> simp [vol?]
  | wkEnq w x => exact sameFor_wkEnq hv he

end IoWorkers
end DiscoClient
