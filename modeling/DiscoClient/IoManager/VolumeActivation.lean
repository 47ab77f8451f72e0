import DiscoClient.IoManager.IoMergeLeft
import DiscoClient.IoManager.VolumeFrame
import DiscoClient.Lib.Token

namespace DiscoClient
open Token

namespace IoWorkerAt
variable {V : Type*}

def needsRq : IoWorkerAt V → V → Prop
  | .deq u, v | .batched u true, v | .rest u true, v | .enq u, v => u = v
  | _, _ => False

theorem vol?_of_needsRq {p : IoWorkerAt V} {v : V} (h : p.needsRq v) : p.vol? = some v := by
  cases p with
  | deq u | enq u => exact congrArg some h
  | batched u left | rest u left =>
    cases left with
    | true => exact congrArg some h
    | false => cases h
  | idle | batch | finish => cases h

end IoWorkerAt

inductive VolHolder (W S : Type*) where
  | list
  | sub (i : S)
  | wk (w : W)

namespace IoWorkers
variable {V W S : Type*} {s t : IoWorkers V W S} {v : V} {w : W} {i : S} {d : VolumeDevice}
variable {p : IoWorkerAt V} {q : SubmitterAt V}

def Holds (s : IoWorkers V W S) (v : V) : VolHolder W S → Prop
  | .list => v ∈ s.activeVolList
  | .sub i => s.submitter i = .enq v
  | .wk w => s.Owns w v

theorem SameFor.holds (h : SameFor v s t) (o : VolHolder W S) : t.Holds v o ↔ s.Holds v o := by
  cases o with
  | list => exact h.list
  | sub i => exact h.enq i
  | wk w => exact h.owns w

def NeedsRq (s : IoWorkers V W S) (v : V) : Prop :=
  v ∈ s.activeVolList ∨ (∃ i, s.submitter i = .enq v) ∨ ∃ w, (s.worker w).needsRq v

def Held (s : IoWorkers V W S) (v : V) : Prop :=
  ((s.vol v).volActStat = .active ∧ ∃ o, Sole (s.Holds v) o) ∨
    ((s.vol v).volActStat = .deactive ∧ ∀ o, ¬ s.Holds v o)

theorem Held.keep (h : s.Held v) (hstat : (t.vol v).volActStat = (s.vol v).volActStat)
    (hholds : ∀ o, t.Holds v o ↔ s.Holds v o) : t.Held v := by
  rw [Held, hstat]
  rcases h with ⟨hactive, o, ho⟩ | ⟨hoff, hno⟩
  · exact .inl ⟨hactive, o, ho.keep hholds⟩
  · exact .inr ⟨hoff, fun o ho => hno o ((hholds o).mp ho)⟩

structure Activation (s : IoWorkers V W S) (v : V) : Prop where
  counted : (s.vol v).Counted
  token : s.Held v
  woken : (s.vol v).volActStat = .deactive → (s.vol v).volRqsList ≠ [] → ∃ i, s.submitter i = .added v
  ready : s.NeedsRq v → (s.vol v).volRqsList ≠ []
  batches : ∀ w rqs sectStart, s.worker w = .batch v rqs sectStart → rqs ≠ []

namespace Activation

theorem same (h : Activation s v) (hs : SameFor v s t) : Activation t v where
  counted := by
    rw [hs.vol]
    exact h.counted
  token := h.token.keep (by rw [hs.vol]) hs.holds
  woken hstat hne := by
    rw [hs.vol] at hstat hne
    obtain ⟨i, hi⟩ := h.woken hstat hne
    exact ⟨i, (hs.added i).mpr hi⟩
  ready hneeds := by
    rw [hs.vol]
    refine h.ready ?_
    rcases hneeds with hl | ⟨i, hi⟩ | ⟨w, hw⟩
    · exact .inl (hs.list.mp hl)
    · exact .inr (.inl ⟨i, (hs.enq i).mp hi⟩)
    · refine .inr (.inr ⟨w, ?_⟩)
      rw [(hs.worker w _ (IoWorkerAt.vol?_of_needsRq hw)).mp rfl]
      exact hw
  batches w rqs sectStart hw := h.batches w rqs sectStart ((hs.worker w _ rfl).mp hw)

theorem of_holds (h : Activation s v) {o : VolHolder W S} (ho : s.Holds v o) :
    (s.vol v).volActStat = .active ∧ Sole (s.Holds v) o := by
  rcases h.token with ⟨hstat, o', hsole⟩ | ⟨-, hno⟩
  · exact ⟨hstat, ⟨ho, fun b hb => hsole.eq hb ho⟩⟩
  · exact absurd ho (hno o)

theorem worker_stays [DecidableEq V] [DecidableEq W] (h : Activation s v) (hown : s.Owns w v)
    (hp : p.vol? = some v) (hcnt : d.Counted) (hstat : d.volActStat = (s.vol v).volActStat)
    (hneeds : p.needsRq v → d.volRqsList ≠ [])
    (hbatch : ∀ rqs sectStart, p = .batch v rqs sectStart → rqs ≠ []) :
    Activation ((s.setVol v d).setWorker w p) v := by
  obtain ⟨hactive, hsole⟩ := h.of_holds (o := .wk w) hown
  have hvol : ((s.setVol v d).setWorker w p).vol v = d := vol_setVol s v d
  refine ⟨?_, .inl ⟨?_, .wk w, hsole.keep fun o => ?_⟩, fun hoff => ?_, fun hreq => ?_, fun w' rqs sectStart hw' => ?_⟩
  · rw [hvol]
    exact hcnt
  · rw [hvol, hstat]
    exact hactive
  · cases o with
    | list => exact Iff.rfl
    | sub i => exact Iff.rfl
    | wk w' =>
      rw [Holds, Owns, worker_setWorker]
      split_ifs with heq
      · rw [heq]
        exact iff_of_true hp hown
      · exact Iff.rfl
  · rw [hvol, hstat, hactive] at hoff
    cases hoff
  · rw [hvol]
    rcases hreq with hlist | ⟨i, hi⟩ | ⟨w', hw'⟩
    · cases hsole.unique .list hlist
    · cases hsole.unique (.sub i) hi
    · rw [worker_setWorker] at hw'
      split_ifs at hw' with heq
      · exact hneeds hw'
      · cases hsole.unique (.wk w') (IoWorkerAt.vol?_of_needsRq hw')
        exact absurd rfl heq
  · rw [worker_setWorker] at hw'
    split_ifs at hw' with heq
    · exact hbatch rqs sectStart hw'
    · exact h.batches w' rqs sectStart hw'

theorem holds_setSubmitter [DecidableEq S] (hold : s.submitter i ≠ .enq v) (hnew : q ≠ .enq v) (o : VolHolder W S) :
    (s.setSubmitter i q).Holds v o ↔ s.Holds v o := by
  cases o with
  | list => exact Iff.rfl
  | wk w => exact Iff.rfl
  | sub j =>
    rw [Holds, submitter_setSubmitter, Holds]
    split_ifs with heq
    · rw [heq]
      exact iff_of_false hnew hold
    · exact Iff.rfl

theorem submit [DecidableEq V] [DecidableEq S] (h : Activation s v) (rq : BlkRq) (hidle : s.submitter i = .idle) :
    Activation ((s.setVol v ((s.vol v).enqDmsRqVolList rq)).setSubmitter i (.added v)) v := by
  obtain ⟨t, ht⟩ : ∃ t, t = (s.setVol v ((s.vol v).enqDmsRqVolList rq)).setSubmitter i (.added v) := ⟨_, rfl⟩
  have hvol : t.vol v = (s.vol v).enqDmsRqVolList rq := ht ▸ vol_setVol s v _
  have hstat : (t.vol v).volActStat = (s.vol v).volActStat := by
    rw [hvol]
    simp [VolumeDevice.enqDmsRqVolList]
  have hholds (o : VolHolder W S) : t.Holds v o ↔ s.Holds v o := by
    rw [ht]
    refine (holds_setSubmitter (s := s.setVol v _) ?_ (by simp) o).trans ?_
    · rw [setVol, hidle]
      simp
    · cases o <;> exact Iff.rfl
  rw [← ht]
  refine ⟨?_, h.token.keep hstat hholds, fun _ _ => ⟨i, ?_⟩, fun _ => ?_, ?_⟩
  · rw [hvol]
    exact h.counted.enqDmsRqVolList rq
  · rw [ht, submitter_setSubmitter, if_pos rfl]
  · rw [hvol]
    simp [VolumeDevice.enqDmsRqVolList]
  · rw [ht]
    exact h.batches

theorem raise_idle [DecidableEq S] (h : Activation s v) (hadded : s.submitter i = .added v)
    (hrest : (s.vol v).volActStat = .deactive → (s.vol v).volRqsList = []) : Activation (s.setSubmitter i .idle) v := by
  have hholds (o : VolHolder W S) : (s.setSubmitter i .idle).Holds v o ↔ s.Holds v o :=
    holds_setSubmitter (by rw [hadded]; simp) (by simp) o
  refine ⟨h.counted, h.token.keep rfl hholds, fun hoff hne => absurd (hrest hoff) hne,
    fun hreq => h.ready ?_, h.batches⟩
  rcases hreq with hlist | ⟨j, hj⟩ | hwork
  · exact .inl hlist
  · exact .inr (.inl ⟨j, (hholds (.sub j)).mp hj⟩)
  · exact .inr (.inr hwork)

theorem raise_wakes [DecidableEq V] [DecidableEq S] (h : Activation s v) (hoff : (s.vol v).volActStat = .deactive)
    (hne : (s.vol v).volRqsList ≠ []) :
    Activation ((s.setVol v { s.vol v with volActStat := .active }).setSubmitter i (.enq v)) v := by
  have hno (o : VolHolder W S) : ¬ s.Holds v o := by
    rcases h.token with ⟨hactive, -⟩ | ⟨-, hno⟩
    · rw [hoff] at hactive
      cases hactive
    · exact hno o
  obtain ⟨t, ht⟩ : ∃ t, t = (s.setVol v { s.vol v with volActStat := .active }).setSubmitter i (.enq v) := ⟨_, rfl⟩
  have hvol : t.vol v = { s.vol v with volActStat := .active } := ht ▸ vol_setVol s v _
  have hsole : Sole (t.Holds v) (.sub i) := by
    rw [ht]
    refine sole_make hno ?_ fun o ho hne => ?_
    · rw [Holds, submitter_setSubmitter, if_pos rfl]
    · cases o with
      | list => exact ho
      | wk w => exact ho
      | sub j =>
        rw [Holds, submitter_setSubmitter, if_neg fun heq => hne (congrArg VolHolder.sub heq)] at ho
        exact ho
  rw [← ht]
  refine ⟨?_, .inl ⟨?_, .sub i, hsole⟩, fun hoff' => ?_, fun _ => ?_, ?_⟩
  · rw [hvol]
    exact h.counted
  · rw [hvol]
  · rw [hvol] at hoff'
    cases hoff'
  · rw [hvol]
    exact hne
  · rw [ht]
    exact h.batches

theorem pass (h : Activation s v) {o m : VolHolder W S} (hvol : t.vol v = s.vol v) (hfrom : s.Holds v o)
    (hto : t.Holds v m) (hrest : ∀ b, t.Holds v b → b ≠ m → s.Holds v b ∧ b ≠ o) (hne : (s.vol v).volRqsList ≠ [])
    (hbatch : ∀ w rqs sectStart, t.worker w = .batch v rqs sectStart → s.worker w = .batch v rqs sectStart) :
    Activation t v := by
  obtain ⟨hactive, hsole⟩ := h.of_holds hfrom
  refine ⟨hvol ▸ h.counted, .inl ⟨hvol ▸ hactive, m, hsole.pass hto hrest⟩, fun hoff => ?_, fun _ => hvol ▸ hne,
    fun w rqs sectStart hw => h.batches w rqs sectStart (hbatch w rqs sectStart hw)⟩
  rw [hvol, hactive] at hoff
  cases hoff

theorem subEnq [DecidableEq V] [DecidableEq S] (h : Activation s v) (hi : s.submitter i = .enq v) :
    Activation ((s.enqVolActiveList v).setSubmitter i .idle) v := by
  obtain ⟨-, hsole⟩ := h.of_holds (o := .sub i) hi
  have hlist : v ∉ s.activeVolList := fun hmem => by cases hsole.unique .list hmem
  rw [enqVolActiveList, if_neg hlist]
  refine h.pass (o := .sub i) (m := .list) rfl hi (by simp [Holds, setSubmitter]) (fun b hb hne => ?_)
    (h.ready (.inr (.inl ⟨i, hi⟩))) fun _ _ _ hw => hw
  cases b with
  | list => exact absurd rfl hne
  | wk w => exact ⟨hb, by simp⟩
  | sub j =>
    rw [Holds, submitter_setSubmitter] at hb
    split_ifs at hb with heq
    exact ⟨hb, fun heq' => heq (VolHolder.sub.inj heq')⟩

theorem take [DecidableEq W] (h : Activation s v) (hnodup : s.activeVolList.Nodup)
    (hhead : s.activeVolList.head? = some v) :
    Activation (({ s with activeVolList := s.activeVolList.tail }).setWorker w (.deq v)) v := by
  obtain ⟨rest, hlist⟩ : ∃ rest, s.activeVolList = v :: rest := ⟨_, List.eq_cons_of_mem_head? hhead⟩
  have hmem : v ∈ s.activeVolList := hlist ▸ List.mem_cons_self
  refine h.pass (o := .list) (m := .wk w) rfl hmem ?_ (fun b hb hne => ?_) (h.ready (.inl hmem)) fun w' rqs st hw' => ?_
  · rw [Holds, Owns, worker_setWorker, if_pos rfl]
    rfl
  · cases b with
    | list =>
      rw [hlist] at hnodup hb
      exact absurd hb (List.nodup_cons.mp hnodup).1
    | sub i => exact ⟨hb, by simp⟩
    | wk w' =>
      rw [Holds, Owns, worker_setWorker, if_neg fun heq => hne (congrArg VolHolder.wk heq)] at hb
      exact ⟨hb, by simp⟩
  · rw [worker_setWorker] at hw'
    split_ifs at hw'
    exact hw'

theorem wkEnq [DecidableEq V] [DecidableEq W] (h : Activation s v) (hw : s.worker w = .enq v) :
    Activation ((s.enqVolActiveList v).setWorker w .idle) v := by
  have hown : s.Holds v (.wk w) := congrArg IoWorkerAt.vol? hw
  obtain ⟨-, hsole⟩ := h.of_holds hown
  have hlist : v ∉ s.activeVolList := fun hmem => by cases hsole.unique .list hmem
  have hneeds : (s.worker w).needsRq v := by
    rw [hw]
    rfl
  rw [enqVolActiveList, if_neg hlist]
  refine h.pass (o := .wk w) (m := .list) rfl hown (by simp [Holds, setWorker]) (fun b hb hne => ?_)
    (h.ready (.inr (.inr ⟨w, hneeds⟩))) fun w' rqs st hw' => ?_
  · cases b with
    | list => exact absurd rfl hne
    | sub i => exact ⟨hb, by simp⟩
    | wk w' =>
      rw [Holds, Owns, worker_setWorker] at hb
      split_ifs at hb with heq
      · cases hb
      · exact ⟨hb, fun heq' => heq (VolHolder.wk.inj heq')⟩
  · rw [worker_setWorker] at hw'
    split_ifs at hw'
    exact hw'

theorem worker_leaves [DecidableEq V] [DecidableEq W] (h : Activation s v) (hown : s.Owns w v)
    (hempty : (s.vol v).volRqsList = []) :
    Activation ((s.setVol v { s.vol v with volActStat := .deactive }).setWorker w .idle) v := by
  obtain ⟨-, hsole⟩ := h.of_holds (o := .wk w) hown
  obtain ⟨t, ht⟩ : ∃ t, t = (s.setVol v { s.vol v with volActStat := .deactive }).setWorker w .idle := ⟨_, rfl⟩
  have hvol : t.vol v = { s.vol v with volActStat := .deactive } := ht ▸ vol_setVol s v _
  have hno : ∀ o, ¬ t.Holds v o := hsole.drop fun o ho => by
    rw [ht] at ho
    cases o with
    | list => exact ⟨ho, by simp⟩
    | sub i => exact ⟨ho, by simp⟩
    | wk w' =>
      rw [Holds, Owns, worker_setWorker] at ho
      split_ifs at ho with heq
      · cases ho
      · exact ⟨ho, fun heq' => heq (VolHolder.wk.inj heq')⟩
  rw [← ht]
  refine ⟨hvol ▸ h.counted, .inr ⟨by rw [hvol], hno⟩, fun _ hne => ?_, fun hreq => ?_, fun w' rqs st hw' => ?_⟩
  · rw [hvol] at hne
    exact absurd hempty hne
  · rcases hreq with hlist | ⟨i, hi⟩ | ⟨w', hw'⟩
    · exact absurd hlist (hno .list)
    · exact absurd hi (hno (.sub i))
    · exact absurd (IoWorkerAt.vol?_of_needsRq hw') (hno (.wk w'))
  · exact absurd (congrArg IoWorkerAt.vol? hw') (hno (.wk w'))

end Activation

end IoWorkers
end DiscoClient
