import DiscoClient.IoManager.SegPhases

namespace DiscoClient.SegReq
open List
variable {s : SegReq} {taken : Nat}

theorem undelivered_pos (h : Delivering taken s) : ∀ a ∈ s.undelivered, 0 < a := by
  intro a ha
  rcases mem_append.mp ha with ha | ha
  · exact h.reads_pos a ha
  · exact s.invalLeft_pos a ha

theorem Delivering.loopIdle (h : Delivering taken s) (hu : s.undelivered = []) : s.LoopIdle := by
  have hleft : s.invalLeft = [] := (append_eq_nil_iff.mp hu).2
  intro i hle hlt
  rcases h.loop_end with hend | ⟨hend, -⟩
  · have hi : i < s.metaData.length := by omega
    refine ⟨s.metaData[i], List.getElem?_eq_getElem hi, ?_⟩
    have hmem : s.metaData[i] ∈ s.metaData.drop s.invalIdx :=
      mem_drop_iff_getElem.mpr ⟨i - s.invalIdx, by omega, by congr 1; omega⟩
    have hnil := map_eq_nil_iff.mp hleft
    have hfil := filter_eq_nil_iff.mp hnil _ hmem
    simpa using hfil
  · omega

theorem Finished.of_calls (r : Bool) (hcalls : s.calls = [.commitUser r s.lbLen, .ioDone s.lbLen])
    (hacq : s.acquiring = false) (hreads : s.reads = []) (husers : s.ciUsers = []) (hends : s.ends = [])
    (hloop : s.LoopIdle) (hfault : s.fault = false) : s.Finished := by
  refine ⟨hacq, hreads, husers, hends, ?_, ?_, hloop, hfault⟩
  · rw [SegReq.commits, hcalls]
    rfl
  · rw [SegReq.dones, hcalls]
    rfl

theorem loopIdle_of_eq (h : s.invalIdx = s.invalEnd) : s.LoopIdle := fun _ hle hlt => by omega

theorem sum_filter_add (items : List MdEntry) :
    ((items.filter fun md => md.isValid).map (·.numHbids)).sum +
      ((items.filter fun md => !md.isValid).map (·.numHbids)).sum = (items.map (·.numHbids)).sum := by
  induction items with
  | nil => rfl
  | cons md items ih =>
    by_cases hv : md.isValid = true
    · simp [hv]
      omega
    · simp [hv]
      omega

theorem mdPieces_pos (items : List MdEntry) : ∀ a ∈ items.map (·.numHbids), 0 < a := by
  intro a ha
  obtain ⟨md, -, rfl⟩ := mem_map.mp ha
  exact md.pos

theorem Phase.of_delivering (h : Delivering 0 s) (hne : s.ciUserRemain ≠ 0) : s.Phase := by
  refine .reading h fun hu => hne ?_
  rw [h.userRemain, hu]
  rfl

theorem Acquiring.acquired (h : s.Acquiring) (hlen : 0 < s.lbLen) {mdres : Bool} {items : List MdEntry}
    (hcover : mdres = true → (items.map (·.numHbids)).sum = s.lbLen) : (s.acquireMDEndfn mdres items).Phase := by
  obtain ⟨hacq, hstat, hdir, hreads, husers, hends, hloop, hci, hur, hmr, hres, hcalls, hfault, hsingle⟩ := h
  unfold acquireMDEndfn
  by_cases hchk : ({ s with acquiring := false, metaData := items } : SegReq).checkMetadataStatus mdres = true
  · rw [if_pos hchk]
    simp only [postHandleAllMDInval, commitUser, callIoDone, hci, Bool.false_eq_true, if_false]
    refine .finished (.of_calls false ?_ rfl hreads husers hends (loopIdle_of_eq hloop) hfault)
    simp [hcalls]
  · rw [if_neg hchk]
    have hmd : mdres = true := by
      cases mdres with
      | true => rfl
      | false => exact absurd rfl hchk
    have hsum := hcover hmd
    cases hop : s.opcode with
    | read =>
      rw [hop, if_pos rfl] at hstat
      simp only [hstat, ioSegReqUpdateState, if_true, hreads, nil_append]
      have hadd := sum_filter_add items
      refine Phase.of_delivering ⟨rfl, rfl, hci, ?_, ?_, fun _ => hres, ?_, husers, hends, hcalls, hsum, ?_, ?_,
        hfault, fun hd => ⟨hsingle hop hd, ?_⟩⟩ ?_
      · simp only [undelivered, invalLeft, drop_zero, sum_append, hur]
        omega
      · simp only [hur, hmr, ite_self]
      · exact mdPieces_pos _
      · exact Nat.zero_le _
      · simp only [invalLeft, drop_zero]
        split_ifs with hz
        · exact Or.inl rfl
        · refine Or.inr ⟨rfl, (Countdown.sum_eq_zero_iff (mdPieces_pos _)).mp (by omega)⟩
      · -- the one LB is that of a valid item or of an invalid one
        have hone := hsingle hop hd
        split_ifs with hz
        · exact Or.inl ((Countdown.sum_eq_zero_iff (mdPieces_pos _)).mp (by omega))
        · exact Or.inr rfl
      · simp only [hur]
        omega
    | write =>
      rw [hop, if_neg (by decide)] at hstat
      simp only [hstat, ioSegReqUpdateState, if_true, writePayload, husers, hends, nil_append]
      have hne : items.map (·.numHbids) ≠ [] := by
        intro hnil
        rw [hnil] at hsum
        exact absurd hsum (Nat.ne_of_lt hlen)
      refine .writing ⟨rfl, hreads, (if_neg hne).symm, ?_, ?_, ?_, mdPieces_pos _, mdPieces_pos _, ?_, ?_,
        loopIdle_of_eq hloop, hfault⟩
      · simpa [hci] using hne
      · simp only [hur, hsum]
      · simp only [hmr, hsum]
      · simp [commits, hcalls, hne]
      · simp [dones, hcalls, hne]

theorem Delivering.undelivered_ne (h : Delivering taken s) (hu : s.undelivered ≠ []) :
    s.ciUserRemain - taken ≠ 0 := by
  have hsum := mt (Countdown.sum_eq_zero_iff (undelivered_pos h)).mp hu
  have hur := h.userRemain
  omega

theorem Delivering.more (h : Delivering taken s) (hu : s.undelivered ≠ []) {ioRes : Bool} {numFailDn : Nat}
    (hw : s.dirTrue = .write → ioRes = true) : (s.readEndfn taken ioRes numFailDn).Phase := by
  have hne := h.undelivered_ne hu
  obtain ⟨hacq, hstat, hci, hur, hmr, hres, hpos, husers, hends, hcalls, hcover, hle, hend, hfault, hsingle⟩ := h
  have hrem : s.ciUserRemain - taken = s.undelivered.sum + (0 : Nat) := by omega
  cases hd : s.dirTrue with
  | read =>
    rw [hd, if_pos rfl] at hmr
    simp only [readEndfn, hd, if_true, readPLEndfn, readEnded, ne_eq, hne, not_false_eq_true, hmr]
    exact .of_delivering ⟨hacq, hstat, hci, hrem, rfl, (fun hc => nomatch hc), hpos, husers, hends, hcalls,
      hcover, hle, hend, hfault, fun hc => by cases hc⟩ hne
  | write =>
    rw [hd, if_neg (by decide)] at hmr
    simp only [readEndfn, hd, partialWReadPLEndfn, ne_eq, hne, not_false_eq_true, if_true, hmr, reduceCtorEq,
      if_false]
    refine .of_delivering ⟨hacq, hstat, hci, hrem, rfl, fun _ => ?_, hpos, husers, hends, hcalls,
      hcover, hle, hend, hfault, fun _ => hsingle hd⟩ hne
    rw [hres hd, hw hd, Bool.and_self]

theorem Delivering.last (h : Delivering taken s) (hlen : 0 < s.lbLen) (hu : s.undelivered = []) {ioRes : Bool}
    {numFailDn : Nat} (hw : s.dirTrue = .write → ioRes = true ∧ (s.ovw = false → s.invalIdx = s.invalEnd)) :
    (s.readEndfn taken ioRes numFailDn).Phase := by
  have hidle := h.loopIdle hu
  obtain ⟨hacq, hstat, hci, hur, hmr, hres, hpos, husers, hends, hcalls, hcover, hle, hend, hfault, hsingle⟩ := h
  have h0 : s.ciUserRemain - taken = 0 := by
    rw [hur, hu]
    simp
  have hreads : s.reads = [] := (append_eq_nil_iff.mp hu).1
  cases hd : s.dirTrue with
  | read =>
    simp only [readEndfn, hd, if_true, readPLEndfn, readEnded, readAllDone, h0, ne_eq, not_true_eq_false, if_false, hstat,
      ioSegReqUpdateState, commitUser, hci, callIoDone, Bool.false_eq_true]
    refine .finished (.of_calls (s.ciUserResult && ioRes) ?_ hacq hreads husers hends hidle hfault)
    simp [hcalls]
  | write =>
    obtain ⟨rfl, hfw⟩ := hw hd
    rw [hd, if_neg (by decide)] at hmr
    simp only [readEndfn, hd, reduceCtorEq, if_false, partialWReadPLEndfn, h0, ne_eq, not_true_eq_false, hstat,
      ioSegReqUpdateState, hres hd, Bool.and_self, Bool.true_eq_false, pwWPhase, pwResetReq]
    have hne : s.metaData.map (·.numHbids) ≠ [] := by
      intro hnil
      rw [hnil] at hcover
      exact absurd hcover (Nat.ne_of_lt hlen)
    cases ho : s.ovw with
    | true =>
      simp only [if_true, pwWPhaseOvw, ioSegReqUpdateState, writePayload, husers, hends, nil_append]
      refine .writing ⟨hacq, hreads, (if_neg hne).symm, ?_, ?_, ?_, mdPieces_pos _, mdPieces_pos _, ?_, ?_,
        hidle, hfault⟩
      · simpa [hci] using hne
      · simp only [hcover]
      · simp only [hmr, hcover]
      · simp [commits, hcalls, hne]
      · simp [dones, hcalls, hne]
    | false =>
      simp only [Bool.false_eq_true, if_false, pwWPhaseFw]
      exact .acquiring ⟨rfl, by simp, fun _ => rfl, hreads, husers, hends, hfw ho, rfl, rfl, hmr, rfl, hcalls, hfault,
        fun hc => by cases hc⟩

theorem Delivering.take (h : Delivering 0 s) {k : Nat} (hk : k < s.reads.length) :
    Delivering (s.reads.getD k 0) { s with reads := s.reads.eraseIdx k } := by
  have hget : s.reads[k]? = some (s.reads.getD k 0) := by simp [hk]
  obtain ⟨hacq, hstat, hci, hur, hmr, hres, hpos, husers, hends, hcalls, hcover, hle, hend, hfault, hsingle⟩ := h
  refine ⟨hacq, hstat, hci, ?_, hmr, hres, fun a ha => hpos a (mem_of_mem_eraseIdx ha), husers, hends, hcalls,
    hcover, hle, hend, hfault, fun hd => ⟨(hsingle hd).1, (hsingle hd).2.imp_left fun hnil => ?_⟩⟩
  · have hsum := Countdown.sum_eraseIdx hget
    simp only [undelivered, invalLeft, sum_append] at hur ⊢
    omega
  · rw [hnil, eraseIdx_nil]

theorem Delivering.next (h : Delivering 0 s) (hi : s.invalIdx < s.invalEnd) :
    ∃ md, s.metaData[s.invalIdx]? = some md ∧
      Delivering (if md.isValid then 0 else md.numHbids) { s with invalIdx := s.invalIdx + 1 } := by
  obtain ⟨hacq, hstat, hci, hur, hmr, hres, hpos, husers, hends, hcalls, hcover, hle, hend, hfault, hsingle⟩ := h
  have hlen : s.invalEnd = s.metaData.length := by
    rcases hend with hend | ⟨hend, -⟩ <;> omega
  have hlt : s.invalIdx < s.metaData.length := by omega
  have hdrop : s.metaData.drop s.invalIdx = s.metaData[s.invalIdx] :: s.metaData.drop (s.invalIdx + 1) :=
    drop_eq_getElem_cons hlt
  refine ⟨s.metaData[s.invalIdx], List.getElem?_eq_getElem hlt, hacq, hstat, hci, ?_, hmr, hres, hpos, husers, hends,
    hcalls, hcover, hi, Or.inl hlen, hfault, hsingle⟩
  simp only [undelivered, invalLeft, hdrop, filter_cons] at hur ⊢
  by_cases hv : s.metaData[s.invalIdx].isValid = true
  · simpa [hv] using hur
  · have hinval : (!s.metaData[s.invalIdx].isValid) = true := by simpa using hv
    rw [if_pos hinval, map_cons, sum_append, sum_cons] at hur
    rw [if_neg hv, sum_append]
    omega

theorem LoopIdle.step (h : s.LoopIdle) (hi : s.invalIdx < s.invalEnd) :
    s.invalMDIoDoneProc = { s with invalIdx := s.invalIdx + 1 } ∧
    ({ s with invalIdx := s.invalIdx + 1 } : SegReq).LoopIdle := by
  obtain ⟨md, hget, hv⟩ := h s.invalIdx le_rfl hi
  refine ⟨?_, fun i hle hlt => h i (by simp only at hle; omega) hlt⟩
  simp [invalMDIoDoneProc, hget, hv]

theorem Writing.ciUserStep (h : s.Writing) {k : Nat} (hk : k < s.ciUsers.length) (ioRes : Bool) :
    (({ s with ciUsers := s.ciUsers.eraseIdx k } : SegReq).writePLCiUser (s.ciUsers.getD k 0) ioRes).Writing := by
  have hget : s.ciUsers[k]? = some (s.ciUsers.getD k 0) := by simp [hk]
  have hne : s.ciUsers ≠ [] := by
    intro hnil
    rw [hnil] at hk
    exact absurd hk (Nat.not_lt_zero k)
  obtain ⟨hacq, hreads, hstat, hci, hur, hmr, hup, hep, hcom, hdone, hloop, hfault⟩ := h
  have hlast := Countdown.last_iff hup hget
  have hsum := Countdown.sum_eraseIdx hget
  have hup' : ∀ a ∈ s.ciUsers.eraseIdx k, 0 < a := fun a ha => hup a (mem_of_mem_eraseIdx ha)
  rw [if_neg hne] at hcom
  rw [decide_eq_false hne] at hci
  simp only [writePLCiUser, hur]
  by_cases h0 : (s.ciUsers.sum : Int) - s.ciUsers.getD k 0 = 0
  · have hnil := hlast.mp h0
    simp only [if_pos h0, commitUser, hci, Bool.false_eq_true, if_false]
    refine ⟨hacq, hreads, hstat, ?_, ?_, hmr, hup', hep, ?_, ?_, hloop, hfault⟩
    · simp [hnil]
    · simp only [h0, hnil, sum_nil, Int.natCast_zero]
    · simp only [hnil, if_true]
      simpa [SegReq.commits, filterMap_cons] using hcom
    · simpa [SegReq.dones, filterMap_cons] using hdone
  · have hnil := mt hlast.mpr h0
    rw [if_neg h0]
    refine ⟨hacq, hreads, hstat, ?_, ?_, hmr, hup', hep, ?_, hdone, hloop, hfault⟩
    · simp [hnil, hci]
    · simp only
      omega
    · simp only [hnil, if_false]
      exact hcom

theorem Writing.endStep (h : s.Writing) {k : Nat} (hk : k < s.ends.length) :
    (({ s with ends := s.ends.eraseIdx k } : SegReq).writePLEndfn (s.ends.getD k 0)).Writing := by
  have hget : s.ends[k]? = some (s.ends.getD k 0) := by simp [hk]
  have hne : s.ends ≠ [] := by
    intro hnil
    rw [hnil] at hk
    exact absurd hk (Nat.not_lt_zero k)
  obtain ⟨hacq, hreads, hstat, hci, hur, hmr, hup, hep, hcom, hdone, hloop, hfault⟩ := h
  have hlast := Countdown.last_iff hep hget
  have hsum := Countdown.sum_eraseIdx hget
  have hep' : ∀ a ∈ s.ends.eraseIdx k, 0 < a := fun a ha => hep a (mem_of_mem_eraseIdx ha)
  rw [if_neg hne] at hdone hstat
  simp only [writePLEndfn, hmr]
  by_cases h0 : (s.ends.sum : Int) - s.ends.getD k 0 = 0
  · have hnil := hlast.mp h0
    simp only [h0, ne_eq, not_true_eq_false, if_false, hstat, ioSegReqUpdateState, if_true, callIoDone]
    refine ⟨hacq, hreads, ?_, hci, hur, ?_, hup, hep', ?_, ?_, hloop, hfault⟩
    · simp [hnil]
    · simp [hnil]
    · simpa [SegReq.commits, filterMap_cons] using hcom
    · simp only [hnil, if_true]
      simpa [SegReq.dones, filterMap_cons] using hdone
  · have hnil := mt hlast.mpr h0
    simp only [ne_eq, h0, not_false_eq_true, if_true]
    refine ⟨hacq, hreads, ?_, hci, hur, ?_, hup, hep', hcom, ?_, hloop, hfault⟩
    · simpa [hnil] using hstat
    · simp only
      omega
    · simp only [hnil, if_false]
      exact hdone

end DiscoClient.SegReq
