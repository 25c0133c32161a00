import Windmill.Wac.Writes

/-! # The decision that an approval step gets

A decision for a `waitForApproval` step is a row of `resume_job` with the resume id of the step.
When the workflow resumes, the worker takes the oldest row of the job whatever its resume id is. So
the decision recorded for a step is its own in those runs in which, at each resume, the row of the
pending step is the oldest (`FirstIsOwn`). -/

namespace Windmill.Wac.Approvals

open Lib.Run Flow.Value Checkpoint Machine Writes List Option

variable (keyHash : String → BitVec 64) (isApproval : String → Bool) {k : String}
  {cp : WacCheckpoint} {out : WacOutput}

/-- The resume id of an approval step: the low half of the 64-bit hash of its key. -/
def resumeIdOf (key : String) : BitVec 32 := (keyHash key).setWidth 32

/-- The row with the resume id of the step. -/
def ownDecision (key : String) (rows : List ResumeRow) : Option ResumeRow :=
  rows.find? fun row => row.resumeId == resumeIdOf keyHash key

def Keyed : WacOutput → Prop
  | .dispatch mode steps => (∃ text, mode = .named text) ∧ ∀ s ∈ steps, isApproval s.key = false
  | .complete _ => True
  | .inlineCheckpoint key _ => isApproval key = false
  | .approval key _ _ => isApproval key = true
  | .sleep key _ => isApproval key = false

/-- The outputs of a workflow: a step that is recorded is answered from the checkpoint and is not
asked for again. -/
def IsWorkflow (p : Parent) : Action → Prop
  | .output _ out => (∀ k ∈ out.keys, k ∉ completedOf p) ∧ Keyed isApproval out
  | _ => True

/-- When the workflow resumes from an approval, every other row of the job is younger than the row
of the pending step. -/
def FirstIsOwn (p : Parent) : Action → Prop
  | .prepares => ∀ k, pendingApproval (loadCheckpoint p.rows) = some k → ∀ row ∈ p.resumeRows,
      row.resumeId = resumeIdOf keyHash k ∨
        ∃ own ∈ p.resumeRows, own.resumeId = resumeIdOf keyHash k ∧ own.createdAt < row.createdAt
  | _ => True

/-! ### The oldest row -/

lemma firstResume_eq_ownDecision {rows key} (hnd : (rows.map (·.resumeId)).Nodup)
    (h : ∀ row ∈ rows, row.resumeId = resumeIdOf keyHash key ∨
      ∃ own ∈ rows, own.resumeId = resumeIdOf keyHash key ∧ own.createdAt < row.createdAt) :
    firstResume rows = ownDecision keyHash key rows := by
  unfold firstResume
  cases hmin : rows.argmin (·.createdAt) with
  | none =>
    rw [argmin_eq_none.mp hmin]
    rfl
  | some first =>
    have hmem : first ∈ rows := argmin_mem hmin
    have hown : first.resumeId = resumeIdOf keyHash key := by
      rcases h first hmem with hid | ⟨own, hownmem, -, hlt⟩
      · exact hid
      · have := le_of_mem_argmin hownmem hmin
        omega
    symm
    unfold ownDecision
    cases hf : rows.find? fun row => row.resumeId == resumeIdOf keyHash key with
    | none =>
      have := find?_eq_none.mp hf first hmem
      exact absurd (beq_iff_eq.mpr hown) this
    | some own =>
      have hid := find?_some hf
      have hsame : own.resumeId = first.resumeId := (eq_of_beq hid).trans hown.symm
      rw [inj_on_of_nodup_map hnd (mem_of_find?_eq_some hf) hmem hsame]

/-! ### The recorded decisions -/

structure Answers (j : Job) (p : Parent) : Prop where
  distinct : (p.resumeRows.map (·.resumeId)).Nodup
  rowIds : ∀ row ∈ p.resumeRows, row.id = resumeRowId j.id row.resumeId
  answered : ∀ a ∈ p.answered, isApproval a.1 = true ∧
    (completedOf p).lookup a.1 = some (approvalResult (ownDecision keyHash a.1 a.2))
  recorded : ∀ k ∈ completedOf p, isApproval k = true → k ∈ p.answered.map Prod.fst
  waiting : ∀ k, pendingApproval (loadCheckpoint p.rows) = some k → isApproval k = true ∧
    k ∉ completedOf p
  sleeping : ∀ w, (loadCheckpoint p.rows).pendingSteps = some w → w.mode = .sleep →
    isApproval w.firstKey = false
  children : ∀ w, (loadCheckpoint p.rows).pendingSteps = some w → ∀ k ∈ w.jobIds,
    isApproval k = false
  reports : ∀ r ∈ p.reports, ∀ ids, r.jobIds = some ids → ∀ k ∈ ids, isApproval k = false

variable {keyHash isApproval} {j : Job} {p p' : Parent}

lemma mem_iff_of_lookup_eq {m m' : JsonMap} (h : m'.lookup k = m.lookup k) : k ∈ m' ↔ k ∈ m := by
  rw [← AList.lookup_isSome, ← AList.lookup_isSome, h]

lemma Answers.grows {allowed : String → Prop} (h : Answers keyHash isApproval j p)
    (hrows : p'.resumeRows = p.resumeRows) (hansw : p'.answered = p.answered)
    (hrep : ∀ r ∈ p'.reports, r ∈ p.reports)
    (hgrow : Grows allowed (loadCheckpoint p.rows) (loadCheckpoint p'.rows))
    (hallow : ∀ k, allowed k → isApproval k = false) : Answers keyHash isApproval j p' := by
  have hkept : ∀ k, isApproval k = true → (completedOf p').lookup k = (completedOf p).lookup k := by
    intro k hk
    refine hgrow.kept k fun hall => ?_
    simp [hallow k hall] at hk
  refine
    { distinct := hrows ▸ h.distinct
      rowIds := hrows ▸ h.rowIds
      answered := fun a ha => ?_
      recorded := fun k hk happ => ?_
      waiting := fun k hk => ?_
      sleeping := fun w hw => h.sleeping w (hgrow.pending w hw)
      children := fun w hw => h.children w (hgrow.pending w hw)
      reports := fun r hr => h.reports r (hrep r hr) }
  · obtain ⟨happ, hlook⟩ := h.answered a (hansw ▸ ha)
    exact ⟨happ, (hkept a.1 happ).trans hlook⟩
  · rw [hansw]
    exact h.recorded k ((mem_iff_of_lookup_eq (hkept k happ)).mp hk) happ
  · obtain ⟨w, hw, hmode⟩ := bind_eq_some_iff.mp hk
    obtain ⟨happ, hnot⟩ := h.waiting k (bind_eq_some_iff.mpr ⟨w, hgrow.pending w hw, hmode⟩)
    exact ⟨happ, fun hmem => hnot ((mem_iff_of_lookup_eq (hkept k happ)).mp hmem)⟩

lemma pendingOf_keyed {e w} (hkeyed : Keyed isApproval out) (hw : pendingOf e out = some w) :
    (w.mode = .approval → w.firstKey ∈ out.keys ∧ isApproval w.firstKey = true) ∧
    (w.mode = .sleep → isApproval w.firstKey = false) ∧ ∀ k ∈ w.jobIds, isApproval k = false := by
  have hids := (keys_pendingOf hw).2
  cases out with
  | complete | inlineCheckpoint => cases hw
  | dispatch mode steps =>
    obtain ⟨⟨text, rfl⟩, hsteps⟩ := hkeyed
    cases hw
    refine ⟨nofun, nofun, fun k hk => ?_⟩
    obtain ⟨s, hs, rfl⟩ := mem_map.mp (hids k hk)
    exact hsteps s hs
  | approval key timeout sad =>
    cases hw
    exact ⟨fun _ => ⟨mem_cons_self, hkeyed⟩, nofun, fun k hk =>
      absurd hk (AList.notMem_empty k)⟩
  | sleep key seconds =>
    cases hw
    exact ⟨nofun, fun _ => hkeyed, fun k hk => absurd hk (AList.notMem_empty k)⟩

lemma records_keyed (hkeyed : Keyed isApproval out) (hk : records out = some k) :
    isApproval k = false := by
  cases out with
  | inlineCheckpoint key result =>
    cases hk
    exact hkeyed
  | complete | dispatch | approval | sleep => cases hk

lemma mode_of_pendingApproval (h : pendingApproval cp = some k) :
    ∃ w, cp.pendingSteps = some w ∧ w.mode = .approval ∧ k = w.firstKey := by
  obtain ⟨w, hw, hmode⟩ := bind_eq_some_iff.mp h
  refine ⟨w, hw, ?_⟩
  cases hm : w.mode with
  | approval =>
    rw [hm] at hmode
    exact ⟨rfl, (some.inj hmode).symm⟩
  | sleep | named text => simp [hm] at hmode

lemma Answers.output {e : Execution} (h : Answers keyHash isApproval j p)
    (hW : IsWorkflow isApproval p (.output e out)) : Answers keyHash isApproval j
    (output j e out p) := by
  obtain ⟨hfresh, hkeyed⟩ := hW
  unfold Machine.output
  cases hr : handleWacV2Output j e out p.rows with
  | error err => exact h
  | ok rows =>
    have hacc := accepted_of_ok hr
    have hkept : ∀ k, isApproval k = true →
        (loadCheckpoint rows).completedSteps.lookup k = (completedOf p).lookup k := by
      intro k hk
      refine hacc.kept k fun hrec => ?_
      simp [records_keyed hkeyed hrec] at hk
    refine
      { distinct := h.distinct
        rowIds := h.rowIds
        answered := fun a ha => ?_
        recorded := fun k hk happ => h.recorded k ((mem_iff_of_lookup_eq (hkept k happ)).mp hk) happ
        waiting := fun k hk => ?_
        sleeping := fun w hw hm => ?_
        children := fun w hw => ?_
        reports := h.reports }
    · obtain ⟨happ, hlook⟩ := h.answered a ha
      exact ⟨happ, (hkept a.1 happ).trans hlook⟩
    · obtain ⟨w, hw, hm, rfl⟩ := mode_of_pendingApproval hk
      have hboth : isApproval w.firstKey = true ∧ w.firstKey ∉ completedOf p := by
        rcases hacc.pending w hw with hold | hnew
        · refine h.waiting _ (bind_eq_some_iff.mpr ⟨w, hold, ?_⟩)
          rw [hm]
        · obtain ⟨hkey, happ⟩ := (pendingOf_keyed hkeyed hnew).1 hm
          exact ⟨happ, hfresh _ hkey⟩
      exact ⟨hboth.1, fun hmem => hboth.2 ((mem_iff_of_lookup_eq (hkept _ hboth.1)).mp hmem)⟩
    · rcases hacc.pending w hw with hold | hnew
      · exact h.sleeping w hold hm
      · exact (pendingOf_keyed hkeyed hnew).2.1 hm
    · rcases hacc.pending w hw with hold | hnew
      · exact h.children w hold
      · exact (pendingOf_keyed hkeyed hnew).2.2

lemma Answers.submits {req} (h : Answers keyHash isApproval j p) :
    Answers keyHash isApproval j (resumeSuspendedJob j req p) := by
  unfold resumeSuspendedJob
  split_ifs with hgone hsent
  · exact h
  · exact h
  refine ⟨?_, fun row hrow => ?_, h.answered, h.recorded, h.waiting, h.sleeping, h.children,
    h.reports⟩
  · rw [map_append, nodup_append]
    refine ⟨h.distinct, nodup_singleton _, fun a ha b hb heq => hsent ?_⟩
    obtain ⟨row, hrow, rfl⟩ := mem_map.mp ha
    have hid : row.resumeId = req.resumeId := heq.trans (mem_singleton.mp hb)
    refine any_eq_true.mpr ⟨row, hrow, beq_iff_eq.mpr ?_⟩
    rw [h.rowIds row hrow, hid]
  · rcases mem_append.mp hrow with hold | hone
    · exact h.rowIds row hold
    · rw [mem_singleton.mp hone]

lemma prepareCheckpointForResume_approval {resumeRows} (h : pendingApproval cp = some k) :
    prepareCheckpointForResume resumeRows cp = { cp with
        completedSteps := cp.completedSteps.insert k (approvalResult (firstResume resumeRows))
        pendingSteps := none } := by
  obtain ⟨w, hw, hm, rfl⟩ := mode_of_pendingApproval h
  unfold prepareCheckpointForResume
  rw [hw]
  dsimp only
  rw [hm]

lemma Answers.prepares_other (h : Answers keyHash isApproval j p)
    (hk : pendingApproval (loadCheckpoint p.rows) = none) : Answers keyHash isApproval j
    (prepare p) := by
  have hansw : (prepare p).answered = p.answered := by
    simp only [prepare, hk, map_none, toList_none, append_nil]
  refine h.grows rfl hansw (fun _ hr => hr) (loadCheckpoint_prepare p ▸ grows_prepare)
    fun k hall => ?_
  obtain ⟨w, hw, hnamed, rfl⟩ := hall
  refine h.sleeping w hw ?_
  cases hm : w.mode with
  | approval => simp [pendingApproval, hw, hm] at hk
  | sleep => rfl
  | named text => exact absurd hm (hnamed text)

lemma Answers.prepares_approval (h : Answers keyHash isApproval j p)
    (hF : FirstIsOwn keyHash p .prepares) (hk : pendingApproval (loadCheckpoint p.rows) = some k) :
    Answers keyHash isApproval j (prepare p) := by
  obtain ⟨happ, hnot⟩ := h.waiting k hk
  have hload : loadCheckpoint (prepare p).rows = _ :=
    (loadCheckpoint_prepare p).trans (prepareCheckpointForResume_approval hk)
  have hown : firstResume p.resumeRows = ownDecision keyHash k p.resumeRows :=
    firstResume_eq_ownDecision keyHash h.distinct (hF k hk)
  have hcomp : completedOf (prepare p) =
      (completedOf p).insert k (approvalResult (ownDecision keyHash k p.resumeRows)) := by
    rw [completedOf, hload, hown]
    rfl
  have hpend : (loadCheckpoint (prepare p).rows).pendingSteps = none := by rw [hload]
  have hansw : (prepare p).answered = p.answered ++ [(k, p.resumeRows)] := by
    simp only [prepare, hk, map_some, toList_some]
  refine
    { distinct := h.distinct
      rowIds := h.rowIds
      answered := fun a ha => ?_
      recorded := fun k' hk' happ' => ?_
      waiting := fun k' hk' => ?_
      sleeping := fun w hw => ?_
      children := fun w hw => ?_
      reports := h.reports }
  · rw [hcomp]
    rw [hansw] at ha
    rcases mem_append.mp ha with hold | hone
    · obtain ⟨happ', hlook⟩ := h.answered a hold
      have hne : a.1 ≠ k := by
        rintro rfl
        exact hnot (AList.lookup_isSome.mp (by rw [hlook]; rfl))
      exact ⟨happ', by rw [AList.lookup_insert_ne hne, hlook]⟩
    · rw [mem_singleton.mp hone]
      exact ⟨happ, AList.lookup_insert _⟩
  · rw [hansw, map_append]
    rw [hcomp] at hk'
    rcases (AList.mem_insert _).mp hk' with rfl | hold
    · exact mem_append_right _ mem_cons_self
    · exact mem_append_left _ (h.recorded k' hold happ')
  · obtain ⟨w, hw, -⟩ := mode_of_pendingApproval hk'
    simp [hpend] at hw
  · simp [hpend] at hw
  · simp [hpend] at hw

lemma Answers.step {a} (h : Answers keyHash isApproval j p)
    (hC : IsWorkflow isApproval p a ∧ FirstIsOwn keyHash p a) (hs : step j p a = some p') :
    Answers keyHash isApproval j p' := by
  cases a with
  | output e out =>
    obtain ⟨-, rfl⟩ := of_step_output hs
    exact h.output hC.1
  | completes c ok v =>
    rw [Machine.step] at hs
    split_ifs at hs
    cases hs
    refine ⟨h.distinct, h.rowIds, h.answered, h.recorded, h.waiting, h.sleeping, h.children, ?_⟩
    intro r hr ids hids
    rcases mem_append.mp hr with hold | hone
    · exact h.reports r hold ids hids
    · rw [mem_singleton.mp hone] at hids
      dsimp only at hids
      rw [pendingSteps_load] at hids
      obtain ⟨w, hw, rfl⟩ := map_eq_some_iff.mp hids
      exact h.children w hw
  | handles c =>
    obtain ⟨r, l₁, l₂, -, hsplit, rfl⟩ := step_handles hs
    have hmem : r ∈ p.reports := hsplit ▸ mem_append_right _ mem_cons_self
    refine h.grows rfl rfl (fun r' hr' => ?_) grows_completion fun k hk => ?_
    · rw [hsplit]
      exact mem_of_mem_append_erased hr'
    · obtain ⟨ids, hids, hk⟩ := hk
      exact h.reports r hmem ids hids k hk
  | submits req =>
    cases hs
    exact h.submits
  | pulls now =>
    obtain ⟨q, -, rfl⟩ := map_eq_some_iff.mp hs
    exact ⟨h.distinct, h.rowIds, h.answered, h.recorded, h.waiting, h.sleeping, h.children,
      h.reports⟩
  | prepares =>
    obtain rfl := step_prepares hs
    cases hk : pendingApproval (loadCheckpoint p.rows) with
    | none => exact h.prepares_other hk
    | some k => exact h.prepares_approval hC.2 hk

/-- **In every run of a workflow in which each resume finds the row of the pending approval first,
every approval step is answered by its own decision**: recorded is the value of the row with its
resume id, or a refusal if there was none. -/
theorem approvals_answer_own_step {as : List Action} {t : Parent}
    (hC : Meets (Machine.step j) (fun p a => IsWorkflow isApproval p a ∧ FirstIsOwn keyHash p a)
    as Parent.start)
    (hrun : run (Machine.step j) as Parent.start = some t) {k : String} (happ : isApproval k = true)
    {v : Json}
    (hv : (completedOf t).lookup k = some v) : ∃ rows, (k, rows) ∈ t.answered ∧ v = approvalResult
    (ownDecision keyHash k rows) := by
  have hinit : Answers keyHash isApproval j Parent.start :=
    { distinct := nodup_nil
      rowIds := nofun
      answered := nofun
      recorded := fun k hk => absurd hk (AList.notMem_empty k)
      waiting := nofun
      sleeping := nofun
      children := nofun
      reports := fun r hr => by cases hr }
  have h : Answers keyHash isApproval j t :=
    run_invariant (fun h hC hs => h.step hC hs) hinit hC hrun
  have hmem : k ∈ completedOf t := AList.lookup_isSome.mp (by rw [hv]; rfl)
  obtain ⟨⟨k', rows⟩, ha, rfl⟩ := mem_map.mp (h.recorded k hmem happ)
  refine ⟨rows, ha, ?_⟩
  have hlook := (h.answered _ ha).2
  rw [hv] at hlook
  exact some.inj hlook

def lengthHash (key : String) : BitVec 64 := BitVec.ofNat 64 key.length

def approvalRound (key : String) (decision : ResumeRequest) : List Action :=
  [.output { runnableId := some 7 } (.approval key none none), .submits decision, .pulls 0,
    .prepares]

def firstApproved : ResumeRequest :=
  { resumeId := resumeIdOf lengthHash "approval", value := .str "ship it", approver := some "lead"
    approved := true, createdAt := 1 }

def secondRefused : ResumeRequest :=
  { resumeId := resumeIdOf lengthHash "approval_2", value := .str "not yet"
    approver := some "auditor"
    approved := false, createdAt := 2 }

def approvedByLead : Json :=
  .obj [("value", .str "ship it"), ("approver", .str "lead"), ("approved", .bool true)]

theorem one_approval_answered :
    ∃ t, run (Machine.step { id := 9 })
    (approvalRound "approval" firstApproved) Parent.start = some t ∧
      ∃ rows, ("approval", rows) ∈ t.answered ∧
        approvedByLead = approvalResult (ownDecision lengthHash "approval" rows) := by
  have hout : IsWorkflow (fun _ => true) Parent.start
      (.output { runnableId := some 7 } (.approval "approval" none none)) :=
    ⟨fun k _ => AList.notMem_empty k, rfl⟩
  have hC : Meets (Machine.step { id := 9 })
      (fun p a => IsWorkflow (fun _ => true) p a ∧ FirstIsOwn lengthHash p a)
      (approvalRound "approval" firstApproved) Parent.start := by
    refine meets_cons ⟨hout, trivial⟩ rfl (meets_cons ⟨trivial, trivial⟩ rfl
      (meets_cons ⟨trivial, trivial⟩ rfl
        (meets_cons ⟨trivial, fun k hk row hrow => .inl ?_⟩ rfl trivial)))
    cases hk
    rw [mem_singleton.mp hrow]
    rfl
  exact ⟨_, rfl, approvals_answer_own_step hC rfl rfl rfl⟩

/-- The second approval step is refused, and the workflow is told that it was approved: the row of
the first step is older. -/
theorem second_approval_gets_first_decision : ∃ t, run (Machine.step { id := 9 })
        (approvalRound "approval" firstApproved ++ approvalRound "approval_2" secondRefused)
        Parent.start = some t ∧
      (completedOf t).lookup "approval_2" = some approvedByLead ∧
      ∃ rows own, ("approval_2", rows) ∈ t.answered ∧
        ownDecision lengthHash "approval_2" rows = some own ∧ own.approved = false :=
  ⟨_, rfl, rfl, _, _, mem_cons_of_mem _ mem_cons_self, rfl, rfl⟩

end Windmill.Wac.Approvals
