import Windmill.Flow.Run

/-! # Sequential loops stop at a failed iteration

`NoIterationAfterFailure` says that an iteration which was reported as failed is the last one of its
execution. The handler keeps it for for-loops; the guard of a while-loop goes on after a failure as
well, so there it depends on whether anything else lets the flow go on (`StopsOnFailure`). -/

namespace Windmill.Flow.Iterations

open Value Status Reads Completion Flow.Suspend Transform Push Chain Places Run Lib.Run Lib.Except
  List Option

def isSequentialLoop (m : FlowModule) : Bool :=
  match m.value with
  | .forloopFlow _ _ _ _ parallel _ => !parallel.getD false
  | .whileloopFlow _ _ _ => true
  | _ => false

def skipsFailures (m : FlowModule) : Bool :=
  match m.value with
  | .forloopFlow _ _ _ skipFailures _ _ => skipFailures.getD false
  | .whileloopFlow _ _ skipFailures => skipFailures.getD false
  | _ => false

/-- The module at the place is a sequential loop that does not skip failures. -/
def SequentialLoop (flow : FlowValue) (ℓ : Place) : Prop :=
  ∃ m, flowModuleAt flow ℓ = some m ∧ isSequentialLoop m = true ∧ skipsFailures m = false

def iterations (p : InProgress) : List Uuid := p.flowJobs.getD []

def Failed (reports : List (ℤ × Report)) (job : Uuid) : Prop :=
  ∃ x ∈ reports, x.2.jobIdForStatus = job ∧ x.2.success = false

def OnLoops (flow : FlowValue) (status : FlowStatus) (P : Place → InProgress → Prop) : Prop :=
  ∀ ⦃ℓ : Place⦄ ⦃p : InProgress⦄, SequentialLoop flow ℓ →
    statusAt status ℓ = some (.inProgress p) → P ℓ p

/-- No running execution has an iteration after one that was reported as failed. -/
def NoIterationAfterFailure (flow : FlowValue) (s : RunState) : Prop :=
  OnLoops flow s.db.status fun _ p => ∀ job ∈ (iterations p).dropLast, ¬ Failed s.reports job

/-! ### When the flow does not go on -/

/-- Nothing lets the flow go on if the report is a failure: it is unrecoverable, the flow is
canceled, or the module neither continues on error nor is retried, and no failure module is to be
run. -/
def StopsOnFailure (w : World) (flow : FlowValue) (old : FlowStatus) (r : Report) : Prop :=
  r.unrecoverable = true ∨ w.flowJob.isCanceled = true ∨
    (∀ m, currentModule flow old = some m → m.continuesOnError = false) ∧
      shouldRetry w flow old (enteringReport flow old r) ≠ .ok true ∧
      (flow.failureModule = none ∨ isFailureStep old = true ∨
        (enteringReport flow old r).hasTriggeredErrorHandler = true)

/-- A failed iteration of a while-loop comes only when nothing lets the flow go on. -/
def WhileFailureStops (w : World) (flow : FlowValue) (old : FlowStatus) (r : Report) : Prop :=
  ∀ ⦃p : InProgress⦄, moduleStatus old = .ok (.inProgress p) →
    SequentialLoop flow (placeOf old.moduleStep) → p.whileLoop = true → r.success = false →
    StopsOnFailure w flow old r

@[simp] lemma enteringReport_unrecoverable (flow : FlowValue) (old : FlowStatus) (r : Report) :
    (enteringReport flow old r).unrecoverable = r.unrecoverable := by
  unfold enteringReport
  split_ifs <;> rfl

variable {p p' : InProgress} {early : EarlyStop} {m : FlowStatusModule} {s : RunState}
  {s' status old status' : FlowStatus}
  {start : Start} {flow : FlowValue} {r : Report} {w : World} {reports : List (ℤ × Report)}
  {lastResult : Option Json} {ℓ : Place} {flowEnv : Option Args}

section

variable (hloop : SequentialLoop flow (placeOf old.moduleStep))
include hloop

lemma not_skipsFailure (hbr : p.branchall.isSome = false) :
    (loopInfo (currentModule flow old) (.inProgress p)).skipLoopFailures = false ∧
      skipsFailure (currentModule flow old) (.inProgress p) = false := by
  have hval : ∀ m, currentModule flow old = some m →
      ((m.getValueWithSkipFailures.toOption).bind Prod.fst).getD false = false := by
    obtain ⟨m, hm, -, hskip⟩ := hloop
    intro m' hm'
    unfold currentModule at hm'
    cases hstep : old.moduleStep with
    | step i n =>
      rw [hstep] at hm hm'
      cases some.inj (hm.symm.trans hm')
      unfold skipsFailures at hskip
      unfold FlowModule.getValueWithSkipFailures
      cases hv : m.value <;> rw [hv] at hskip <;> exact hskip
    | _ => rw [hstep] at hm'; cases hm'
  have hskip : (loopInfo (currentModule flow old) (.inProgress p)).skipLoopFailures = false := by
    unfold loopInfo
    dsimp only
    split_ifs
    · cases hm : currentModule flow old with
      | none => rfl
      | some m => exact hval m hm
    · rfl
  have hnone : p.branchall = none := by simpa using hbr
  simp [skipsFailure, hskip, skipSeqBranchFailure, hnone]

lemma whileLoop_of_goesOn {q} (hbr : p.branchall.isSome = false) (hfail : r.success = false)
    (h : stepCase flow old (.inProgress p) r early = .goesOn q) : p.whileLoop = true := by
  obtain ⟨hpq, -, hguard⟩ := stepCase_goesOn h
  cases hpq
  rcases hguard with hguard | hguard
  · unfold loopGoesOn at hguard
    rw [(not_skipsFailure hloop hbr).1, hfail] at hguard
    cases hi : p.iterator with
    | none => rw [hi] at hguard; cases hguard
    | some it => rw [hi] at hguard; simpa using (Bool.and_eq_true_iff.mp hguard).1
  · have hnone : p.branchall = none := by simpa using hbr
    rw [branchallGoesOn, hnone] at hguard
    cases hguard

lemma not_shouldContinueFlow {t} (hbr : p.branchall.isSome = false)
    (hst : moduleStatus old = .ok (.inProgress p))
    (hearly : earlyStop w flow old (.inProgress p) (enteringReport flow old r) = .ok early)
    (hte : t.early = early) (hstop : early.stopEarly = false) (hfail : t.success = false)
    (hflag : t.hasTriggeredErrorHandler = (enteringReport flow old r).hasTriggeredErrorHandler)
    (h : StopsOnFailure w flow old r) : shouldContinueFlow w flow old
    (enteringReport flow old r) t ≠ .ok true := by
  unfold shouldContinueFlow
  simp only [hst, hte, hstop, hfail, enteringReport_unrecoverable,
    (not_skipsFailure hloop hbr).2, Bool.false_or, Bool.false_eq_true, if_false]
  by_cases hcan : w.flowJob.isCanceled = true
  · rw [if_pos hcan]
    nofun
  by_cases hun : r.unrecoverable = true
  · rw [if_neg hcan, if_pos hun]
    nofun
  obtain ⟨hcont, hretry, hhand⟩ := (h.resolve_left hun).resolve_left hcan
  have hno : early.continueOnError ≠ true := fun hc => by
    obtain ⟨m, hm, hm'⟩ := (earlyStop_ok hearly).2.1 hc
    rw [hcont m hm] at hm'
    cases hm'
  rw [if_neg hcan, if_neg hun, if_neg hno]
  cases hr : shouldRetry w flow old (enteringReport flow old r) with
  | error e => nofun
  | ok retry =>
    cases retry with
    | true => exact absurd hr hretry
    | false =>
      intro h
      have h' := pure_eq_ok.mp h
      simp only [Bool.false_or, Bool.and_eq_true, Bool.not_eq_true', hflag] at h'
      rcases hhand with hn | hn | hn <;> simp [hn] at h'

end

/-! ### The invariant -/

/-- What is always so at a sequential loop: it keeps the jobs of one iteration after the other, and
none of them has the id that stands for no job. -/
structure SequentialStatus (p : InProgress) : Prop where
  parallel : p.parallel = false
  branchall : p.branchall.isSome = false
  notNil : nilUuid ∉ iterations p

/-- A report about the job comes on time: the job is not an iteration that another one has followed,
and if it is an iteration, then of the loop under the step counter. -/
def OnTime (flow : FlowValue) (status : FlowStatus) (job : Uuid) : Prop :=
  OnLoops flow status fun ℓ p => job ∉ (iterations p).dropLast ∧
    (job ∈ iterations p → ℓ = placeOf status.moduleStep)

/-- Where the worker stands. While the flow goes on no iteration of a running loop has failed; after
an error of the handler the job of its report may have. -/
def Ready (flow : FlowValue) (s : RunState) : Prop :=
  match s.ctrl with
  | .finished => True
  | .retrying r _ => r.success = false ∧ OnTime flow s.db.status r.jobIdForStatus ∧
      OnLoops flow s.db.status fun _ p => ∀ job ∈ iterations p, Failed s.reports job →
      job = r.jobIdForStatus
  | _ => OnLoops flow s.db.status fun _ p => ∀ job ∈ iterations p, ¬ Failed s.reports job

structure LoopInv (flow : FlowValue) (s : RunState) : Prop where
  shape : Shape flow s.db.status
  sequential : OnLoops flow s.db.status fun _ p => SequentialStatus p
  clean : NoIterationAfterFailure flow s
  ready : Ready flow s

/-! ### Statuses that keep the running loops -/

def isRunning : FlowStatusModule → Bool
  | .inProgress _ => true
  | _ => false

def KeepsRunning (s s' : FlowStatus) : Prop :=
  ∀ ⦃ℓ : Place⦄ ⦃p' : InProgress⦄, statusAt s' ℓ = some (.inProgress p') →
    ∃ p, statusAt s ℓ = some (.inProgress p) ∧ SameWork (.inProgress p) (.inProgress p')

lemma running_of_sameWork (h : SameWork m (.inProgress p')) : ∃ p, m = .inProgress p := by
  cases h with
  | refl => exact ⟨p', rfl⟩
  | inProgress => exact ⟨_, rfl⟩

lemma keepsRunning_of_keeps {s} (h : Keeps s s') : KeepsRunning s s' := by
  intro ℓ p' hp'
  obtain ⟨m, hm, hsame⟩ := h hp'
  obtain ⟨p, rfl⟩ := running_of_sameWork hsame
  exact ⟨p, hm, hsame⟩

lemma keepsRunning_of_tracks {s} (h : Tracks s s') : KeepsRunning s s' :=
  keepsRunning_of_keeps (keeps_of_tracks h)

lemma keepsRunning_of_writes {s} (h : Writes s s' ℓ m) (hm : isRunning m = false) :
    KeepsRunning s s' := by
  intro ℓ' p' hp'
  have hne : ℓ' ≠ ℓ := fun he => by
    rw [he, h.here] at hp'
    cases some.inj hp'
    cases hm
  obtain ⟨m₀, hm₀, hsame⟩ := h.elsewhere hne hp'
  obtain ⟨p, rfl⟩ := running_of_sameWork hsame
  exact ⟨p, hm₀, hsame⟩

lemma KeepsRunning.trans {s₁ s₂ s₃} (h : KeepsRunning s₁ s₂) (h' : KeepsRunning s₂ s₃) :
    KeepsRunning s₁ s₃ := by
  intro ℓ p' hp'
  obtain ⟨p, hp, hsame⟩ := h' hp'
  obtain ⟨p₀, hp₀, hsame'⟩ := h hp
  exact ⟨p₀, hp₀, hsame'.trans hsame⟩

lemma iterations_of_sameWork (h : SameWork (.inProgress p) (.inProgress p')) :
    iterations p' = iterations p := by
  cases h with
  | refl => rfl
  | inProgress hjobs => unfold iterations; rw [hjobs]

lemma sequentialStatus_of_sameWork
    (h : SameWork (.inProgress p) (.inProgress p')) (hp : SequentialStatus p) :
    SequentialStatus p' := by
  have hiter := iterations_of_sameWork h
  cases h with
  | refl => exact hp
  | inProgress _ _ hbr hpar _ =>
    exact ⟨hpar.trans hp.parallel, hbr.trans hp.branchall, hiter ▸ hp.notNil⟩

lemma KeepsRunning.onLoops {flow s s'} {P : Place → List Uuid → Prop} (h : KeepsRunning s s')
    (hs : OnLoops flow s fun ℓ p => P ℓ (iterations p)) :
    OnLoops flow s' fun ℓ p => P ℓ (iterations p) := by
  intro ℓ p' hloop hp'
  obtain ⟨p, hp, hsame⟩ := h hp'
  exact (iterations_of_sameWork hsame).symm ▸ hs hloop hp

lemma KeepsRunning.sequential {s} (h : KeepsRunning s s')
    (hs : OnLoops flow s fun _ p => SequentialStatus p) :
    OnLoops flow s' fun _ p => SequentialStatus p := by
  intro ℓ p' hloop hp'
  obtain ⟨p, hp, hsame⟩ := h hp'
  exact sequentialStatus_of_sameWork hsame (hs hloop hp)

/-! ### Reports -/

lemma failed_append {k : ℤ} {job : Uuid} : Failed (reports ++ [(k, r)]) job ↔
      Failed reports job ∨ r.jobIdForStatus = job ∧ r.success = false := by
  simp [Failed, or_and_right, exists_or]

/-- What is known when a report is about to be handled: only its own job may have been reported as
failed before, by a handler that did not get through. -/
structure Before (flow : FlowValue) (status : FlowStatus) (reports : List (ℤ × Report))
  (r : Report) :
    Prop where
  shape : Shape flow status
  sequential : OnLoops flow status fun _ p => SequentialStatus p
  clean : OnLoops flow status fun _ p => ∀ job ∈ (iterations p).dropLast, ¬ Failed reports job
  onTime : OnTime flow status r.jobIdForStatus
  only : OnLoops flow status fun _ p =>
    ∀ job ∈ iterations p, Failed reports job → job = r.jobIdForStatus ∧ r.success = false

section Handled

variable {k : ℤ}

/-- A job that is handled again was reported before, and has failed. -/
def RetriesSame (s : RunState) (r : Report) : Prop :=
  ∀ r' n, s.ctrl = .retrying r' n → r'.jobIdForStatus = r.jobIdForStatus ∧ r'.success = false

section

variable (h : Before flow status reports r)
include h

lemma Before.under_counter (hold : Tracks old status)
    (hkeeps : KeepsRunning status status') (hloop : SequentialLoop flow ℓ)
    (hp : statusAt status' ℓ = some (.inProgress p)) (hmem : r.jobIdForStatus ∈ iterations p) :
    SequentialLoop flow (placeOf old.moduleStep) ∧
      ∃ p₀, statusAt status (placeOf old.moduleStep) = some (.inProgress p₀) ∧
        SameWork (.inProgress p₀) (.inProgress p) := by
  obtain ⟨p₀, hp₀, hsame⟩ := hkeeps hp
  have hℓ := (h.onTime hloop hp₀).2 (iterations_of_sameWork hsame ▸ hmem)
  rw [hℓ, moduleStep_of_tracks hold] at hloop hp₀
  exact ⟨hloop, p₀, hp₀, hsame⟩

lemma Before.clean_after (hkeeps : KeepsRunning status status') : OnLoops flow status' fun _ p =>
      ∀ job ∈ (iterations p).dropLast, ¬ Failed (reports ++ [(k, r)]) job := by
  refine @KeepsRunning.onLoops flow status status' (fun _ jobs => ∀ job ∈ jobs.dropLast,
    ¬ Failed (reports ++ [(k, r)]) job) hkeeps fun ℓ p hloop hp job hjob hfail => ?_
  rcases failed_append.mp hfail with hf | ⟨rfl, -⟩
  · exact h.clean hloop hp job hjob hf
  · exact (h.onTime hloop hp).1 hjob

lemma Before.only_after (hkeeps : KeepsRunning status status') : OnLoops flow status' fun _ p =>
    ∀ job ∈ iterations p,
      Failed (reports ++ [(k, r)]) job → job = r.jobIdForStatus ∧ r.success = false := by
  refine @KeepsRunning.onLoops flow status status' (fun _ jobs => ∀ job ∈ jobs,
    Failed (reports ++ [(k, r)]) job → job = r.jobIdForStatus ∧ r.success = false) hkeeps
    fun ℓ p hloop hp job hjob hfail => ?_
  rcases failed_append.mp hfail with hf | ⟨he, hf⟩
  · exact h.only hloop hp job hjob hf
  · exact ⟨he.symm, hf⟩

lemma Before.ready_of_notMem (hkeeps : KeepsRunning status s.db.status)
    (hno : OnLoops flow s.db.status fun _ p => r.jobIdForStatus ∉ iterations p)
    (hrep : s.reports = reports ++ [(k, r)]) (hretry : RetriesSame s r) : Ready flow s := by
  have hnone : OnLoops flow s.db.status fun _ p => ∀ job ∈ iterations p,
      ¬ Failed s.reports job := by
    intro ℓ p hloop hp job hjob hfail
    rw [hrep] at hfail
    obtain ⟨rfl, -⟩ := h.only_after hkeeps hloop hp job hjob hfail
    exact hno hloop hp hjob
  unfold Ready
  cases hctrl : s.ctrl with
  | finished => trivial
  | retrying r' n =>
    obtain ⟨hjob, hfail⟩ := hretry r' n hctrl
    refine ⟨hfail, fun ℓ p hloop hp => ?_, fun ℓ p hloop hp job hmem hf =>
      absurd hf (hnone hloop hp job hmem)⟩
    rw [hjob]
    exact ⟨fun hmem => hno hloop hp (mem_of_mem_dropLast hmem), fun hmem =>
      absurd hmem (hno hloop hp)⟩
  | _ => exact hnone

lemma Before.ready_of_error {e : Error} {tries : ℕ} (hkeeps : KeepsRunning status s.db.status)
    (hplace : placeOf s.db.status.moduleStep = placeOf status.moduleStep)
    (hrep : s.reports = reports ++ [(k, r)]) (hctrl : s.ctrl = afterError r e tries) :
    Ready flow s := by
  unfold Ready
  cases hc : s.ctrl with
  | finished => trivial
  | retrying r' n =>
    obtain ⟨hjob, hfail⟩ := afterError_retrying (hctrl.symm.trans hc)
    refine ⟨hfail, ?_, fun ℓ p hloop hp job hmem hf => ?_⟩
    · unfold OnTime
      rw [hjob, hplace]
      exact @KeepsRunning.onLoops flow status s.db.status (fun ℓ jobs =>
        r.jobIdForStatus ∉ jobs.dropLast ∧
          (r.jobIdForStatus ∈ jobs → ℓ = placeOf status.moduleStep)) hkeeps h.onTime
    · rw [hrep] at hf
      rw [hjob]
      exact (h.only_after hkeeps hloop hp job hmem hf).1
  | _ =>
    rw [hctrl] at hc
    unfold afterError at hc
    split at hc <;> cases hc

lemma Before.finish (hshape : Shape flow s.db.status)
    (hkeeps : KeepsRunning status s.db.status) (hrep : s.reports = reports ++ [(k, r)])
    (hready : Ready flow s) : LoopInv flow s := by
  refine ⟨hshape, hkeeps.sequential h.sequential, ?_, hready⟩
  unfold NoIterationAfterFailure
  rw [hrep]
  exact h.clean_after hkeeps

lemma Before.ended (hold : Tracks old status) (hshape : Shape flow s.db.status)
    (hwr : Writes status s.db.status (placeOf old.moduleStep) m) (hm : isRunning m = false)
    (hrep : s.reports = reports ++ [(k, r)]) (hretry : RetriesSame s r) : LoopInv flow s := by
  have hkeeps := keepsRunning_of_writes hwr hm
  refine h.finish hshape hkeeps hrep (h.ready_of_notMem hkeeps ?_ hrep hretry)
  intro ℓ p hloop hp hmem
  obtain ⟨p₀, hp₀, hsame⟩ := hkeeps hp
  rw [iterations_of_sameWork hsame] at hmem
  rw [(h.onTime hloop hp₀).2 hmem, moduleStep_of_tracks hold, hwr.here] at hp
  cases some.inj hp
  cases hm

end

lemma Before.committed {c} (hne : flow.modules ≠ []) (h : Before flow status reports r)
    (hold : Tracks old status) (hwh : WhileFailureStops w flow old r)
    (hup : updateStatus w flow old status r = .ok (.committed c)) (hst : s.db.status = c.status)
    (hrep : s.reports = reports ++ [(k, r)]) (hretry : RetriesSame s r)
    (hgoesOn : c.transition.success = r.success → Tracks status s.db.status →
      (r.success = false → SequentialLoop flow (placeOf old.moduleStep) →
        shouldContinueFlow w flow old (enteringReport flow old r) c.transition ≠ .ok true) →
      Ready flow s) : LoopInv flow s := by
  have hshape : Shape flow s.db.status := hst ▸ h.shape.commit (hold.step ▸ h.shape.step) hup
  cases updateStatus_commits hne h.shape hold hup with
  | @goesOn p _ hm hearly hcase hte hsucc hflag htr =>
    rw [← hst] at htr
    refine h.finish hshape (keepsRunning_of_tracks htr) hrep
      (hgoesOn hsucc htr fun hfail hloop => ?_)
    -- a loop that goes on after a failure does not let the flow go on
    have hbr : p.branchall.isSome = false := by
      obtain ⟨m', hm', hsame⟩ := statusAt_of_tracks hold (statusAt_of_moduleStatus hm)
      cases hsame with
      | refl => exact (h.sequential hloop hm').branchall
      | inProgress _ _ hb _ _ => exact hb.symm.trans (h.sequential hloop hm').branchall
    obtain ⟨-, hstop, -⟩ := stepCase_goesOn hcase
    have hw := whileLoop_of_goesOn hloop hbr (by simpa using hfail) hcase
    exact not_shouldContinueFlow hloop hbr hm hearly hte hstop (hsucc.trans hfail) hflag
      (hwh hm hloop hw hfail)
  | ok hwr _ _ _ _ _ | failed hwr _ _ _ _ _ _ =>
    exact h.ended hold hshape (hst ▸ hwr) rfl hrep hretry

/-- **A report keeps the invariant**, whatever the handler makes of it. -/
theorem loopInv_reported {tries : ℕ} (hne : flow.modules ≠ [])
    (h : Before flow s.db.status s.reports r) (hold : Tracks old s.db.status)
    (hwh : WhileFailureStops w flow old r) : LoopInv flow (reported w flow old r tries s) := by
  have hhandle := handleReport_handles w flow old r tries s.db
  unfold reported
  generalize handleReport w flow old r tries s.db = res at hhandle ⊢
  obtain ⟨db', ctrl⟩ := res
  have hshape := h.shape.handles hold hhandle
  cases hhandle with
  | rolledBack e =>
    have hkeeps := keepsRunning_of_tracks (Tracks.refl s.db.status)
    exact h.finish hshape hkeeps rfl (h.ready_of_error hkeeps rfl rfl rfl)
  | counted hup =>
    -- the module under the step counter is parallel: the job is no iteration of a sequential loop
    obtain ⟨htr, p, hp, hpar⟩ := updateStatus_nonLastParallelBranch hup
    have hkeeps := keepsRunning_of_tracks htr
    refine h.finish hshape hkeeps rfl (h.ready_of_notMem hkeeps ?_ rfl fun _ _ hr => by cases hr)
    intro ℓ p' hloop hp' hmem
    obtain ⟨hloop, p₀, hp₀, -⟩ := h.under_counter hold hkeeps hloop hp' hmem
    obtain ⟨m, hm, hsame'⟩ := statusAt_of_tracks hold (statusAt_of_moduleStatus hp)
    cases hp₀.symm.trans hm
    have hseq := (h.sequential hloop hp₀).parallel
    cases hsame' with
    | refl => rw [hpar] at hseq; cases hseq
    | inProgress _ _ _ hpar' _ => rw [hpar', hpar] at hseq; cases hseq
  | preprocessed hup _ hok =>
    refine h.committed hne hold hwh hup rfl rfl (fun _ _ hr => by cases hr) fun hsucc htr _ => ?_
    intro ℓ p hloop hp job hjob hfailed
    have := (h.only_after (keepsRunning_of_tracks htr) hloop hp job hjob hfailed).2
    rw [← hsucc, hok] at this
    cases this
  | stuck hup e _ =>
    refine h.committed hne hold hwh hup rfl rfl (fun r' n hr => afterError_retrying hr)
      fun _ htr _ => ?_
    exact h.ready_of_error (keepsRunning_of_tracks htr) (by rw [moduleStep_of_tracks htr]) rfl rfl
  | ended hup =>
    exact h.committed hne hold hwh hup rfl rfl (fun _ _ hr => by cases hr) fun _ _ _ => trivial
  | goesOn hup hcont =>
    refine h.committed hne hold hwh hup rfl rfl (fun _ _ hr => by cases hr) fun _ htr hno => ?_
    intro ℓ p hloop hp job hjob hfailed
    have hkeeps := keepsRunning_of_tracks htr
    obtain ⟨rfl, hfail⟩ := h.only_after hkeeps hloop hp job hjob hfailed
    exact hno hfail (h.under_counter hold hkeeps hloop hp hjob).1 hcont

end Handled

/-! ### Pushes -/

/-- A sequential loop is pushed one iteration at a time: its jobs are those of the running execution
and one more. -/
lemma pushed_iteration {result payload next jobs id table}
    (hloop : isSequentialLoop start.module = true)
    (hyields : Yields start.module start.statusModule payload next)
    (hjobs : pushJobs w flowEnv status start result 0 payload.payloads = .ok jobs)
    (hnew : newStatusModule w id next (jobs.map QueuedJob.id) = .ok (.inProgress p, table)) :
    p.parallel = false ∧ p.branchall.isSome = false ∧
      iterations p = runningJobs start.statusModule ++ [w.newUuid 0] := by
  unfold isSequentialLoop at hloop
  cases hyields with
  | job payload =>
    obtain ⟨uuid, -, h⟩ := bind_eq_ok.mp hnew
    cases pure_eq_ok.mp h
  | branch _ _ hval | branchStep _ _ hval | allIterations hval _ _ | allBranches hval _ _ =>
    rw [hval] at hloop; cases hloop
  | @iteration payload n hrun =>
    obtain ⟨uuid, huuid, h⟩ := bind_eq_ok.mp hnew
    cases pure_eq_ok.mp h
    refine ⟨rfl, rfl, ?_⟩
    obtain ⟨hlen, hids⟩ := pushJobs_ok hjobs
    obtain ⟨job, rfl⟩ := length_eq_one_iff.mp hlen
    obtain ⟨hid, -⟩ := hids 0 job rfl
    cases huuid
    show n.flowJobs ++ [job.id] = _
    rw [hrun, hid]

structure Running (flow : FlowValue) (status : FlowStatus) (reports : List (ℤ × Report)) :
  Prop where
  shape : Shape flow status
  sequential : OnLoops flow status fun _ p => SequentialStatus p
  clean : OnLoops flow status fun _ p => ∀ job ∈ iterations p, ¬ Failed reports job

lemma Running.keeps (h : Running flow status reports) (hshape : Shape flow status')
    (hkeeps : KeepsRunning status status') : Running flow status' reports :=
  ⟨hshape, hkeeps.sequential h.sequential, @KeepsRunning.onLoops flow status status'
    (fun _ jobs => ∀ job ∈ jobs, ¬ Failed reports job) hkeeps h.clean⟩

lemma keepsRunning_chosen {step statusModule result}
    (h : Chosen w flow flowEnv step statusModule result status status' start) :
    KeepsRunning status status' := by
  intro ℓ p' hp'
  cases h with
  | module _ _ => exact ⟨p', hp', .refl _⟩
  | retry _ _ _ =>
    obtain ⟨m, hm, rfl | ⟨he, -⟩⟩ :=
      statusAt_modifyModule (i := status.step)
        ((show statusAt _ ℓ = _ by cases ℓ <;> rfl).trans hp')
    · exact ⟨p', hm, .refl _⟩
    · cases m with
      | inProgress p => cases he; exact ⟨p', hm, .refl _⟩
      | _ => cases he
  | failureModule _ _ _ _ _ => exact ⟨p', by rwa [statusAt_failureStatus] at hp', .refl _⟩

def FreshId (w : World) (reports : List (ℤ × Report)) : Prop :=
  w.newUuid 0 ≠ nilUuid ∧ ∀ x ∈ reports, x.2.jobIdForStatus ≠ w.newUuid 0

section Pushed

lemma Running.runningJobs_clean (h : Running flow status reports)
    (hloop : SequentialLoop flow ℓ) (hm : statusAt status ℓ = some m) :
    nilUuid ∉ runningJobs m ∧ ∀ job ∈ runningJobs m, ¬ Failed reports job := by
  cases m with
  | inProgress p => exact ⟨(h.sequential hloop hm).notNil, h.clean hloop hm⟩
  | _ => exact ⟨by simp [runningJobs], by simp [runningJobs]⟩

lemma Running.writePushed (h : Running flow status reports) (hfresh : FreshId w reports)
    (hmod : flowModuleAt flow (placeOf start.step) = some start.module)
    (hclean : SequentialLoop flow (placeOf start.step) → nilUuid ∉ runningJobs start.statusModule ∧
        ∀ job ∈ runningJobs start.statusModule, ¬ Failed reports job)
    (hpush : ∀ p, m = .inProgress p → isSequentialLoop start.module = true →
      p.parallel = false ∧ p.branchall.isSome = false ∧
        iterations p = runningJobs start.statusModule ++ [w.newUuid 0]) :
    Running flow (writePushed flow start m status) reports := by
  have hwr := (@puts_writePushed flow start status (fun i n hstep => by
    rw [hstep] at hmod
    exact (List.getElem?_eq_some_iff.mp hmod).1.trans_le h.shape.length) m).writes
  -- the loop under the step counter has the new iteration, the others have not changed
  have hcases : ∀ {ℓ p'}, SequentialLoop flow ℓ →
      statusAt (Push.writePushed flow start m status) ℓ = some (.inProgress p') →
      SequentialStatus p' ∧ ∀ job ∈ iterations p', ¬ Failed reports job := by
    intro ℓ p' hloop hp'
    by_cases hℓ : ℓ = placeOf start.step
    · rw [hℓ, hwr.here] at hp'
      rw [hℓ] at hloop
      obtain ⟨hnil, hold⟩ := hclean hloop
      obtain ⟨m', hm', hseq, -⟩ := hloop
      rw [hmod] at hm'
      cases hm'
      obtain ⟨hpar, hbr, hiter⟩ := hpush p' (some.inj hp') hseq
      refine ⟨⟨hpar, hbr, ?_⟩, fun job hjob => ?_⟩
      · rw [hiter]
        simpa [hnil] using hfresh.1.symm
      rw [hiter] at hjob
      rcases mem_append.mp hjob with hjob | hjob
      · exact hold job hjob
      · rw [mem_singleton.mp hjob]
        rintro ⟨x, hx, he, -⟩
        exact hfresh.2 x hx he
    · obtain ⟨m₀, hm₀, hsame⟩ := hwr.elsewhere hℓ hp'
      obtain ⟨p, rfl⟩ := running_of_sameWork hsame
      rw [iterations_of_sameWork hsame]
      exact ⟨sequentialStatus_of_sameWork hsame (h.sequential hloop hm₀), h.clean hloop hm₀⟩
  exact ⟨h.shape.writePushed start m, fun _ _ hloop hp => (hcases hloop hp).1, fun _ _ hloop hp =>
    (hcases hloop hp).2⟩

lemma Running.pushes {db db' res} (h : Running flow db.status reports) (hfresh : FreshId w reports)
    (hpush : Pushes w flow flowEnv lastResult db
    (Step.fromI32AndLen db.status.step flow.modules.length)
      (statusModuleAt (Step.fromI32AndLen db.status.step flow.modules.length) db.status) db' res) :
    Running flow db'.status reports := by
  have hshape := h.shape.pushes hpush
  cases hpush with
  | failed e | ended update => exact h
  | parked _ hgate =>
    obtain ⟨_, _, _, _, hwr, -⟩ := puts_park hgate
    exact h.keeps hshape (keepsRunning_of_writes hwr.writes rfl)
  | refused _ hgate | stuck _ hgate e =>
    exact h.keeps hshape (keepsRunning_of_tracks (suspendGate_tracks rfl hgate))
  | chosen _ hgate hch e =>
    exact h.keeps hshape
      ((keepsRunning_of_tracks (suspendGate_tracks rfl hgate)).trans (keepsRunning_chosen hch))
  | @started status status' result messages approvers start _ next _ hgate hch hstart =>
    have htr := suspendGate_tracks rfl hgate
    have hgated : Running flow status reports :=
      h.keeps (h.shape.tracks htr) (keepsRunning_of_tracks htr)
    have hrun : Running flow status' reports :=
      hgated.keeps (hgated.shape.chosen hch) (keepsRunning_chosen hch)
    obtain ⟨skipped, -, ⟨branch, -, rfl, -⟩ | ⟨payload, next', hnext, hcom, -⟩⟩ :=
      startModule_ok hstart
    · obtain ⟨j, hwr, -⟩ := @puts_setModule status' status'.step hrun.shape.step (.success _)
      exact hrun.keeps hshape (keepsRunning_of_writes hwr.writes rfl)
    obtain ⟨jobs, m, table, hjobs, hm, rfl⟩ := commitJobs_ok hcom
    obtain ⟨hmod, hexec⟩ := chosen_place hch
    refine hrun.writePushed hfresh hmod (fun hloop => ?_) fun p hp hseq => ?_
    · rcases hexec with ⟨id, hwaits⟩ | ⟨hstep, hst⟩ | hst
      · rw [hwaits]
        exact ⟨by simp [runningJobs], by simp [runningJobs]⟩
      · rw [hstep] at hloop hmod
        rw [hst]
        exact h.runningJobs_clean hloop (h.shape.statusAt_statusModule hmod)
      · exact hgated.runningJobs_clean hloop hst
    · rw [hp] at hm
      exact pushed_iteration hseq (computeNextFlowTransform_yields hnext) hjobs hm

end Pushed

/-! ### Runs -/

/-- What the engine may rely on: a handler reads the status as it is stored, up to bookkeeping, an
iteration is reported before the next one is pushed, and new jobs get new ids. -/
def Delivered (flow : FlowValue) (s : RunState) : RunAction → Prop
  | .report _ old r => Tracks old s.db.status ∧ OnTime flow s.db.status r.jobIdForStatus
  | .again _ old => Tracks old s.db.status
  | .push w => FreshId w s.reports
  | _ => True

/-- No failed iteration of a while-loop is reported to a flow that then goes on. -/
def WhileLoopsStop (flow : FlowValue) (s : RunState) : RunAction → Prop
  | .report w old r => WhileFailureStops w flow old r
  | .again w old => ∀ r tries, s.ctrl = .retrying r tries → WhileFailureStops w flow old r
  | _ => True

lemma LoopInv.before (h : LoopInv flow s) (honTime : OnTime flow s.db.status r.jobIdForStatus)
    (honly : OnLoops flow s.db.status fun _ p => ∀ job ∈ iterations p, Failed s.reports job →
      job = r.jobIdForStatus ∧ r.success = false) : Before flow s.db.status s.reports r :=
  ⟨h.shape, h.sequential, h.clean, honTime, honly⟩

lemma loopInv_pushed {pulled : Bool} (h : LoopInv flow s)
    (hctrl : s.ctrl = .chaining lastResult pulled)
    (hfresh : FreshId w s.reports) : LoopInv flow (pushed w flow lastResult pulled s) := by
  have hready := h.ready
  unfold Ready at hready
  rw [hctrl] at hready
  have hrun : Running flow (pushed w flow lastResult pulled s).db.status s.reports :=
    Running.pushes ⟨h.shape, h.sequential, hready⟩ hfresh (pushNextFlowJob_pushes lastResult s.db)
  have hclean := hrun.clean
  refine ⟨hrun.shape, hrun.sequential, fun ℓ p hloop hp job hjob =>
    hclean hloop hp job (mem_of_mem_dropLast hjob), ?_⟩
  unfold Ready
  have hafter : (pushed w flow lastResult pulled s).ctrl = afterPush lastResult pulled
    (pushNextFlowJob w flow (resolvedEnv w flow) lastResult s.db).2 := rfl
  unfold afterPush at hafter
  split at hafter
  · rw [hafter]
    exact hclean
  · rw [hafter]
    exact hclean
  split_ifs at hafter
  · rw [hafter]
    refine ⟨rfl, fun ℓ p hloop hp => ?_, fun ℓ p hloop hp job hjob hf =>
      absurd hf (hclean hloop hp job hjob)⟩
    have hnil := (hrun.sequential hloop hp).notNil
    exact ⟨fun hmem => hnil (mem_of_mem_dropLast hmem), fun hmem => absurd hmem hnil⟩
  · rw [hafter]
    trivial

lemma loopInv_step (hne : flow.modules ≠ []) {s' a} (h : LoopInv flow s) (hC : Delivered flow s a ∧
    WhileLoopsStop flow s a) (hstep : runStep flow s a = some s') : LoopInv flow s' := by
  obtain ⟨hdeliv, hwh⟩ := hC
  have hready := h.ready
  unfold Ready at hready
  cases runStep_steps hstep with
  | pull hctrl =>
    rcases hctrl with hctrl | ⟨hctrl, -⟩ <;> rw [hctrl] at hready <;>
      exact ⟨h.shape, h.sequential, h.clean, hready⟩
  | push hctrl => exact loopInv_pushed h hctrl hdeliv
  | report hctrl =>
    rw [hctrl] at hready
    exact loopInv_reported hne (h.before hdeliv.2 fun ℓ p hloop hp job hjob hf =>
      absurd hf (hready hloop hp job hjob)) hdeliv.1 hwh
  | again hctrl =>
    rw [hctrl] at hready
    obtain ⟨hfail, honTime, honly⟩ := hready
    exact loopInv_reported hne (h.before honTime fun ℓ p hloop hp job hjob hf =>
      ⟨honly hloop hp job hjob hf, hfail⟩) hdeliv (hwh _ _ hctrl)
  | request hnew => exact ⟨h.shape, h.sequential, h.clean, h.ready⟩

lemma loopInv_start (flow : FlowValue) : LoopInv flow (.start flow) := by
  have hnone : ∀ {ℓ p}, statusAt (RunState.start flow).db.status ℓ = some (.inProgress p) →
      False := by
    intro ℓ p hp
    obtain ⟨id, he⟩ := statusAt_new hp
    cases he
  exact ⟨shape_new flow, fun _ _ _ hp => (hnone hp).elim, fun _ _ _ hp => (hnone hp).elim,
    fun _ _ _ hp => (hnone hp).elim⟩

/-- **A sequential loop that does not skip failures pushes no iteration after a failed one**, in
every run in which no while-loop fails while something lets its flow go on. -/
theorem no_iteration_after_failure {flow : FlowValue} (hne : flow.modules ≠ [])
    {as : List RunAction} {s : RunState}
    (hmeets : Meets (runStep flow) (fun s a => Delivered flow s a ∧ WhileLoopsStop flow s a) as
    (.start flow))
    (hrun : run (runStep flow) as (.start flow) = some s) : NoIterationAfterFailure flow s :=
  (run_invariant (loopInv_step hne) (loopInv_start flow) hmeets hrun).clean

def forLoop : FlowModule where
  id := "a"
  value := .forloopFlow (.static (.arr [.num "1", .num "2"])) [{ id := "b", value := .script }] none
    none none none

def forFlow : FlowValue where
  modules := [forLoop]

def whileLoop : FlowModule where
  id := "a"
  value := .whileloopFlow [{ id := "b", value := .script }] none none
  continueOnError := some true

def whileFlow : FlowValue where
  modules := [whileLoop]

def firstPushed (flow : FlowValue) : RunState :=
  pushed (.plain (.plain 1)) flow none true { RunState.start flow with ctrl := .chaining none true }

def iterationFails : Report := { jobIdForStatus := 1000, success := false, result := .null }

def firstFailed (flow : FlowValue) : RunState :=
  reported (.plain (.plain 1)) flow (firstPushed flow).db.status iterationFails 3 (firstPushed flow)

lemma onTime_first (hmods : (firstPushed flow).db.status.modules = [.inProgress p])
    (hfail : isRunning (firstPushed flow).db.status.failureModule.moduleStatus = false)
    (hpre : (firstPushed flow).db.status.preprocessorModule = none)
    (hstep : (firstPushed flow).db.status.step = 0) (hjobs : p.flowJobs = some [1000]) :
    OnTime flow (firstPushed flow).db.status iterationFails.jobIdForStatus := by
  intro ℓ q _ hq
  cases ℓ with
  | module i =>
    change (firstPushed flow).db.status.modules[i]? = some (.inProgress q) at hq
    rw [hmods] at hq
    cases i with
    | zero =>
      cases hq
      simp [iterations, hjobs, FlowStatus.moduleStep, hstep, hmods, Step.fromI32AndLen, placeOf]
    | succ i => cases hq
  | failure =>
    rw [some.inj hq] at hfail
    cases hfail
  | preprocessor =>
    change (firstPushed flow).db.status.preprocessorModule = _ at hq
    rw [hpre] at hq
    cases hq

theorem for_loop_stops : run (runStep forFlow) [.pull, .push (.plain (.plain 1)),
        .report (.plain (.plain 1)) (firstPushed forFlow).db.status iterationFails] (.start forFlow)
      = some (firstFailed forFlow) ∧ NoIterationAfterFailure forFlow (firstFailed forFlow) :=
  ⟨rfl, @no_iteration_after_failure forFlow (by simp [forFlow])
    [.pull, .push (.plain (.plain 1)),
      .report (.plain (.plain 1)) (firstPushed forFlow).db.status iterationFails] _
    (meets_cons ⟨trivial, trivial⟩ rfl (meets_cons ⟨⟨by decide, fun _ h => by cases h⟩, trivial⟩ rfl
      (meets_cons ⟨⟨Tracks.refl _, onTime_first rfl rfl rfl rfl rfl⟩, fun p hp _ hw _ => by
        cases hp
        cases hw⟩ rfl trivial))) rfl⟩

def secondWorld : World :=
  { World.plain (.plain 1) with newUuid := fun i => BitVec.ofNat 128 (2000 + i) }

def secondPushed : RunState :=
  pushed secondWorld whileFlow (some .null) false (firstFailed whileFlow)

/-- A while-loop that continues on error pushes its second iteration after the first one failed. -/
theorem while_loop_goes_on : ∃ as s, Meets (runStep whileFlow) (Delivered whileFlow) as
    (.start whileFlow) ∧ run (runStep whileFlow) as (.start whileFlow) = some s ∧
    ¬ NoIterationAfterFailure whileFlow s := by
  refine ⟨[.pull, .push (.plain (.plain 1)),
    .report (.plain (.plain 1)) (firstPushed whileFlow).db.status iterationFails,
    .push secondWorld],
    secondPushed, ?_, rfl, fun h => ?_⟩
  · refine meets_cons trivial rfl (meets_cons ⟨by decide, fun _ h => by cases h⟩ rfl (meets_cons
      ⟨Tracks.refl _, onTime_first rfl rfl rfl rfl rfl⟩ rfl
      (meets_cons ⟨by decide, ?_⟩ rfl trivial)))
    intro x hx
    cases mem_singleton.mp hx
    decide
  · obtain ⟨p, hp, hiter⟩ : ∃ p, statusAt secondPushed.db.status (.module 0) =
      some (.inProgress p) ∧
        iterations p = [1000, 2000] := ⟨_, rfl, rfl⟩
    refine h ⟨whileLoop, rfl, rfl, rfl⟩ hp 1000 (by rw [hiter]; decide) ?_
    exact ⟨(0, iterationFails), mem_singleton_self _, rfl, rfl⟩

end Windmill.Flow.Iterations
