import Windmill.Flow.Run

/-! # The jobs that a status names

Every module status names the jobs that hold the result of the module. `Owned` says that these are
jobs that were pushed for that module: a push writes the ids it has drawn into the status of the
module that it starts, and a handler writes the job that is reported to it. A failure module or a
preprocessor that completes without a job would be written in the place of another module, so these
are leaves. -/

namespace Windmill.Flow.Ownership

open Value Status Reads Completion Flow.Suspend Transform Push Places Run Lib.Except List

def jobsOf : JobResult → List Uuid
  | .singleJob job => [job]
  | .listJob jobs => jobs

def resultJobs (m : FlowStatusModule) : List Uuid :=
  match m with
  | .waitingForEvents _ _ _ => []
  | m => ((jobResult m).map jobsOf).getD []

variable {m statusModule status m' : FlowStatusModule} {job : Uuid} {p : InProgress} {n : ℕ}
  {i : TransformInput}
  {next : NextStatus} {result : Json} {db : FlowDb} {stored : FlowStatus} {early : EarlyStop}
  {payload : ContinuePayload} {counter : Counter}

lemma resultJobs_of_some {jobs} (h : m.flowJobs = some jobs) : resultJobs m = jobs := by
  cases m with
  | inProgress p | success s | failure f => simp [resultJobs, jobResult, h, jobsOf]
  | _ => cases h

lemma mem_resultJobs_of_none (h : m.flowJobs = none) (hjob : job ∈ resultJobs m) :
    m.job = some job := by
  cases m with
  | waitingForPriorSteps id | waitingForEvents id count last => cases hjob
  | _ =>
    simp only [resultJobs, jobResult, h, FlowStatusModule.job, jobsOf, Option.map_some,
      Option.getD_some, mem_singleton] at hjob
    rw [hjob]
    rfl

structure SameJobs (m m' : FlowStatusModule) : Prop where
  id : m'.id = m.id
  jobs : resultJobs m' = resultJobs m

lemma sameJobs_bumpCounter {p'} (h : bumpCounter p counter = some (p', n)) :
    SameJobs (.inProgress p) (.inProgress p') := by
  cases counter with
  | iterator | branchall =>
    obtain ⟨x, -, he⟩ := Option.map_eq_some_iff.mp h
    cases he
    exact ⟨rfl, rfl⟩

lemma SameJobs.trans {m₁ m₂ m₃} (h : SameJobs m₁ m₂) (h' : SameJobs m₂ m₃) : SameJobs m₁ m₃ :=
  ⟨h'.id.trans h.id, h'.jobs.trans h.jobs⟩

lemma mem_resultJobs_of_mem_runningJobs (h : job ∈ runningJobs m) : job ∈ resultJobs m := by
  cases m with
  | inProgress p =>
    change job ∈ p.flowJobs.getD [] at h
    cases hjobs : p.flowJobs with
    | none =>
      simp [hjobs] at h
    | some jobs =>
      rw [hjobs] at h
      rw [resultJobs_of_some (show FlowStatusModule.flowJobs (.inProgress p) =
        some jobs from hjobs)]
      exact h
  | _ => cases h

/-! ### Owned statuses -/

def isLeaf (m : FlowModule) : Bool :=
  match m.value with
  | .forloopFlow _ _ _ _ _ _ => false
  | .whileloopFlow _ _ _ => false
  | .branchOne _ _ _ => false
  | .branchAll _ _ => false
  | _ => true

def LeafHandlers (flow : FlowValue) : Prop :=
  ∀ m, flow.failureModule = some m ∨ flow.preprocessorModule = some m → isLeaf m = true

lemma not_emptyInnerFlows {w m skipped branch} (hleaf : isLeaf m = true) :
    computeNextFlowTransform w i m statusModule skipped ≠ .ok (.emptyInnerFlows branch) := by
  intro h
  unfold computeNextFlowTransform at h
  unfold isLeaf at hleaf
  split_ifs at h
  · cases h
  split at h
  · cases h
  · cases h
  iterate 4
    · rename_i hval
      simp [hval] at hleaf
  · obtain ⟨-, -, h⟩ := bind_eq_ok.mp h
    cases pure_eq_ok.mp h

/-- The jobs of a module status were pushed for the module; `nil` stands for no job. -/
def OwnedModule (O : Uuid → String → Prop) (m : FlowStatusModule) : Prop :=
  ∀ job ∈ resultJobs m, job = nilUuid ∨ O job m.id

/-- **The statuses carry the ids of their modules and name the jobs of their modules.** -/
structure Owned (O : Uuid → String → Prop) (flow : FlowValue) (s : FlowStatus) : Prop where
  shape : Shape flow s
  named : ∀ ⦃ℓ : Place⦄ ⦃m : FlowStatusModule⦄ ⦃d : FlowModule⦄, statusAt s ℓ = some m →
    flowModuleAt flow ℓ = some d → m.id = d.id
  jobs : ∀ ⦃ℓ : Place⦄ ⦃m : FlowStatusModule⦄, statusAt s ℓ = some m → OwnedModule O m

section Owned

variable {O O' : Uuid → String → Prop} {flow : FlowValue} {s s' : FlowStatus} {w : World}

lemma OwnedModule.same (h : OwnedModule O m) (hsame : SameJobs m m') : OwnedModule O m' := by
  intro job hjob
  rw [hsame.id]
  exact h job (hsame.jobs ▸ hjob)

lemma owned_new (flow : FlowValue) : Owned O flow (.new flow) := by
  refine ⟨shape_new flow, fun ℓ m d hm hd => ?_, fun ℓ m hm => ?_⟩
  · cases ℓ with
    | module i =>
      change (flow.modules.map fun m => FlowStatusModule.waitingForPriorSteps m.id)[i]? =
        some m at hm
      rw [getElem?_map, show flow.modules[i]? = some d from hd] at hm
      cases hm
      rfl
    | failure =>
      cases hm
      show (flow.failureModule.map FlowModule.id).getD "failure" = d.id
      rw [show flow.failureModule = some d from hd]
      rfl
    | preprocessor =>
      change flow.preprocessorModule.map (fun m => FlowStatusModule.waitingForPriorSteps m.id) =
        some m at hm
      rw [show flow.preprocessorModule = some d from hd] at hm
      cases hm
      rfl
  · obtain ⟨id, rfl⟩ := statusAt_new hm
    intro job hjob
    cases hjob

lemma Owned.mono (h : Owned O flow s) (hO : ∀ job id, O job id → O' job id) : Owned O' flow s :=
  ⟨h.shape, h.named, fun _ _ hm job hjob => (h.jobs hm job hjob).imp_right (hO job _)⟩

def OwnedAt (O : Uuid → String → Prop) (flow : FlowValue) (ℓ : Place)
    (m : FlowStatusModule) : Prop :=
  (∀ d, flowModuleAt flow ℓ = some d → m.id = d.id) ∧ OwnedModule O m

lemma Owned.places (h : Owned O flow s) : AtPlaces (OwnedAt O flow) s :=
  fun _ _ hm => ⟨fun _ hd => h.named hm hd, h.jobs hm⟩

lemma Owned.of_places (hshape : Shape flow s) (h : AtPlaces (OwnedAt O flow) s) : Owned O flow s :=
  ⟨hshape, fun _ _ d hm hd => (h hm).1 d hd, fun _ _ hm => (h hm).2⟩

lemma OwnedAt.same {ℓ : Place} (h : OwnedAt O flow ℓ m) (hsame : SameJobs m m') :
    OwnedAt O flow ℓ m' :=
  ⟨fun d hd => hsame.id.trans (h.1 d hd), h.2.same hsame⟩

lemma Owned.modify {i : ℤ} {f} (h : Owned O flow s)
    (hf : ∀ m, moduleAt s i = some m → SameJobs m (f m)) : Owned O flow (s.modifyModule i f) :=
  .of_places ⟨by simpa using h.shape.step, by simpa using h.shape.length, by
    simpa using h.shape.preprocessor⟩ (h.places.modify fun _ m hm hplace => hplace.same (hf m hm))

lemma Owned.puts {ℓ : Place} (h : Owned O flow s) (hputs : Puts s s' ℓ m)
    (hnamed : ∀ d, flowModuleAt flow ℓ = some d → m.id = d.id) (hjobs : OwnedModule O m)
    (hshape : Shape flow s') : Owned O flow s' :=
  .of_places hshape (h.places.puts hputs ⟨hnamed, hjobs⟩)

lemma Owned.setModule {k : ℕ} (h : Owned O flow s)
    (hnamed : ∀ d, flow.modules[k]? = some d → m.id = d.id)
    (hjobs : OwnedModule O m) : Owned O flow (s.setModule k m) := by
  have hlen := h.shape.length
  obtain ⟨j, hputs, hj⟩ := puts_setModule (s := s) (i := (k : ℤ)) (by omega) m
  refine h.puts hputs (fun d hd => hnamed d ?_) hjobs
    ⟨h.shape.step, hlen.trans (length_le_setModule s k m), h.shape.preprocessor⟩
  have hlt := (List.getElem?_eq_some_iff.mp (show flow.modules[j]? = some d from hd)).1
  have hmin := hj k rfl
  rw [show k = j by omega]
  exact hd

/-! ### A push -/

def nextJobs : NextStatus → List Uuid
  | .nextLoopIteration n => n.flowJobs
  | .nextBranchStep n => n.flowJobs
  | _ => []

lemma branchAllTransform_jobs {branches parallel}
    (h : branchAllTransform w i branches parallel statusModule = .ok (.continue payload next)) :
    ∀ job ∈ nextJobs next, job ∈ runningJobs statusModule := by
  unfold branchAllTransform at h
  split_ifs at h
  · cases h
  · dsimp only at h
    split_ifs at h
    · cases h
    · cases h
      intro job hjob
      cases hjob
  · obtain ⟨rfl, -⟩ := nextBranchStep_ok h
    intro job hjob
    cases hjob
  · cases statusModule with
    | inProgress p =>
      dsimp only at h
      split at h
      · rename_i b jobs _ _ hjobs
        obtain ⟨rfl, -⟩ := nextBranchStep_ok h
        intro job hjob
        rw [runningJobs, hjobs]
        exact hjob
      · cases h
    | _ => cases h

lemma computeNextFlowTransform_jobs {module skipped}
    (h : computeNextFlowTransform w i module statusModule skipped = .ok (.continue payload next)) :
    ∀ job ∈ nextJobs next, job ∈ runningJobs statusModule := by
  cases computeNextFlowTransform_yields h with
  | job | branch | allIterations | allBranches => intro job hjob; cases hjob
  | iteration _ hjobs => exact fun job hjob => hjobs ▸ hjob
  | branchStep _ n hval =>
    unfold computeNextFlowTransform at h
    split_ifs at h
    · cases h
    · rw [hval] at h
      exact branchAllTransform_jobs h

lemma newStatusModule_jobs {id uuids table} (h : newStatusModule w id next uuids = .ok (m, table)) :
    m.id = id ∧ ∀ job ∈ resultJobs m, job ∈ nextJobs next ∨ job ∈ uuids := by
  have hone : ∀ {uuid}, oneUuid uuids = .ok uuid → uuid ∈ uuids := by
    intro uuid huuid
    unfold oneUuid at huuid
    split at huuid
    · cases huuid
      exact mem_singleton_self _
    · cases huuid
  cases next with
  | nextStep | branchChosen b =>
    obtain ⟨uuid, huuid, h⟩ := bind_eq_ok.mp h
    cases pure_eq_ok.mp h
    refine ⟨rfl, fun job hjob => .inr ?_⟩
    cases mem_singleton.mp hjob
    exact hone huuid
  | nextLoopIteration n | nextBranchStep n =>
    obtain ⟨uuid, huuid, h⟩ := bind_eq_ok.mp h
    cases pure_eq_ok.mp h
    refine ⟨rfl, fun job hjob => ?_⟩
    rcases mem_append.mp (show job ∈ n.flowJobs ++ [uuid] from hjob) with hjob | hjob
    · exact .inl hjob
    · cases mem_singleton.mp hjob
      exact .inr (hone huuid)
  | allFlowJobs branchall iterator =>
    cases h
    exact ⟨rfl, fun job hjob => .inr hjob⟩

lemma pushJobs_flowStepId {flowEnv status start} : ∀ {payloads} {i : ℕ} {jobs},
      pushJobs w flowEnv status start result i payloads = .ok jobs → ∀ job ∈ jobs,
      job.flowStepId = start.module.id
  | [], i, jobs, h, job, hjob => by
    cases h
    cases hjob
  | payload :: payloads, i, jobs, h, job, hjob => by
    obtain ⟨-, -, h⟩ := bind_eq_ok.mp h
    obtain ⟨suspend, -, h⟩ := bind_eq_ok.mp h
    obtain ⟨rest, hrest, h⟩ := bind_eq_ok.mp h
    cases pure_eq_ok.mp h
    rcases mem_cons.mp hjob with rfl | hjob
    · rfl
    · exact pushJobs_flowStepId hrest job hjob

variable {flowEnv : Option Args}

lemma Owned.passed {table gate} (h : Owned O flow s) (hgate : gate.isPark = false)
    (hpass : suspendGate w flow flowEnv s statusModule result table = .ok (s', gate)) :
    Owned O flow s' :=
  .of_places (h.shape.tracks (suspendGate_tracks hgate hpass))
    (h.places.passed (fun _ m approvers hm => hm.same (by cases m <;> exact ⟨rfl, rfl⟩))
      hgate hpass)

lemma Owned.chosen {step statusModule result start} (h : Owned O flow s)
    (hch : Chosen w flow flowEnv step statusModule result s s' start) : Owned O flow s' :=
  .of_places (h.shape.chosen hch)
    (h.places.chosen (fun _ m jobs hm => hm.same (by cases m <;> exact ⟨rfl, rfl⟩)) hch)

lemma Owned.bumped {i : ℤ} {position success duration} (h : Owned O flow cur)
    (hbump : bumpParallel cur i counter position success duration = .ok (stored, n)) :
    Owned O flow stored := by
  unfold bumpParallel at hbump
  split at hbump
  · rename_i p hp
    split at hbump
    · rename_i p' n' hctr
      cases hbump
      refine h.modify fun m hm => ?_
      cases hp.symm.trans hm
      exact .trans (by cases position <;> exact ⟨rfl, rfl⟩) (sameJobs_bumpCounter hctr)
    · cases hbump
  · cases hbump

lemma Owned.recorded {i : ℤ} (h : Owned O flow cur) :
    Owned O flow (setSuccessInFlowJobs cur i p r) := by
  unfold setSuccessInFlowJobs
  split
  · exact h
  · split
    · exact h
    · refine h.modify fun m _ => ?_
      cases m with
      | _ => exact ⟨rfl, rfl⟩

lemma Owned.start {step : Step} {result : Json} {start : Start} {db : FlowDb}
    (h : Owned O flow db.status)
    (hs : Owned O flow s) (hstep : step = Step.fromI32AndLen db.status.step flow.modules.length)
    (hch : Chosen w flow flowEnv step (statusModuleAt step db.status) result s s' start) :
    start.statusModule.id = start.module.id ∧ OwnedModule O start.statusModule := by
  have hat : ∀ m, flow.getFlowModuleAtStep step = .ok m →
      statusAt db.status (placeOf step) = some (statusModuleAt step db.status) ∧
        flowModuleAt flow (placeOf step) = some m := by
    intro m hm
    have hplace := flowModuleAt_of_getFlowModuleAtStep hm
    rw [hstep] at hplace ⊢
    exact ⟨h.shape.statusAt_statusModule hplace, hplace⟩
  cases hch with
  | module hm _ =>
    obtain ⟨hst, hplace⟩ := hat _ hm
    exact ⟨h.named hst hplace, h.jobs hst⟩
  | retry hm _ _ =>
    obtain ⟨hst, hplace⟩ := hat _ hm
    have hid : (statusModuleAt step db.status).id = _ := h.named hst hplace
    exact ⟨hid, fun job hjob => (by cases hjob)⟩
  | failureModule _ _ _ _ hfail =>
    have hst : statusAt s .failure = some s.failureModule.moduleStatus := rfl
    exact ⟨hs.named hst hfail, hs.jobs hst⟩

/-- **A push names the jobs it has pushed.** -/
theorem Owned.pushes {lastResult : Option Json} {db' : FlowDb} {res : Except Error PushNextFlowJob}
    (h : Owned O flow db.status) (hleaf : LeafHandlers flow)
    (hpush : Pushes w flow flowEnv lastResult db
    (Step.fromI32AndLen db.status.step flow.modules.length)
      (statusModuleAt (Step.fromI32AndLen db.status.step flow.modules.length) db.status) db' res)
    (hnew : ∀ job ∈ db'.queued.drop db.queued.length, O job.id job.flowStepId) :
    Owned O flow db'.status := by
  have hshape := h.shape.pushes hpush
  cases hpush with
  | failed e | ended update => exact h
  | parked _ hgate =>
    obtain ⟨s, last, conditions, hneeds, hdec, rfl⟩ := suspendGate_parked hgate
    obtain ⟨-, -, i, -, hi, -⟩ := needsResume_some hneeds
    have hstored : Owned O flow (storeConditions conditions db.status) :=
      .of_places ⟨h.shape.step, h.shape.length, h.shape.preprocessor⟩
        (h.places.congr fun ℓ => by cases ℓ <;> rfl)
    simp only [gateStatus, hdec]
    have hstep : (storeConditions conditions db.status).step = ((i + 1 : ℕ) : ℤ) := by
      show db.status.step = _
      omega
    rw [hstep]
    refine hstored.setModule (fun d hd => ?_) fun job hjob => (by cases hjob)
    have hlt := (List.getElem?_eq_some_iff.mp hd).1
    have hplace : Step.fromI32AndLen db.status.step flow.modules.length =
        .step (i + 1) flow.modules.length :=
      fromI32AndLen_eq_step.mpr ⟨by omega, rfl, hlt⟩
    have hmod : flowModuleAt flow
        (placeOf (Step.fromI32AndLen db.status.step flow.modules.length)) = some d := by
      rw [hplace]
      exact hd
    have hid := h.named (h.shape.statusAt_statusModule hmod) hmod
    exact hid
  | refused _ hgate | stuck _ hgate e => exact h.passed rfl hgate
  | chosen _ hgate hch e => exact (h.passed rfl hgate).chosen hch
  | @started status status' _ _ _ start _ _ _ hgate hch hstart =>
    have hgated : Owned O flow status := h.passed rfl hgate
    have hchose : Owned O flow status' := hgated.chosen hch
    obtain ⟨hmod, -⟩ := chosen_place hch
    obtain ⟨hid, hstarted⟩ := h.start hgated rfl hch
    obtain ⟨skipped, -, ⟨branch, hnext, rfl, -⟩ | ⟨payload, next, hnext, hcom, -⟩⟩ :=
      startModule_ok hstart
    · -- a leaf has a job, so the module is one of the modules, and stands under the step counter
      obtain ⟨i, n, hi⟩ : ∃ i n, start.step = .step i n := by
        cases hstep : start.step with
        | step i n => exact ⟨i, n, rfl⟩
        | failureStep =>
          rw [hstep] at hmod
          exact absurd hnext (not_emptyInnerFlows (hleaf _ (.inl hmod)))
        | preprocessorStep =>
          rw [hstep] at hmod
          exact absurd hnext (not_emptyInnerFlows (hleaf _ (.inr hmod)))
      have hkept := (suspendGate_tracks rfl hgate).step
      have hctr : status'.step = i := by
        cases hch with
        | module _ _ => exact hkept.trans (fromI32AndLen_eq_step.mp hi).1
        | retry _ _ _ =>
          rw [retryStatus_step, hkept]
          exact (fromI32AndLen_eq_step.mp hi).1
        | failureModule _ _ _ _ _ => cases hi
      unfold emptyInnerFlows
      rw [hctr]
      refine hchose.setModule (fun d hd => ?_) fun job hjob => .inl ?_
      · rw [hi] at hmod
        cases hd.symm.trans hmod
        exact hid
      · cases branch with
        | some b => exact mem_singleton.mp hjob
        | none => cases hjob
    · obtain ⟨jobs, m, table, hjobs, hm, rfl⟩ := commitJobs_ok hcom
      obtain ⟨hmid, hmjobs⟩ := newStatusModule_jobs hm
      have hputs := @puts_writePushed flow start status' (fun i n hstep => by
        rw [hstep] at hmod
        exact (List.getElem?_eq_some_iff.mp hmod).1.trans_le hchose.shape.length) m
      refine hchose.puts hputs (fun d hd => ?_) (fun job hjob => ?_) hshape
      · cases hmod.symm.trans hd
        exact hmid.trans hid
      rcases hmjobs job hjob with hjob | hjob
      · have := hstarted job (mem_resultJobs_of_mem_runningJobs
          (computeNextFlowTransform_jobs hnext job hjob))
        rwa [hmid]
      · obtain ⟨queued, hqueued, rfl⟩ := mem_map.mp hjob
        have hO := hnew queued (by simpa using hqueued)
        rw [pushJobs_flowStepId hjobs queued hqueued] at hO
        rw [hmid, hid]
        exact .inr hO

/-! ### A handler -/

variable {old cur : FlowStatus} {r : Report}

/-- The status with which a module ends: it has the children of the module, and the job that is
reported. -/
structure EndsWith (status : FlowStatusModule) (job : Uuid) (m : FlowStatusModule) : Prop where
  id : m.id = status.id
  flowJobs : m.flowJobs = status.flowJobs
  job : m.job = some job
  result : resultJobs m = ((jobResult m).map jobsOf).getD []

lemma OwnedModule.endsWith (h : OwnedModule O status)
    (hm : EndsWith status job m) (hjob : job = nilUuid ∨ O job status.id) : OwnedModule O m := by
  intro x hx
  rw [hm.id]
  cases hjobs : m.flowJobs with
  | none =>
    cases (mem_resultJobs_of_none hjobs hx).symm.trans hm.job
    exact hjob
  | some jobs =>
    rw [resultJobs_of_some hjobs] at hx
    rw [hm.flowJobs] at hjobs
    exact h x (resultJobs_of_some hjobs ▸ hx)

lemma endCase_endsWith {t} (h : endCase w flow old cur status r early = .ok t)
    (hm : t.newStatus = some m) : EndsWith status r.jobIdForStatus m := by
  unfold endCase at h
  dsimp only at h
  by_cases hok : endsOk flow old status r (endEarly w flow old status early).1 = true
  · rw [if_pos hok] at h
    cases h
    cases hm
    exact ⟨rfl, rfl, rfl, rfl⟩
  · rw [if_neg hok] at h
    obtain ⟨inc, -, h⟩ := bind_eq_ok.mp h
    cases pure_eq_ok.mp h
    cases hm
    exact ⟨rfl, rfl, rfl, rfl⟩

def CaseOwned (O : Uuid → String → Prop) (flow : FlowValue) (status : FlowStatusModule)
    (job : Uuid) : ModuleCase → Prop
  | .nonLastParallelBranch stored _ => Owned O flow stored
  | .transition t => Owned O flow t.stored ∧ ∀ m, t.newStatus = some m → EndsWith status job m

lemma Owned.moduleTransition {c} (h : Owned O flow cur)
    (hc : moduleTransition w flow old cur status r early = .ok c) :
    CaseOwned O flow status r.jobIdForStatus c := by
  unfold Completion.moduleTransition at hc
  cases hcase : stepCase flow old status r early with
  | parallel p jobs =>
    rw [hcase] at hc
    obtain ⟨rfl, -, hjobs⟩ := stepCase_parallel hcase
    obtain ⟨counter, len, stored, nindex, -, hbump, rfl⟩ := parallelCase_ok hc
    by_cases hlast : nindex = len
    · rw [if_pos hlast]
      refine ⟨h.bumped hbump, fun m hm => ?_⟩
      simp only [parallelJoin] at hm
      split_ifs at hm <;> cases hm <;> exact ⟨rfl, hjobs.symm, rfl, rfl⟩
    · rw [if_neg hlast]
      exact h.bumped hbump
  | goesOn p =>
    rw [hcase] at hc
    cases hc
    exact ⟨h.recorded, fun m hm => (by cases hm)⟩
  | ends =>
    rw [hcase] at hc
    obtain ⟨t, hend, rfl⟩ := map_eq_ok.mp hc
    exact ⟨(endCase_ok hend).stored ▸ h, fun m hm => endCase_endsWith hend hm⟩

/-- **A handler names the job that is reported to it**, if it is a job of the module under the step
counter. -/
theorem Owned.commit {c} (h : Owned O flow cur) (hold : Owned O flow old)
    (hup : updateStatus w flow old cur r = .ok (.committed c))
    (htime : ∀ status, moduleStatus old = .ok status → r.jobIdForStatus = nilUuid ∨
      O r.jobIdForStatus status.id) :
    Owned O flow c.status ∧ ∀ m, c.transition.newStatus = some m → ∀ result,
    jobResult m = some result → ∀ job ∈ jobsOf result, job = nilUuid ∨ O job m.id := by
  have hshape := h.shape.commit hold.shape.step hup
  obtain ⟨status, early, hst, -, ht, -, hc⟩ := updateStatus_committed hup
  have hat := statusAt_of_moduleStatus hst
  obtain ⟨hstored, hnew⟩ : CaseOwned O flow status _ (.transition c.transition) :=
    h.moduleTransition ht
  rw [enteringReport_jobIdForStatus] at hnew
  have howned : ∀ m, c.transition.newStatus = some m → OwnedModule O m := fun m hm =>
    (hold.jobs hat).endsWith (hnew m hm) (htime status hst)
  refine ⟨?_, fun m hm result hres job hjob => howned m hm job ?_⟩
  · rw [hc] at hshape ⊢
    cases hm : c.transition.newStatus with
    | none => exact .of_places hshape (hstored.places.congr (statusAt_commitTransition hm))
    | some m =>
      obtain ⟨ℓ, hputs, hℓ⟩ := @exists_puts_commitTransition old c.transition m hm
      refine hstored.puts hputs (fun d hd => ?_) (howned m hm) hshape
      rcases hℓ with rfl | ⟨j, rfl, hj⟩
      · exact (hnew m hm).id.trans (hold.named hat hd)
      -- past the modules of the flow
      have hlt := (List.getElem?_eq_some_iff.mp (show flow.modules[j]? = some d from hd)).1
      have hlen := hstored.shape.length
      have hlen' := hold.shape.length
      rcases hj with hnil | hj
      · rw [hnil, length_nil] at hlen'
        omega
      · omega
  · rw [(hnew m hm).result, hres]
    exact hjob

lemma Owned.handles {tries : ℕ} {db' ctrl} (h : Owned O flow db.status) (hold : Owned O flow old)
    (hhandle : Handles w flow old r tries db db' ctrl)
    (htime : ∀ status, moduleStatus old = .ok status → r.jobIdForStatus = nilUuid ∨
      O r.jobIdForStatus status.id) : Owned O flow db'.status := by
  refine hhandle.invariant h (fun hup => ?_) fun hup => (h.commit hold hup htime).1
  obtain ⟨status, early, -, hc⟩ := updateStatus_counted hup
  exact h.moduleTransition hc

end Owned

end Windmill.Flow.Ownership
