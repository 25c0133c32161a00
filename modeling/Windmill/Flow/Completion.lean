import Windmill.Flow.Reads
import Windmill.Lib.Except

/-! # The completion handler: from a report to the stored status

`update_flow_status_after_job_completion_internal` (`windmill-worker/src/worker_flow.rs`) is called
for every child job of a flow that ends. Its first half reads the flow's status (`old`), decides
what the report means for the current module, and writes the result in one transaction to the stored
status (`cur`, which concurrent handlers of parallel children may have changed since `old` was
read). `updateStatus` composes its parts up to the commit. -/

namespace Windmill.Flow.Completion

open Value Status Reads Lib.Except

/-- What is reported to a flow about a child job: the arguments of the handler. -/
structure Report where
  jobIdForStatus : Uuid
  success : Bool
  canceledBy : Option CanceledBy := none
  flowJobDuration : Option FlowJobDuration := none
  result : Json
  unrecoverable : Bool := false
  stopEarlyOverride : Option Bool := none
  hasTriggeredErrorHandler : Bool := false

/-! ### The module the report is about -/

/-- The current module of the flow, `None` for the preprocessor and the failure module. -/
def currentModule (flow : FlowValue) (old : FlowStatus) : Option FlowModule :=
  match old.moduleStep with
  | .step i _ => flow.modules[i]?
  | _ => none

/-- The status that the handler reads. -/
def moduleStatus (old : FlowStatus) : Except Error FlowStatusModule :=
  match old.moduleStep with
  | .preprocessorStep =>
    match old.preprocessorModule with
    | some m => .ok m
    | none => .error ⟨"preprocessor module not found"⟩
  | .failureStep => .ok old.failureModule.moduleStatus
  | .step i _ =>
    match old.modules[i]? with
    | some m => .ok m
    | none => .error ⟨s!"module {i} not found"⟩

def isFailureStep (old : FlowStatus) : Bool :=
  decide ((old.modules.length : ℤ) ≤ old.step) && decide (0 < old.modules.length)

/-- `is_loop`, `skip_loop_failures`, `parallelism` and `parallel_loop` of the source. -/
structure LoopInfo where
  isLoop : Bool
  skipLoopFailures : Bool
  parallelism : Option InputTransform
  parallelLoop : Bool

variable (module : Option FlowModule)

def loopInfo (status : FlowStatusModule) : LoopInfo :=
  match status with
  | .inProgress p =>
    if p.iterator.isSome then
      let value := module.bind fun m => m.getValueWithSkipFailures.toOption
      ⟨true, (value.bind Prod.fst).getD false, value.bind Prod.snd, p.parallel⟩
    else ⟨false, false, none, false⟩
  | _ => ⟨false, false, none, false⟩

def isBranchAll : FlowStatusModule → Bool
  | .inProgress p => p.branchall.isSome
  | _ => false

def isParallelBranchall : FlowStatusModule → Bool
  | .inProgress p => p.branchall.isSome && p.parallel
  | _ => false

def skipSeqBranchFailure (status : FlowStatusModule) : Bool :=
  match status with
  | .inProgress p =>
    match p.branchall with
    | some b =>
      if p.parallel then false
      else match module.bind fun m => m.getBranchesSkipFailures.toOption with
        | some branches => branches.getD b.branch false
        | none => false
    | none => false
  | _ => false

/-! ### Early stops -/

/-- `stop_early`, `stop_early_err_msg`, `skip_if_stop_early` and `continue_on_error`. -/
structure EarlyStop where
  stopEarly : Bool
  errMsg : Option String
  skipIfStopEarly : Bool
  continueOnError : Bool

def EarlyStop.isError (e : EarlyStop) : Bool := e.stopEarly && e.errMsg.isSome && !e.skipIfStopEarly

def earlyStopResult (message : String) : Json :=
  .obj [("error", .obj [("name", .str "EarlyStopError"), ("message", .str message)])]

def evaluateStopAfterIf (w : World) (old : FlowStatus) (status : FlowStatusModule) (result : Json)
    (stopAfterIf : StopAfterIf) : Except Error Bool := do
  let allIters ← match status with
    | .inProgress p =>
      match p.flowJobs with
      | some jobs =>
        if containsText stopAfterIf.expr "all_iters" then
          (retrieveFlowJobsResults w jobs).map some
        else pure none
      | none => pure none
    | _ => pure none
  computeBoolFromExpr w stopAfterIf.expr
    ⟨w.flowJob.args, none, result, allIters, getIdCtxForExpr w stopAfterIf.expr old, none⟩

def earlyStop (w : World) (flow : FlowValue) (old : FlowStatus) (status : FlowStatusModule)
    (r : Report) : Except Error EarlyStop :=
  let module := currentModule flow old
  -- a stop in a child is ignored by a parallel module and by a flow step
  let overridden := r.stopEarlyOverride.isSome && !((module.map FlowModule.isFlow).getD false)
    && !(loopInfo module status).parallelLoop && !isParallelBranchall status
  if overridden then .ok ⟨true, none, r.stopEarlyOverride.getD false, false⟩
  else if isFailureStep old || old.moduleStep.isPreprocessorStep
    then .ok ⟨false, none, false, false⟩
  else match module with
    | none => .ok ⟨false, none, false, false⟩
    | some m =>
      let isIdentity := m.skipIf.isSome && w.isIdentityJob r.jobIdForStatus
      let checked := r.success && !isBranchAll status && !(loopInfo module status).parallelLoop
        && !isIdentity
      match checked, m.stopAfterIf with
      | true, some stopAfterIf =>
        match evaluateStopAfterIf w old status r.result stopAfterIf with
        | .error e => .error e
        | .ok true =>
          let data := getStopAfterIfData (some stopAfterIf)
          .ok ⟨true, data.2, data.1, m.continuesOnError⟩
        | .ok false => .ok ⟨false, none, false, m.continuesOnError⟩
      | _, _ => .ok ⟨false, none, false, m.continuesOnError⟩

/-- An early stop either skips the rest of the flow or carries an error, never both. -/
def EarlyStop.Exclusive (e : EarlyStop) : Prop := e.errMsg.isSome → e.skipIfStopEarly = false

variable {w : World} {flow : FlowValue} {status : FlowStatusModule} {r : Report}
  {e early : EarlyStop}
  {p : InProgress} {cur old status' stored : FlowStatus} {release : Option ℕ} {t : Transition}
  {counter : Counter}

/-- Where an early stop comes from: only a module that continues on error passes that on, and only
`stop_after_if` of a step that ended well stops with an error. -/
lemma earlyStop_ok (h : earlyStop w flow old status r = .ok e) :
    e.Exclusive ∧ (e.continueOnError = true → ∃ m, currentModule flow old = some m ∧
      m.continuesOnError = true) ∧
      (e.errMsg.isSome → r.success = true ∧ ∃ m s, currentModule flow old = some m ∧ m.stopAfterIf =
        some s) := by
  unfold earlyStop at h
  dsimp only at h
  split_ifs at h
  · cases h
    exact ⟨nofun, nofun, nofun⟩
  · cases h
    exact ⟨nofun, nofun, nofun⟩
  cases hm : currentModule flow old with
  | none =>
    rw [hm] at h
    cases h
    exact ⟨nofun, nofun, nofun⟩
  | some m =>
    rw [hm] at h
    dsimp only at h
    split at h
    · rename_i s hchk hs
      simp only [Bool.and_eq_true] at hchk
      split at h
      · cases h
      · cases h
        exact ⟨getStopAfterIfData_exclusive _, fun hc => ⟨m, rfl, hc⟩, fun _ =>
          ⟨hchk.1.1.1, m, s, rfl, hs⟩⟩
      · cases h
        exact ⟨nofun, fun hc => ⟨m, rfl, hc⟩, nofun⟩
    · cases h
      exact ⟨nofun, fun hc => ⟨m, rfl, hc⟩, nofun⟩

def allItersErrorMessage (s : StopAfterIf) (e : Error) : String :=
  "Error evaluating stop_after_all_iters_if expression `" ++ s.expr ++ "`: " ++ e.message

/-- `evaluate_stop_after_all_iters_if` with the treatment of its errors, which both call sites
share: the early stop after it, and the results of all iterations if they were read. -/
def stopAfterAllIters (w : World) (module : Option FlowModule) (old : FlowStatus)
    (status : FlowStatusModule) (e : EarlyStop) : EarlyStop × Option Json :=
  match module.bind FlowModule.stopAfterAllItersIf with
  | none => (e, none)
  | some s =>
    let failed (err : Error) : EarlyStop :=
      { e with
        stopEarly := true, skipIfStopEarly := false, errMsg := some (allItersErrorMessage s err) }
    let itersResult := match status with
      | .inProgress p =>
        match p.flowJobs with
        | some jobs => retrieveFlowJobsResults w jobs
        | none => .error ⟨"A branchall or loop should have flow_jobs"⟩
      | _ => .error ⟨"A branchall or loop should have flow_jobs"⟩
    match itersResult with
    | .error err => (failed err, none)
    | .ok all =>
      match computeBoolFromExpr w s.expr
          ⟨w.flowJob.args, none, all, none, getIdCtxForExpr w s.expr old, none⟩ with
      | .error err => (failed err, some all)
      | .ok false => (e, some all)
      | .ok true =>
        let data := getStopAfterIfData (some s)
        ({ e with stopEarly := true, skipIfStopEarly := data.1, errMsg := data.2 }, some all)

lemma stopAfterAllIters_exclusive {module} (h : e.Exclusive) :
    (stopAfterAllIters w module old status e).1.Exclusive := by
  unfold stopAfterAllIters
  split
  · exact h
  dsimp only
  split
  · exact fun _ => rfl
  · split
    · exact fun _ => rfl
    · exact h
    · exact getStopAfterIfData_exclusive _

/-! ### Writes below a module status -/

/-- The counter of a parallel module: `iterator.index` of a loop, `branchall.branch` otherwise. -/
inductive Counter where
  | iterator
  | branchall

def bumpCounter (p : InProgress) : Counter → Option (InProgress × ℕ)
  | .iterator => p.iterator.map fun it =>
  ({ p with iterator := some { it with index := it.index + 1 } }, it.index + 1)
  | .branchall => p.branchall.map fun b =>
    ({ p with branchall := some { b with branch := b.branch + 1 } }, b.branch + 1)

def recordChild (p : InProgress) (position : Option ℕ) (success : Bool)
    (duration : Option FlowJobDuration) : InProgress :=
  match position with
  | some i =>
    { p with
      flowJobsSuccess := p.flowJobsSuccess.map fun l => jsonbSetArr l i (some success)
      flowJobsDuration := p.flowJobsDuration.map fun d => d.jsonbSet i duration }
  | none => p

def findFlowJobIndex (flowJobs : List Uuid) (job : Uuid) : Option ℕ :=
  flowJobs.findIdx? fun j => j == job

def recordPosition (flowJobsSuccess : Option (List (Option Bool))) (jobs : List Uuid) (job : Uuid) :
    Option ℕ :=
  if flowJobsSuccess.isSome then findFlowJobIndex jobs job else none

/-- The `UPDATE` of a parallel child: the child is recorded and the counter incremented on the
stored row, and the new counter is returned. It fails when the stored module has no such counter. -/
def bumpParallel (cur : FlowStatus) (step : ℤ) (counter : Counter) (position : Option ℕ)
    (success : Bool) (duration : Option FlowJobDuration) : Except Error (FlowStatus × ℕ) :=
  match moduleAt cur step with
  | some (.inProgress p) =>
    match bumpCounter (recordChild p position success duration) counter with
    | some (p', nindex) => .ok (cur.modifyModule step fun _ => .inProgress p', nindex)
    | none => .error ⟨"requiring an index in InProgress"⟩
  | _ => .error ⟨"requiring an index in InProgress"⟩

def setSuccessInFlowJobs (cur : FlowStatus) (step : ℤ) (p : InProgress) (r : Report) : FlowStatus :=
  match p.flowJobs with
  | none => cur
  | some jobs =>
    match recordPosition p.flowJobsSuccess jobs r.jobIdForStatus with
    | none => cur
    | some i => cur.modifyModule step fun m => match m with
      | .inProgress q => .inProgress (recordChild q (some i) r.success r.flowJobDuration)
      | m => m

/-- `flow_jobs_success[position] = Some(success)`, in memory. -/
def recordSuccess (flowJobsSuccess : Option (List (Option Bool))) (jobs : List Uuid) (job : Uuid)
    (success : Bool) : Option (List (Option Bool)) :=
  flowJobsSuccess.map fun l => match findFlowJobIndex jobs job with
    | some i => if i < l.length then l.set i (some success) else l
    | none => l

/-! ### Bookkeeping -/

lemma sameWork_recordChild (p : InProgress) (position : Option ℕ) (success : Bool)
    (duration : Option FlowJobDuration) :
    SameWork (.inProgress p) (.inProgress (recordChild p position success duration)) := by
  cases position <;> exact .inProgress rfl rfl rfl rfl rfl

lemma sameWork_bumpCounter {p'} {n : ℕ} (h : bumpCounter p counter = some (p', n)) :
    SameWork (.inProgress p) (.inProgress p') := by
  cases counter with
  | iterator =>
    obtain ⟨it, hit, he⟩ := Option.map_eq_some_iff.mp h
    cases he
    exact .inProgress rfl (by rw [hit]; rfl) rfl rfl rfl
  | branchall =>
    obtain ⟨b, hb, he⟩ := Option.map_eq_some_iff.mp h
    cases he
    exact .inProgress rfl rfl (by rw [hb]; rfl) rfl rfl

lemma tracks_bumpParallel {step : ℤ} {position success duration} {n : ℕ}
    (h : bumpParallel cur step counter position success duration = .ok (stored, n)) :
    Tracks cur stored := by
  unfold bumpParallel at h
  cases hm : moduleAt cur step with
  | none => simp [hm] at h
  | some m =>
    rw [hm] at h
    cases m with
    | inProgress p =>
      dsimp only at h
      cases hb : bumpCounter (recordChild p position success duration) counter with
      | none => simp [hb] at h
      | some pn =>
        rw [hb] at h
        cases h
        refine tracks_modifyModule fun m hm' => ?_
        rw [hm] at hm'
        cases hm'
        exact (sameWork_recordChild p position success duration).trans (sameWork_bumpCounter hb)
    | _ => cases h

lemma tracks_setSuccessInFlowJobs (cur : FlowStatus) (step : ℤ) (p : InProgress) (r : Report) :
    Tracks cur (setSuccessInFlowJobs cur step p r) := by
  unfold setSuccessInFlowJobs
  split
  · exact Tracks.refl cur
  split
  · exact Tracks.refl cur
  · refine tracks_modifyModule fun m _ => ?_
    cases m with
    | inProgress q => exact sameWork_recordChild q _ _ _
    | _ => exact .refl _

/-! ### The transition of the module -/

/-- What the transaction is about to do: the stored row after the writes of the case taken, and the
variables that the rest of the handler goes on with. -/
structure Transition where
  stored : FlowStatus
  incStepCounter : Bool
  newStatus : Option FlowStatusModule
  success : Bool
  early : EarlyStop
  nresult : Option Json
  hasTriggeredErrorHandler : Bool

/-- A parallel child that is not the last one only releases the next suspended child, if the
module limits its parallelism. -/
inductive ModuleCase where
  | nonLastParallelBranch (stored : FlowStatus) (release : Option ℕ)
  | transition (t : Transition)

/-- The children whose failure counts: in a branch-all those not marked `skip_failure`. -/
def jobsFiltered (branchall : Option BranchAllStatus) (jobs : List Uuid) : List Uuid :=
  match branchall, module.bind fun m => m.getBranchesSkipFailures.toOption with
  | some _, some branches =>
    (branches.zip jobs).filterMap fun bj => if bj.1 then none else some bj.2
  | _, _ => jobs

/-- The `SELECT` of the completed rows: no row that is there is a failure. -/
def allCompletedOk (w : World) (jobs : List Uuid) : Bool :=
  jobs.all fun j => match w.completed j with
    | some c => c.status.isSuccessOrSkipped
    | none => true

/-- The last child of a parallel module: the final status of the module. -/
def parallelJoin (w : World) (flow : FlowValue) (old : FlowStatus) (p : InProgress)
    (jobs : List Uuid) (r : Report) (early : EarlyStop) (stored : FlowStatus) : Transition :=
  let module := currentModule flow old
  let status := FlowStatusModule.inProgress p
  let read := moduleAt stored old.step
  let flowJobsSuccess := recordSuccess (read.bind FlowStatusModule.flowJobsSuccess) jobs
    r.jobIdForStatus r.success
  let flowJobsDuration := (read.bind FlowStatusModule.flowJobsDuration).map fun d =>
    d.set (findFlowJobIndex jobs r.jobIdForStatus) r.flowJobDuration
  let (early', nresult) := stopAfterAllIters w module old status early
  let ok := !early'.isError && ((loopInfo module status).skipLoopFailures
    || allCompletedOk w (jobsFiltered module p.branchall jobs))
  let newStatus := if ok then
      FlowStatusModule.success
        { id := p.id, job := r.jobIdForStatus, flowJobs := some jobs, flowJobsSuccess,
          flowJobsDuration, branchChosen := none, approvers := [], failedRetries := [],
          skipped := early'.stopEarly && early'.skipIfStopEarly }
    else
      FlowStatusModule.failure
        { id := p.id, job := r.jobIdForStatus, flowJobs := some jobs, flowJobsSuccess,
          flowJobsDuration, branchChosen := none, failedRetries := [] }
  ⟨stored, ok, some newStatus, ok, early', nresult, !ok && flow.failureModule.isSome⟩

def parallelCounter (p : InProgress) : Except Error (Counter × ℕ) :=
  match p.iterator, p.branchall with
  | some it, _ => .ok (.iterator, it.len)
  | none, some b => .ok (.branchall, b.len)
  | none, none => .error ⟨"unexpected status for parallel module"⟩

def parallelCase (w : World) (flow : FlowValue) (old cur : FlowStatus) (p : InProgress)
    (jobs : List Uuid) (r : Report) (early : EarlyStop) : Except Error ModuleCase := do
  let position := recordPosition p.flowJobsSuccess jobs r.jobIdForStatus
  let (counter, len) ← parallelCounter p
  let (stored, nindex) ← bumpParallel cur old.step counter position r.success r.flowJobDuration
  if nindex = len then
    return .transition (parallelJoin w flow old p jobs r early stored)
  else
    let parallelism := (loopInfo (currentModule flow old) (.inProgress p)).parallelism
    return .nonLastParallelBranch stored (if parallelism.isSome then some nindex else none)

/-- The loop has a next iteration and goes on with it. The guard is the source's own, with `||`
binding weaker than `&&`. -/
def loopGoesOn (p : InProgress) (skipLoopFailures : Bool) (r : Report) (early : EarlyStop) : Bool :=
  match p.iterator with
  | some it =>
    (p.whileLoop || (decide (it.index + 1 < it.len) && (r.success || skipLoopFailures)))
      && !early.stopEarly
  | none => false

def branchallGoesOn (p : InProgress) (skipBranchFailure : Bool) (r : Report)
    (early : EarlyStop) : Bool :=
  match p.branchall with
  | some b => decide (b.branch < b.len - 1) && (r.success || skipBranchFailure) && !early.stopEarly
  | none => false

def loopBreak (info : LoopInfo) (early : EarlyStop) : EarlyStop :=
  if early.stopEarly && info.isLoop then
    { early with stopEarly := false, errMsg := none, skipIfStopEarly := false }
  else early

def endEarly (w : World) (flow : FlowValue) (old : FlowStatus) (status : FlowStatusModule)
    (early : EarlyStop) : EarlyStop × Option Json :=
  let module := currentModule flow old
  let info := loopInfo module status
  let early := loopBreak info early
  if info.isLoop || (isBranchAll status && !early.stopEarly) then
    stopAfterAllIters w module old status early
  else (early, none)

lemma endEarly_exclusive (h : e.Exclusive) : (endEarly w flow old status e).1.Exclusive := by
  have hbreak : ∀ info, (loopBreak info e).Exclusive := by
    intro info
    unfold loopBreak
    split_ifs
    · nofun
    · exact h
  unfold endEarly
  dsimp only
  split_ifs
  · exact stopAfterAllIters_exclusive (hbreak _)
  · exact hbreak _

lemma EarlyStop.Exclusive.no_error (h : e.Exclusive) (he : e.isError = false) :
    (e.stopEarly && e.errMsg.isSome) = false := by
  unfold EarlyStop.isError at he
  cases hm : e.errMsg.isSome with
  | false => simp
  | true => simpa [hm, h hm] using he

def skipsFailure (status : FlowStatusModule) : Bool :=
  (loopInfo module status).skipLoopFailures || skipSeqBranchFailure module status

def endsOk (flow : FlowValue) (old : FlowStatus) (status : FlowStatusModule) (r : Report)
    (early : EarlyStop) : Bool :=
  (r.success || (status.flowJobs.isSome && skipsFailure (currentModule flow old) status))
    && !early.isError

def continuesPast (w : World) (flow : FlowValue) (old : FlowStatus) (r : Report)
    (early : EarlyStop) : Except Error Bool :=
  if early.continueOnError then do
    let retry := ((currentModule flow old).bind FlowModule.retry).getD .default
    let again ← evaluateRetry w retry old.retry r.result w.flowJob.args none
    return again.isNone
  else .ok false

def endSuccesses (status : FlowStatusModule) (r : Report) : Option (List (Option Bool)) :=
  match status.flowJobs with
  | some jobs => recordSuccess status.flowJobsSuccess jobs r.jobIdForStatus r.success
  | none => status.flowJobsSuccess

def endDurations (status : FlowStatusModule) (r : Report) : Option FlowJobsDuration :=
  match status.flowJobs with
  | some jobs => status.flowJobsDuration.map fun d => d.set (findFlowJobIndex jobs r.jobIdForStatus)
      r.flowJobDuration
  | none => status.flowJobsDuration

def endCase (w : World) (flow : FlowValue) (old cur : FlowStatus) (status : FlowStatusModule)
    (r : Report) (early : EarlyStop) : Except Error Transition :=
  let module := currentModule flow old
  let (early, nresult) := endEarly w flow old status early
  if endsOk flow old status r early then
    let isIdentity := (module.bind FlowModule.skipIf).isSome && w.isIdentityJob r.jobIdForStatus
    let newStatus := FlowStatusModule.success
      { id := status.id, job := r.jobIdForStatus, flowJobs := status.flowJobs
        flowJobsSuccess := endSuccesses status r, flowJobsDuration := endDurations status r
        branchChosen := status.branchChosen, approvers := [], failedRetries := old.retry.failedJobs
        skipped := (early.stopEarly && early.skipIfStopEarly) || isIdentity }
    .ok ⟨cur, true, some newStatus, true, early, nresult, r.hasTriggeredErrorHandler⟩
  else do
    let inc ← continuesPast w flow old r early
    let newStatus := FlowStatusModule.failure
      { id := status.id, job := r.jobIdForStatus, flowJobs := status.flowJobs
        flowJobsSuccess := endSuccesses status r, flowJobsDuration := endDurations status r
        branchChosen := status.branchChosen, failedRetries := old.retry.failedJobs }
    let success := if early.stopEarly && early.errMsg.isSome then false else r.success
    return ⟨cur, inc, some newStatus, success, early, nresult, r.hasTriggeredErrorHandler⟩

structure Ends (w : World) (flow : FlowValue) (old cur : FlowStatus) (status : FlowStatusModule)
    (r : Report) (e : EarlyStop) (t : Transition) : Prop where
  stored : t.stored = cur
  early : t.early = (endEarly w flow old status e).1
  nresult : t.nresult = (endEarly w flow old status e).2
  success : t.success = endsOk flow old status r t.early
  flag : t.hasTriggeredErrorHandler = r.hasTriggeredErrorHandler
  ok : t.success = true → t.incStepCounter = true ∧ ∃ s : Success, t.newStatus = some (.success s) ∧
    s.id = status.id ∧ s.flowJobs = status.flowJobs ∧ s.failedRetries = old.retry.failedJobs
  failed : t.success = false → continuesPast w flow old r t.early = .ok t.incStepCounter ∧
    ∃ f : Failure, t.newStatus = some (.failure f) ∧ f.id = status.id ∧
      f.flowJobs = status.flowJobs ∧ f.job = r.jobIdForStatus ∧
      f.failedRetries = old.retry.failedJobs
  records : ∀ m, t.newStatus = some m → m.flowJobs = status.flowJobs ∧
    m.flowJobsSuccess = endSuccesses status r ∧ m.flowJobsDuration = endDurations status r

lemma endCase_ok (h : endCase w flow old cur status r early = .ok t) :
    Ends w flow old cur status r early t := by
  unfold endCase at h
  dsimp only at h
  by_cases hok : endsOk flow old status r (endEarly w flow old status early).1 = true
  · rw [if_pos hok] at h
    cases h
    exact ⟨rfl, rfl, rfl, hok.symm, rfl, fun _ => ⟨rfl, _, rfl, rfl, rfl, rfl⟩, fun h =>
      (by cases h), fun m hm => by cases hm; exact ⟨rfl, rfl, rfl⟩⟩
  rw [if_neg hok] at h
  rw [Bool.not_eq_true] at hok
  obtain ⟨inc, hinc, h⟩ := bind_eq_ok.mp h
  cases pure_eq_ok.mp h
  -- in this branch the report is a failure, or the step stops with an error
  have hsuccess : (if (endEarly w flow old status early).1.stopEarly
      && (endEarly w flow old status early).1.errMsg.isSome then false else r.success) = false := by
    unfold endsOk EarlyStop.isError at hok
    split_ifs with hs
    · rfl
    · rw [Bool.not_eq_true] at hs
      rw [hs] at hok
      simp only [Bool.false_and, Bool.not_false, Bool.and_true, Bool.or_eq_false_iff] at hok
      exact hok.1
  exact ⟨rfl, rfl, rfl, hsuccess.trans hok.symm, rfl, fun h =>
    absurd (hsuccess.symm.trans h) (by decide),
    fun _ => ⟨hinc, _, rfl, rfl, rfl, rfl, rfl⟩, fun m hm => by cases hm; exact ⟨rfl, rfl, rfl⟩⟩

/-- A child of a parallel module counts itself, and makes the transition of the module if it brings
the counter to the length. -/
lemma parallelCase_ok {jobs c} (h : parallelCase w flow old cur p jobs r early = .ok c) :
    ∃ counter len stored nindex, parallelCounter p = .ok (counter, len) ∧
      bumpParallel cur old.step counter (recordPosition p.flowJobsSuccess jobs r.jobIdForStatus)
        r.success r.flowJobDuration = .ok (stored, nindex) ∧
      c = if nindex = len then .transition (parallelJoin w flow old p jobs r early stored)
        else .nonLastParallelBranch stored
          (if (loopInfo (currentModule flow old) (.inProgress p)).parallelism.isSome
            then some nindex else none) := by
  obtain ⟨⟨counter, len⟩, hctr, h⟩ := bind_eq_ok.mp h
  obtain ⟨⟨stored, nindex⟩, hbump, h⟩ := bind_eq_ok.mp h
  refine ⟨counter, len, stored, nindex, hctr, hbump, ?_⟩
  dsimp only at h
  by_cases hlast : nindex = len
  · rw [if_pos hlast] at h ⊢
    exact (pure_eq_ok.mp h).symm
  · rw [if_neg hlast] at h ⊢
    exact (pure_eq_ok.mp h).symm

inductive StepCase where
  | parallel (p : InProgress) (jobs : List Uuid)
  | goesOn (p : InProgress)
  | ends

def stepCase (flow : FlowValue) (old : FlowStatus) (status : FlowStatusModule) (r : Report)
    (early : EarlyStop) : StepCase :=
  let module := currentModule flow old
  match status with
  | .inProgress p =>
    match p.parallel, p.flowJobs with
    | true, some jobs => .parallel p jobs
    | _, _ =>
      if loopGoesOn p (loopInfo module status).skipLoopFailures r early then .goesOn p
      else if branchallGoesOn p (skipSeqBranchFailure module status) r early then .goesOn p
      else .ends
  | _ => .ends

lemma stepCase_goesOn (h : stepCase flow old status r early = .goesOn p) :
    status = .inProgress p ∧ early.stopEarly = false ∧
      (loopGoesOn p (loopInfo (currentModule flow old) status).skipLoopFailures r early = true ∨
        branchallGoesOn p (skipSeqBranchFailure (currentModule flow old) status) r early =
          true) := by
  unfold stepCase at h
  cases status with
  | inProgress q =>
    dsimp only at h
    split at h
    · cases h
    split_ifs at h with hl hb
    · cases h
      refine ⟨rfl, ?_, .inl hl⟩
      unfold loopGoesOn at hl
      cases hi : p.iterator with
      | none => simp [hi] at hl
      | some it => rw [hi] at hl; simp only [Bool.and_eq_true] at hl; simpa using hl.2
    · cases h
      refine ⟨rfl, ?_, .inr hb⟩
      unfold branchallGoesOn at hb
      cases hi : p.branchall with
      | none => simp [hi] at hb
      | some b => rw [hi] at hb; simp only [Bool.and_eq_true] at hb; simpa using hb.2
  | _ => cases h

lemma stepCase_parallel {jobs} (h : stepCase flow old status r early = .parallel p jobs) :
    status = .inProgress p ∧ p.parallel = true ∧ p.flowJobs = some jobs := by
  unfold stepCase at h
  cases status with
  | inProgress q =>
    dsimp only at h
    split at h
    · rename_i hpar hjobs
      cases h
      exact ⟨rfl, hpar, hjobs⟩
    · split_ifs at h
  | _ => cases h

def moduleTransition (w : World) (flow : FlowValue) (old cur : FlowStatus)
    (status : FlowStatusModule) (r : Report) (early : EarlyStop) : Except Error ModuleCase :=
  match stepCase flow old status r early with
  | .parallel p jobs => parallelCase w flow old cur p jobs r early
  | .goesOn p =>
    .ok (.transition ⟨setSuccessInFlowJobs cur old.step p r, false, none, r.success, early,
      none, r.hasTriggeredErrorHandler⟩)
  | .ends => (endCase w flow old cur status r early).map .transition

lemma moduleTransition_tracks
    (h : moduleTransition w flow old cur status r early = .ok (.transition t)) :
    Tracks cur t.stored := by
  unfold moduleTransition at h
  cases hcase : stepCase flow old status r early with
  | parallel p jobs =>
    rw [hcase] at h
    obtain ⟨counter, len, stored, nindex, -, hbump, hc⟩ := parallelCase_ok h
    split_ifs at hc
    rw [ModuleCase.transition.inj hc]
    exact tracks_bumpParallel hbump
  | goesOn p =>
    rw [hcase] at h
    cases h
    exact tracks_setSuccessInFlowJobs cur old.step p r
  | ends =>
    rw [hcase] at h
    obtain ⟨t', hend, ht⟩ := map_eq_ok.mp h
    cases ht
    rw [(endCase_ok hend).stored]
    exact Tracks.refl cur

/-- **What the handler decides about the module**, on the report `r` and the early stop `early`. -/
inductive Settled (w : World) (flow : FlowValue) (old : FlowStatus) (status : FlowStatusModule)
    (r : Report) (early : EarlyStop) (t : Transition) : Prop
  | goesOn {p : InProgress} (hcase : stepCase flow old status r early = .goesOn p)
      (hnew : t.newStatus = none) (hinc : t.incStepCounter = false)
      (hsuccess : t.success = r.success)
      (hearly : t.early = early)
      (hflag : t.hasTriggeredErrorHandler = r.hasTriggeredErrorHandler)
  | ok {s : Success} (hnew : t.newStatus = some (.success s)) (hinc : t.incStepCounter = true)
      (hsuccess : t.success = true) (hearly : (t.early.stopEarly && t.early.errMsg.isSome) = false)
      (hretries : ∀ job ∈ s.failedRetries, job ∈ old.retry.failedJobs)
  | failed {f : Failure} (hnew : t.newStatus = some (.failure f)) (hjob : f.job = r.jobIdForStatus)
      (hsuccess : t.success = false) (hretries : ∀ job ∈ f.failedRetries,
        job ∈ old.retry.failedJobs)
      (hinc : t.incStepCounter = true → continuesPast w flow old r t.early = .ok true ∧
        t.early = (endEarly w flow old status early).1 ∧ endsOk flow old status r t.early = false)

lemma parallelJoin_settled (w : World) (flow : FlowValue) (old : FlowStatus)
    (status : FlowStatusModule)
    (p : InProgress) (jobs : List Uuid) (r : Report) (hearly : early.Exclusive)
    (stored : FlowStatus) :
    Settled w flow old status r early (parallelJoin w flow old p jobs r early stored) := by
  unfold parallelJoin
  dsimp only
  split_ifs with hok
  · have hno := (stopAfterAllIters_exclusive hearly).no_error (by
      simpa using (Bool.and_eq_true_iff.mp hok).1)
    exact .ok rfl hok hok hno nofun
  · exact .failed rfl rfl (Bool.not_eq_true _ |>.mp hok) nofun
      fun hinc => absurd hinc hok

lemma moduleTransition_settled (hearly : early.Exclusive)
    (h : moduleTransition w flow old cur status r early = .ok (.transition t)) :
    Settled w flow old status r early t := by
  unfold moduleTransition at h
  cases hcase : stepCase flow old status r early with
  | parallel p jobs =>
    rw [hcase] at h
    obtain ⟨counter, len, stored, nindex, -, -, hc⟩ := parallelCase_ok h
    split_ifs at hc
    rw [ModuleCase.transition.inj hc]
    exact parallelJoin_settled w flow old status p jobs r hearly stored
  | goesOn p =>
    rw [hcase] at h
    cases h
    exact .goesOn hcase rfl rfl rfl rfl rfl
  | ends =>
    rw [hcase] at h
    obtain ⟨t', hend, ht⟩ := map_eq_ok.mp h
    cases ht
    have hends := endCase_ok hend
    cases hs : t.success with
    | true =>
      obtain ⟨hinc, s, hnew, -, -, hretries⟩ := hends.ok hs
      have hno : t.early.isError = false := by
        have hok := hends.success.symm.trans hs
        simpa using (Bool.and_eq_true_iff.mp hok).2
      have hex : t.early.Exclusive := hends.early ▸ endEarly_exclusive hearly
      exact .ok hnew hinc hs (hex.no_error hno) fun job hjob => hretries ▸ hjob
    | false =>
      obtain ⟨hpast, f, hnew, -, -, hjob, hretries⟩ := hends.failed hs
      exact .failed hnew hjob hs (fun job hjob => hretries ▸ hjob)
        fun hinc => ⟨hinc ▸ hpast, hends.early, hends.success ▸ hs⟩

lemma endEarly_of_module {w flow old status early} :
    (endEarly w flow old status early).1.continueOnError = early.continueOnError ∧
      ((endEarly w flow old status early).1.errMsg.isSome → early.errMsg.isSome ∨
        ∃ m s, currentModule flow old = some m ∧ m.stopAfterAllItersIf = some s) := by
  have hbreak : ∀ info, (loopBreak info early).continueOnError = early.continueOnError ∧
      ((loopBreak info early).errMsg.isSome → early.errMsg.isSome) := by
    intro info
    unfold loopBreak
    split_ifs
    · exact ⟨rfl, nofun⟩
    · exact ⟨rfl, id⟩
  obtain ⟨hcont, hmsg⟩ := hbreak (loopInfo (currentModule flow old) status)
  unfold endEarly
  dsimp only
  split_ifs
  · generalize loopBreak (loopInfo (currentModule flow old) status) early = e at hcont hmsg ⊢
    unfold stopAfterAllIters
    cases hm : currentModule flow old with
    | none => exact ⟨hcont, fun h => .inl (hmsg h)⟩
    | some m =>
      cases hs : m.stopAfterAllItersIf with
      | none =>
        simp only [Option.bind_some, hs]
        exact ⟨hcont, fun h => .inl (hmsg h)⟩
      | some stop =>
        refine ⟨?_, fun _ => .inr ⟨m, stop, rfl, hs⟩⟩
        simp only [Option.bind_some, hs]
        split
        · exact hcont
        · split <;> exact hcont
  · exact ⟨hcont, fun h => .inl (hmsg h)⟩

lemma continuesPast_ok (hearly : earlyStop w flow old status r = .ok early)
    (he : e = (endEarly w flow old status early).1)
    (hpast : continuesPast w flow old r e = .ok true)
    (hends : endsOk flow old status r e = false) : ∃ m, currentModule flow old = some m ∧
    m.continuesOnError = true ∧
    (r.success = true → m.stopAfterIf.isSome ∨ m.stopAfterAllItersIf.isSome) := by
  obtain ⟨hcont, hmsg⟩ := @endEarly_of_module w flow old status early
  rw [← he] at hcont hmsg
  have hc : early.continueOnError = true := by
    unfold continuesPast at hpast
    split_ifs at hpast with h
    · exact hcont ▸ h
    · cases hpast
  obtain ⟨m, hm, hm'⟩ := (earlyStop_ok hearly).2.1 hc
  refine ⟨m, hm, hm', fun hsuccess => ?_⟩
  -- a step that was reported as a success only fails by stopping with an error
  have herr : e.errMsg.isSome = true := by
    unfold endsOk EarlyStop.isError at hends
    rw [hsuccess] at hends
    simp only [Bool.true_or, Bool.true_and, Bool.not_eq_false', Bool.and_eq_true] at hends
    exact hends.1.2
  rcases hmsg herr with h | ⟨m', stop, hm'', hs⟩
  · obtain ⟨-, m', stop, hm'', hs⟩ := (earlyStop_ok hearly).2.2 h
    rw [hm] at hm''
    cases hm''
    exact .inl (by rw [hs]; rfl)
  · rw [hm] at hm''
    cases hm''
    exact .inr (by rw [hs]; rfl)

lemma moduleTransition_nonLast (h : moduleTransition w flow old cur status r early =
      .ok (.nonLastParallelBranch stored release)) :
    Tracks cur stored ∧ ∃ p, status = .inProgress p ∧ p.parallel = true := by
  unfold moduleTransition at h
  cases hcase : stepCase flow old status r early with
  | parallel p jobs =>
    rw [hcase] at h
    obtain ⟨counter, len, stored', nindex, -, hbump, hc⟩ := parallelCase_ok h
    by_cases hlast : nindex = len
    · simp [if_pos hlast] at hc
    · rw [if_neg hlast] at hc
      cases hc
      obtain ⟨hst, hpar, -⟩ := stepCase_parallel hcase
      exact ⟨tracks_bumpParallel hbump, p, hst, hpar⟩
  | goesOn p => simp [hcase] at h
  | ends =>
    rw [hcase] at h
    obtain ⟨t', -, ht⟩ := map_eq_ok.mp h
    cases ht

/-! ### The transaction -/

def isLastStep (old : FlowStatus) (stepCounter : ℤ) : Bool :=
  decide (stepCounter < 0) || decide ((old.modules.length : ℤ) ≤ stepCounter)

def writeModule (old stored : FlowStatus) (newStatus : FlowStatusModule) : FlowStatus :=
  if isFailureStep old then
    { stored with failureModule := ⟨stored.failureModule.parentModule, newStatus⟩ }
  else if old.moduleStep.isPreprocessorStep then
    { stored with preprocessorModule := some newStatus }
  else stored.setModule old.step newStatus

def countStep (old : FlowStatus) (t : Transition) : FlowStatus :=
  if t.incStepCounter then { t.stored with step := old.step + 1 } else t.stored

def clearRetry (old : FlowStatus) (newStatus : FlowStatusModule) (written : FlowStatus) :
    FlowStatus :=
  match newStatus with
  | .success _ => if 0 < old.retry.failCount then { written with retry := .default } else written
  | _ => written

def commitTransition (old : FlowStatus) (t : Transition) : FlowStatus :=
  match t.newStatus with
  | some m => clearRetry old m (writeModule old (countStep old t) m)
  | none => countStep old t

section Commit

variable {s : FlowStatus} {m : FlowStatusModule}

@[simp] lemma countStep_modules : (countStep old t).modules = t.stored.modules := by
  unfold countStep
  split_ifs <;> rfl

@[simp] lemma countStep_retry : (countStep old t).retry = t.stored.retry := by
  unfold countStep
  split_ifs <;> rfl

@[simp] lemma writeModule_step : (writeModule old s m).step = s.step := by
  unfold writeModule
  split_ifs <;> rfl

@[simp] lemma writeModule_retry : (writeModule old s m).retry = s.retry := by
  unfold writeModule
  split_ifs <;> rfl

@[simp] lemma clearRetry_step : (clearRetry old m s).step = s.step := by
  unfold clearRetry
  split
  · split_ifs <;> rfl
  · rfl

@[simp] lemma clearRetry_modules : (clearRetry old m s).modules = s.modules := by
  unfold clearRetry
  split
  · split_ifs <;> rfl
  · rfl

lemma commitTransition_step :
    (commitTransition old t).step = if t.incStepCounter then old.step + 1 else t.stored.step := by
  have hcnt : (countStep old t).step = if t.incStepCounter then old.step + 1
      else t.stored.step := by
    unfold countStep
    split_ifs <;> rfl
  unfold commitTransition
  cases t.newStatus with
  | none => exact hcnt
  | some m => simp [hcnt]

lemma commitTransition_retry : (commitTransition old t).retry = match t.newStatus with
      | some (.success _) => if 0 < old.retry.failCount then .default else t.stored.retry
      | _ => t.stored.retry := by
  unfold commitTransition
  cases t.newStatus with
  | none => simp
  | some m =>
    cases m with
    | success s =>
      dsimp only [clearRetry]
      split_ifs
      · rfl
      · simp
    | _ => simp [clearRetry]

end Commit

/-- The result the handler goes on with: the error of an early stop, the results of all children of
a module that has several, or the reported result. -/
def stepResult (w : World) (r : Report) (early : EarlyStop) (nresult : Option Json)
    (flowJobs : Option (List Uuid)) : Except Error Json :=
  match early.stopEarly, early.errMsg with
  | true, some message => .ok (earlyStopResult message)
  | _, _ =>
    match nresult with
    | some n => .ok n
    | none =>
      match flowJobs with
      | some jobs => retrieveFlowJobsResults w jobs
      | none => .ok r.result

structure Committed where
  status : FlowStatus
  transition : Transition
  nresult : Json

inductive Update where
  | nonLastParallelBranch (status : FlowStatus) (release : Option ℕ)
  | committed (c : Committed)

/-- The report with the flag that a `flow` step resets. -/
def enteringReport (flow : FlowValue) (old : FlowStatus) (r : Report) : Report :=
  if ((currentModule flow old).map FlowModule.isFlow).getD false then
    { r with hasTriggeredErrorHandler := false }
  else r

@[simp] lemma enteringReport_jobIdForStatus (flow : FlowValue) (old : FlowStatus) (r : Report) :
    (enteringReport flow old r).jobIdForStatus = r.jobIdForStatus := by
  unfold enteringReport
  split_ifs <;> rfl

@[simp] lemma enteringReport_result (flow : FlowValue) (old : FlowStatus) (r : Report) :
    (enteringReport flow old r).result = r.result := by
  unfold enteringReport
  split_ifs <;> rfl

@[simp] lemma enteringReport_success (flow : FlowValue) (old : FlowStatus) (r : Report) :
    (enteringReport flow old r).success = r.success := by
  unfold enteringReport
  split_ifs <;> rfl

@[simp] lemma enteringReport_flowJobDuration (flow : FlowValue) (old : FlowStatus) (r : Report) :
    (enteringReport flow old r).flowJobDuration = r.flowJobDuration := by
  unfold enteringReport
  split_ifs <;> rfl

/-- The handler up to its commit. An error rolls the transaction back. -/
def updateStatus (w : World) (flow : FlowValue) (old cur : FlowStatus) (r : Report) :
    Except Error Update := do
  let r := enteringReport flow old r
  let status ← moduleStatus old
  let early ← earlyStop w flow old status r
  match ← moduleTransition w flow old cur status r early with
  | .nonLastParallelBranch stored release => return .nonLastParallelBranch stored release
  | .transition t =>
    let nresult ← stepResult w r t.early t.nresult (t.newStatus.bind FlowStatusModule.flowJobs)
    return .committed ⟨commitTransition old t, t, nresult⟩

lemma updateStatus_committed {c} (h : updateStatus w flow old cur r = .ok (.committed c)) :
    ∃ status early, moduleStatus old = .ok status ∧
      earlyStop w flow old status (enteringReport flow old r) = .ok early ∧
      moduleTransition w flow old cur status (enteringReport flow old r) early = .ok
      (.transition c.transition) ∧
      stepResult w (enteringReport flow old r) c.transition.early c.transition.nresult
        (c.transition.newStatus.bind FlowStatusModule.flowJobs) = .ok c.nresult ∧
      c.status = commitTransition old c.transition := by
  obtain ⟨status, hst, h⟩ := bind_eq_ok.mp h
  obtain ⟨early, hearly, h⟩ := bind_eq_ok.mp h
  obtain ⟨case, hcase, h⟩ := bind_eq_ok.mp h
  cases case with
  | nonLastParallelBranch stored release => cases pure_eq_ok.mp h
  | transition t =>
    obtain ⟨nresult, hres, h⟩ := bind_eq_ok.mp h
    cases pure_eq_ok.mp h
    exact ⟨status, early, hst, hearly, hcase, hres, rfl⟩

lemma updateStatus_counted
    (h : updateStatus w flow old cur r = .ok (.nonLastParallelBranch status' release)) :
    ∃ status early, moduleStatus old = .ok status ∧
      moduleTransition w flow old cur status (enteringReport flow old r) early
        = .ok (.nonLastParallelBranch status' release) := by
  obtain ⟨status, hst, h⟩ := bind_eq_ok.mp h
  obtain ⟨early, -, h⟩ := bind_eq_ok.mp h
  obtain ⟨case, hcase, h⟩ := bind_eq_ok.mp h
  cases case with
  | nonLastParallelBranch stored release' =>
    cases pure_eq_ok.mp h
    exact ⟨status, early, hst, hcase⟩
  | transition t =>
    obtain ⟨nresult, -, h⟩ := bind_eq_ok.mp h
    cases pure_eq_ok.mp h

lemma updateStatus_nonLastParallelBranch
    (h : updateStatus w flow old cur r = .ok (.nonLastParallelBranch status' release)) :
    Tracks cur status' ∧ ∃ p, moduleStatus old = .ok (.inProgress p) ∧ p.parallel = true := by
  obtain ⟨status, early, hst, hcase⟩ := updateStatus_counted h
  obtain ⟨htr, p, rfl, hpar⟩ := moduleTransition_nonLast hcase
  exact ⟨htr, p, hst, hpar⟩

/-! ### Does the flow go on -/

/-- `should_retry`: the retry decision of the handler. -/
def shouldRetry (w : World) (flow : FlowValue) (old : FlowStatus) (r : Report) :
    Except Error Bool :=
  let retry := match flow.getFlowModuleAtStep old.moduleStep with
    | .ok m => m.retry.getD .default
    | .error _ => .default
  (evaluateRetry w retry old.retry r.result w.flowJob.args none).map Option.isSome

def shouldContinueFlow (w : World) (flow : FlowValue) (old : FlowStatus) (r : Report)
    (t : Transition) : Except Error Bool :=
  let stepCounter := if t.incStepCounter then old.step + 1 else old.step
  let skipFailure := match moduleStatus old with
    | .ok status => skipsFailure (currentModule flow old) status
    | .error _ => false
  if t.early.stopEarly then .ok (t.early.errMsg.isSome && flow.failureModule.isSome)
  else if w.flowJob.isCanceled then .ok false
  else if t.success then .ok (!isLastStep old stepCounter)
  else if r.unrecoverable then .ok false
  else if skipFailure || t.early.continueOnError then .ok (!isLastStep old stepCounter)
  else do
    let retry ← shouldRetry w flow old r
    return retry || (!isFailureStep old && !t.hasTriggeredErrorHandler && flow.failureModule.isSome)

lemma shouldContinueFlow_of_success (hsuccess : t.success = true) (hinc : t.incStepCounter = true)
    (hearly : (t.early.stopEarly && t.early.errMsg.isSome) = false) :
    ∃ goesOn, shouldContinueFlow w flow old r t = .ok goesOn ∧
    (goesOn = true → old.step + 1 < old.modules.length) := by
  unfold shouldContinueFlow
  by_cases hstop : t.early.stopEarly = true
  · rw [if_pos hstop]
    rw [hstop, Bool.true_and] at hearly
    exact ⟨_, rfl, fun h => by simp [hearly] at h⟩
  rw [if_neg hstop]
  by_cases hcan : w.flowJob.isCanceled = true
  · rw [if_pos hcan]
    exact ⟨_, rfl, nofun⟩
  · rw [if_neg hcan, if_pos hsuccess, hinc]
    refine ⟨_, rfl, fun h => ?_⟩
    simp only [isLastStep, Bool.not_eq_true', Bool.or_eq_false_iff, decide_eq_false_iff_not,
      not_le] at h
    exact h.2

end Windmill.Flow.Completion
