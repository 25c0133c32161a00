import Windmill.Flow.Suspend
import Windmill.Flow.Transform

/-! # Pushing the next jobs of a flow

`push_next_flow_job` (`windmill-worker/src/worker_flow.rs`) ends the flow, parks it at the approval
gate, or starts the module under the step counter: a retry of it, the failure module in its place,
the next iteration of it. Some of its writes stay when a later part fails, so the functions here
return the database together with their outcome. -/

namespace Windmill.Flow.Push

open Value Status Reads Flow.Suspend Transform Lib.Except

/-- A job pushed for a step, as it enters the queue. -/
structure QueuedJob where
  id : Uuid
  flowStepId : String
  payload : JobPayload
  suspend : ℕ

/-- The rows of a flow that the engine writes: its status, its queue row, the approvals, the values
a loop runs over, and the jobs pushed so far. -/
structure FlowDb where
  status : FlowStatus
  suspend : ℤ
  suspendUntil : Bool
  resumeJobs : List ResumeRow
  iteratorData : Option (List Json)
  queued : List QueuedJob

def freshDb (flow : FlowValue) : FlowDb := ⟨.new flow, 0, false, [], none, []⟩

/-- `UpdateFlow`: a flow that moves on without a job. -/
structure UpdateFlow where
  success : Bool
  result : Json
  stopEarlyOverride : Option Bool

/-- The outcome of a push: call it `again` on the new status (`Rec`), or be done with it. -/
inductive PushNextFlowJob where
  | again
  | done (update : Option UpdateFlow)

def statusModuleAt (step : Step) (status : FlowStatus) : FlowStatusModule :=
  match step with
  | .step i _ => (status.modules[i]?).getD status.failureModule.moduleStatus
  | .preprocessorStep => status.preprocessorModule.getD status.failureModule.moduleStatus
  | .failureStep => status.failureModule.moduleStatus

def noResult : Json := .str "\x7b\x7d"

/-! ### Flows that end without a job -/

variable (w : World)

def completedUpdate (flow : FlowValue) (statusModule : FlowStatusModule)
    (lastResult : Option Json) : UpdateFlow :=
  { success := true
    result := if flow.modules.isEmpty then .obj w.flowJob.args
      else match statusModule with
        | .success s => if s.branchChosen.isSome then lastResult.getD noResult else .arr []
        | _ => .arr []
    stopEarlyOverride := none }

def Step.isFirst : Step → Bool
  | .step 0 _ => true
  | _ => false

/-- The checks made at the first module: runs that must not overlap, and `skip_expr`. -/
def startChecks (flow : FlowValue) (flowEnv : Option Args) (step : Step) :
    Except Error (Option UpdateFlow) :=
  if Step.isFirst step then
    match w.overlapping with
    | some runs => .ok (some ⟨true,
        .str ("not allowed to overlap with " ++ runs ++ ", scheduling next iteration"), some true⟩)
    | none => match flow.skipExpr with
      | none => .ok none
      | some expr => do
        if ← computeBoolFromExpr w expr ⟨w.flowJob.args, flowEnv, noResult, none, none, none⟩ then
          return some ⟨true, .str "stopped early", some true⟩
        else return none
  else .ok none

/-! ### The result the module starts from -/

variable (status : FlowStatus)

def getPreviousJobResult : Except Error (Option Json) :=
  if status.step < 1 then .error ⟨"No step preceding the current one"⟩
  else match status.modules[status.step.toNat - 1]? with
    | some (.success s) => match s.flowJobs with
      | some jobs => (retrieveFlowJobsResults w jobs).map some
      | none =>
        if s.job == nilUuid then .ok none
        else match w.completed s.job with
          | some c => .ok (some c.result)
          | none => .error ⟨"no rows returned"⟩
    | _ => .ok none

def lastJobResult (step : Step) (status : FlowStatus) (statusModule : FlowStatusModule)
    (lastResult : Option Json) : Except Error Json :=
  if statusModule.isFailure then .ok (lastResult.getD noResult)
  else if Step.isFirst step || step.isPreprocessorStep then .ok (.obj w.flowJob.args)
  else match lastResult with
    | some r => .ok r
    | none => (getPreviousJobResult w status).map fun r => r.getD noResult

/-- `evaluate_input_transform`, read as the type that `parse` reads. -/
def evaluateInputTransform {α : Type} (w : World) (transform : InputTransform) (ctx : EvalContext)
    (parse : Json → Option α) (default : α) : Except Error α :=
  match transform with
  | .static value => match parse value with
    | some a => .ok a
    | none => .error ⟨"Error parsing static value"⟩
  | .javascript expr => match w.evalTimeout expr ctx with
    | .error e => .error ⟨"Error during evaluation of expression `" ++ expr ++ "`:\n" ++ e.message⟩
    | .ok value => match parse value with
      | some a => .ok a
      | none => .error ⟨"Error parsing result"⟩
  | .ai => .ok default

/-- `sleep` of the module before: only its errors matter here, the delay is a time. -/
def checkSleep (flow : FlowValue) (flowEnv : Option Args) (step : Step)
    (statusModule : FlowStatusModule) (lastResult : Json) : Except Error Unit :=
  let sleep := match statusModule.isWaiting, step with
    | true, .step (i + 1) _ => (flow.modules[i]?).bind FlowModule.sleep
    | _, _ => none
  match sleep with
  | none => .ok ()
  | some transform =>
    match evaluateInputTransform w transform ⟨w.flowJob.args, flowEnv, lastResult, none, none, none⟩
        some .null with
    | .ok (.num text) =>
      -- a negative integer is neither an `f64` nor a `u64`
      if text.startsWith "-" && !containsText text "." && !containsText text "e" then
        .error ⟨"Expected an integer, found: " ++ text⟩
      else .ok ()
    | .ok _ => .error ⟨"Expected an integer, found: "⟩
    | .error e => .error ⟨"Expected a number value, had error instead: " ++ e.message⟩

/-! ### Retries and the failure module -/

structure Start where
  step : Step
  module : FlowModule
  statusModule : FlowStatusModule
  previousId : String
  isRetry : Bool
  currentId : String

def pushRetry (flowEnv : Option Args) (status : FlowStatus) (module : FlowModule)
    (statusModule : FlowStatusModule) (lastResult : Json) : Except Error (Option (ℕ × ℕ)) :=
  if statusModule.isFailure then
    evaluateRetry w (module.retry.getD .default) status.retry lastResult w.flowJob.args flowEnv
  else .ok none

def retryStatus (failCount : ℕ) (job : Uuid) : FlowStatus :=
  let failedJobs := status.retry.failedJobs ++ [job]
  { status.modifyModule status.step (.setFailedRetries failedJobs) with
    retry := ⟨failCount, failedJobs⟩ }

def failureStatus (failureModule : FlowModule) : FlowStatus :=
  if (failureModule.retry.map Retry.hasAttempts).getD false then { status with retry := .default }
  else status

def previousModuleId (flow : FlowValue) (step : Step) : String :=
  match step with
  | .step (i + 1) _ => ((flow.modules[i]?).map FlowModule.id).getD ""
  | _ => ""

/-- The module to start: the one under the step counter, or the failure module if it failed for
good. -/
def chooseModule (flow : FlowValue) (flowEnv : Option Args) (step : Step)
    (statusModule : FlowStatusModule) (lastResult : Json) (status : FlowStatus) :
    Except Error (FlowStatus × Start) := do
  let module ← flow.getFlowModuleAtStep step
  checkSleep w flow flowEnv step statusModule lastResult
  let retry ← pushRetry w flowEnv status module statusModule lastResult
  let start : Start := ⟨step, module, statusModule, previousModuleId flow step, false, module.id⟩
  match statusModule with
  | .failure f =>
    match retry with
    | some (failCount, _) =>
      return (retryStatus status failCount f.job,
        { start with statusModule := .waitingForPriorSteps statusModule.id, isRetry := true })
    | none =>
      if module.continuesOnError then return (status, start)
      else match flow.failureModule with
        | none => throw ⟨"missing failure module"⟩
        | some failureModule =>
          return (failureStatus status failureModule,
            { start with
              step := .failureStep, module := failureModule
              statusModule := status.failureModule.moduleStatus, previousId := module.id })
  | _ => return (status, start)

/-! ### The jobs -/

def digitsValue : List Char → ℕ → Option ℕ
  | [], n => some n
  | c :: cs, n => if c.isDigit then digitsValue cs (10 * n + (c.toNat - '0'.toNat)) else none

def jsonU16 : Json → Option ℕ
  | .num text => match digitsValue text.toList 0 with
    | some n => if n < u16Size then some n else none
    | none => none
  | _ => none

def parallelismSuspend (parallelism i : ℕ) : ℕ :=
  if parallelism ≤ i % u16Size then i % u16Size - parallelism + 1 else 0

def jobSuspend (flowEnv : Option Args) (status : FlowStatus) (start : Start)
    (lastResult : Json) (i : ℕ) : Except Error ℕ :=
  match start.module.forloopParallelism with
  | none => .ok 0
  | some transform => do
    let parallelism ← evaluateInputTransform w transform
      ⟨w.flowJob.args, flowEnv, lastResult, none,
        some (getTransformContext w.flowJob.id start.previousId status), none⟩ jsonU16 0
    return parallelismSuspend parallelism i

def pushJobs (w : World) (flowEnv : Option Args) (status : FlowStatus) (start : Start)
    (lastResult : Json) : ℕ → List JobPayload → Except Error (List QueuedJob)
  | _, [] => .ok []
  | i, payload :: payloads => do
    w.pushJob start.module i
    let suspend ← jobSuspend w flowEnv status start lastResult i
    let jobs ← pushJobs w flowEnv status start lastResult (i + 1) payloads
    return ⟨w.newUuid i, start.module.id, payload, suspend⟩ :: jobs

def oneUuid (uuids : List Uuid) : Except Error Uuid :=
  match uuids with
  | [uuid] => .ok uuid
  | _ => .error ⟨"Expected only one uuid"⟩

def newStatusModule (id : String) (next : NextStatus) (uuids : List Uuid) :
    Except Error (FlowStatusModule × Option (List Json)) :=
  match next with
  | .nextLoopIteration n => do
    let uuid ← oneUuid uuids
    let (itered, table) := if w.separateIterData then (none, some n.itered)
      else (some n.itered, none)
    return (.inProgress
      { id, job := uuid, iterator := some ⟨n.index, itered, some n.iteredLen⟩
        flowJobs := some (n.flowJobs ++ [uuid])
        flowJobsSuccess := n.flowJobsSuccess.map fun l => l ++ [none]
        flowJobsDuration := n.flowJobsDuration.map FlowJobsDuration.pushNone
        branchChosen := none, branchall := none, parallel := false, whileLoop := n.whileLoop },
        table)
  | .allFlowJobs branchall iterator =>
    .ok (.inProgress
      { id, job := w.flowJob.id, iterator := iterator.map fun it => { it with itered := none }
        flowJobs := some uuids
        flowJobsSuccess := some (List.replicate uuids.length none)
        flowJobsDuration := some (.new uuids.length)
        branchChosen := none, branchall, parallel := true, whileLoop := false }, none)
  | .nextBranchStep n => do
    let uuid ← oneUuid uuids
    return (.inProgress
      { id, job := uuid, iterator := none
        flowJobs := some (n.flowJobs ++ [uuid])
        flowJobsSuccess := n.flowJobsSuccess.map fun l => l ++ [none]
        flowJobsDuration := n.flowJobsDuration.map FlowJobsDuration.pushNone
        branchChosen := none, branchall := some n.status, parallel := false, whileLoop :=
        false }, none)
  | .branchChosen branch => do
    let uuid ← oneUuid uuids
    return (.inProgress
      { id, job := uuid, iterator := none, flowJobs := none, flowJobsSuccess := none
        flowJobsDuration := none, branchChosen := some branch, branchall := none
        parallel := false, whileLoop := false }, none)
  | .nextStep => do
    let uuid ← oneUuid uuids
    return (.waitingForExecutor id uuid, none)

def writePushed (flow : FlowValue) (start : Start) (m : FlowStatusModule) (status : FlowStatus) :
    FlowStatus :=
  match start.step with
  | .failureStep => { status with failureModule := ⟨some start.currentId, m⟩, step :=
      flow.modules.length }
  | .preprocessorStep => { status with preprocessorModule := some m, step := -1 }
  | .step i _ => { status.setModule i m with step := i }

def continueOnSameWorker (flow : FlowValue) (module : FlowModule) : Bool :=
  (flow.sameWorker || w.flowJob.sameWorker) && module.suspend.isNone && module.sleep.isNone

def emptyInnerFlows (id : String) (branchChosen : Option BranchChosen) : FlowStatus :=
  let none' := branchChosen.isSome
  status.setModule status.step (.success
    { id, job := nilUuid
      flowJobs := if none' then none else some []
      flowJobsSuccess := if none' then none else some []
      flowJobsDuration := if none' then none else some (.new 0)
      branchChosen, approvers := [], failedRetries := [], skipped := false })

/-- The arguments of the jobs can be computed at all: the value of the module must be readable
unless they come from elsewhere. -/
def checkArgs (start : Start) : Except Error Unit :=
  if start.module.isMocked || start.isRetry || start.step.isPreprocessorStep
      || start.module.passFlowInputDirectly.getD false then .ok ()
  else match start.module.getValue with
    | .ok _ => .ok ()
    | .error e => .error ⟨"module was not convertible to acceptable value " ++ e.message⟩

def isSkipped (i : TransformInput) (module : FlowModule) : Except Error Bool :=
  match module.skipIf with
  | some expr => computeBoolFromExpr w expr (i.context w)
  | none => .ok false

/-- The transaction that pushes the jobs and writes the new status. -/
def commitJobs (i : TransformInput) (start : Start) (payload : ContinuePayload)
    (next : NextStatus) (db : FlowDb) : Except Error FlowDb := do
  let jobs ← pushJobs w i.flowEnv i.status start i.lastResult 0 payload.payloads
  let (m, table) ← newStatusModule w start.statusModule.id next (jobs.map QueuedJob.id)
  if continueOnSameWorker w i.flow start.module && jobs.length != 1 then
    throw ⟨"Cannot continue on same worker with multiple jobs, parallel cannot be used in " ++
      "conjunction with same_worker"⟩
  return { db with
    status := writePushed i.flow start m db.status
    iteratorData := match table with
      | some itered => some itered
      | none => db.iteratorData
    queued := db.queued ++ jobs }

def startInput (flow : FlowValue) (flowEnv : Option Args) (lastResult : Json) (messages : List Json)
    (approvers : List String) (start : Start) (db : FlowDb) : TransformInput where
  flow := flow
  flowEnv := flowEnv
  status := db.status
  lastResult := lastResult
  previousId := start.previousId
  resumes := (.arr messages, (messages.getLast?).getD .null, .arr (approvers.map Json.str))
  iteratorData := db.iteratorData

def startModule (flow : FlowValue) (flowEnv : Option Args) (lastResult : Json)
    (messages : List Json) (approvers : List String) (start : Start) (db : FlowDb) :
    Except Error (FlowDb × PushNextFlowJob) := do
  let i := startInput flow flowEnv lastResult messages approvers start db
  let skipped ← isSkipped w i start.module
  checkArgs start
  match ← computeNextFlowTransform w i start.module start.statusModule skipped with
  | .emptyInnerFlows branchChosen =>
    return ({ db with status := emptyInnerFlows db.status start.statusModule.id branchChosen },
      .again)
  | .continue payload next =>
    let db' ← commitJobs w i start payload next db
    return (db', .done none)

/-! ### The push -/

/-- The push once the gate let the module start. The writes of `chooseModule` are made at once,
those of `startModule` only if it succeeds. -/
def pushModule (flow : FlowValue) (flowEnv : Option Args) (step : Step)
    (statusModule : FlowStatusModule) (lastResult : Json) (messages : List Json)
    (approvers : List String) (db : FlowDb) : FlowDb × Except Error PushNextFlowJob :=
  match chooseModule w flow flowEnv step statusModule lastResult db.status with
  | .error e => (db, .error e)
  | .ok (status, start) =>
    let db := { db with status }
    match startModule w flow flowEnv lastResult messages approvers start db with
    | .error e => (db, .error e)
    | .ok (db, next) => (db, .ok next)

def passGate (flow : FlowValue) (flowEnv : Option Args) (step : Step)
    (statusModule : FlowStatusModule)
    (lastResult : Json) (db : FlowDb) : FlowDb × Except Error PushNextFlowJob :=
  match suspendGate w flow flowEnv db.status statusModule lastResult db.resumeJobs with
  | .error e => (db, .error e)
  | .ok (status, gate) =>
    match gate with
    | .park suspend => ({ db with status, suspend, suspendUntil := true }, .ok (.done none))
    | .refuse result => ({ db with status }, .ok (.done (some ⟨false, result, none⟩)))
    | .run messages approvers =>
      pushModule w flow flowEnv step statusModule lastResult messages approvers { db with status }

/-- The push up to the gate: the flow ends without a job, or goes to the gate with the result that
the module starts from. -/
def beforeGate (flow : FlowValue) (flowEnv : Option Args) (lastResult : Option Json)
    (status : FlowStatus) : Except Error (UpdateFlow ⊕ Json) :=
  let step := Step.fromI32AndLen status.step flow.modules.length
  let statusModule := statusModuleAt step status
  if (flow.modules.isEmpty && !step.isPreprocessorStep) || statusModule.isSuccess then
    .ok (.inl (completedUpdate w flow statusModule lastResult))
  else match startChecks w flow flowEnv step with
    | .error e => .error e
    | .ok (some update) => .ok (.inl update)
    | .ok none => (lastJobResult w step status statusModule lastResult).map .inr

/-- `push_next_flow_job`: the checks before the gate, the gate and the push. -/
def pushNextFlowJob (flow : FlowValue) (flowEnv : Option Args)
    (lastResult : Option Json) (db : FlowDb) : FlowDb × Except Error PushNextFlowJob :=
  let step := Step.fromI32AndLen db.status.step flow.modules.length
  match beforeGate w flow flowEnv lastResult db.status with
  | .error e => (db, .error e)
  | .ok (.inl update) => (db, .ok (.done (some update)))
  | .ok (.inr result) => passGate w flow flowEnv step (statusModuleAt step db.status) result db

def resolvedEnv (flow : FlowValue) : Option Args := flow.flowEnv.map w.resolveEnv

/-! ### What a push can do -/

variable {start : Start} {db db' : FlowDb} {status : FlowStatus} {result : Json}
  {statusModule : FlowStatusModule}
  {approvers : List String} {next : PushNextFlowJob} {messages : List Json}

section Cases

variable {w : World} {flow : FlowValue} {flowEnv : Option Args}

lemma commitJobs_ok {i payload next} (h : commitJobs w i start payload next db = .ok db') :
    ∃ jobs m table, pushJobs w i.flowEnv i.status start i.lastResult 0 payload.payloads = .ok jobs ∧
      newStatusModule w start.statusModule.id next (jobs.map QueuedJob.id) = .ok (m, table) ∧
      db' = { db with
        status := writePushed i.flow start m db.status
        iteratorData := match table with
          | some itered => some itered
          | none => db.iteratorData
        queued := db.queued ++ jobs } := by
  obtain ⟨jobs, hjobs, h⟩ := bind_eq_ok.mp h
  obtain ⟨⟨m, table⟩, hm, h⟩ := bind_eq_ok.mp h
  refine ⟨jobs, m, table, hjobs, hm, ?_⟩
  split_ifs at h
  · cases h
  · exact (pure_eq_ok.mp h).symm

lemma pushJobs_ok : ∀ {payloads} {i : ℕ} {jobs},
      pushJobs w flowEnv status start result i payloads = .ok jobs →
      jobs.length = payloads.length ∧ ∀ k job, jobs[k]? = some job →
        job.id = w.newUuid (i + k) ∧ jobSuspend w flowEnv status start result
        (i + k) = .ok job.suspend
  | [], i, jobs, h => by
    cases h
    exact ⟨rfl, nofun⟩
  | payload :: payloads, i, jobs, h => by
    obtain ⟨-, -, h⟩ := bind_eq_ok.mp h
    obtain ⟨suspend, hsus, h⟩ := bind_eq_ok.mp h
    obtain ⟨rest, hrest, h⟩ := bind_eq_ok.mp h
    cases pure_eq_ok.mp h
    obtain ⟨hlen, hjobs⟩ := pushJobs_ok hrest
    refine ⟨by rw [List.length_cons, List.length_cons, hlen], fun k job hk => ?_⟩
    cases k with
    | zero =>
      cases hk
      exact ⟨rfl, hsus⟩
    | succ k =>
      have := hjobs k job hk
      rwa [show i + 1 + k = i + (k + 1) by omega] at this

lemma startModule_ok (h : startModule w flow flowEnv result messages approvers start db =
    .ok (db', next)) :
    ∃ skipped, isSkipped w (startInput flow flowEnv result messages approvers start db)
    start.module = .ok skipped ∧ ((∃ branchChosen, computeNextFlowTransform w
      (startInput flow flowEnv result messages approvers start db)
            start.module start.statusModule skipped = .ok (.emptyInnerFlows branchChosen) ∧
          db' = { db with status := emptyInnerFlows db.status start.statusModule.id branchChosen } ∧
          next = .again) ∨ ∃ payload status,
        computeNextFlowTransform w (startInput flow flowEnv result messages approvers start db)
            start.module start.statusModule skipped = .ok (.continue payload status) ∧
          commitJobs w (startInput flow flowEnv result messages approvers start db) start payload
            status db = .ok db' ∧
          next = .done none) := by
  obtain ⟨skipped, hskipped, h⟩ := bind_eq_ok.mp h
  obtain ⟨-, -, h⟩ := bind_eq_ok.mp h
  obtain ⟨transform, htrans, h⟩ := bind_eq_ok.mp h
  refine ⟨skipped, hskipped, ?_⟩
  cases transform with
  | emptyInnerFlows branchChosen =>
    cases pure_eq_ok.mp h
    exact .inl ⟨branchChosen, htrans, rfl, rfl⟩
  | «continue» payload status =>
    obtain ⟨db'', hcom, h⟩ := bind_eq_ok.mp h
    cases pure_eq_ok.mp h
    exact .inr ⟨payload, status, htrans, hcom, rfl⟩

lemma writePushed_step {m} {i n : ℕ} (hlen : status.modules.length = flow.modules.length)
    (hstart : ∀ j n', start.step = .step j n' → j < flow.modules.length)
    (h : (writePushed flow start m status).moduleStep = .step i n) :
    (∃ n', start.step = .step i n') ∧ (writePushed flow start m status).step = i ∧
      (writePushed flow start m status).modules[i]? = some m := by
  obtain ⟨hstep, hn, hlt⟩ := fromI32AndLen_eq_step.mp h
  unfold writePushed at hstep hlt ⊢
  cases hs : start.step with
  | step j n' =>
    rw [hs] at hstep
    have hij : j = i := by simpa using hstep
    subst hij
    refine ⟨⟨n', rfl⟩, rfl, FlowStatus.setModule_getElem?_natCast ?_ m⟩
    rw [hlen]
    exact hstart j n' hs
  | preprocessorStep =>
    rw [hs] at hstep
    simp only at hstep
    omega
  | failureStep =>
    rw [hs] at hstep hlt
    simp only at hstep hlt
    omega

variable (w : World) (flow : FlowValue) (flowEnv : Option Args) (step : Step)
  (statusModule : FlowStatusModule) (result : Json) (status : FlowStatus) in
/-- The module that a push chooses, with the status it leaves: the module under the step counter, a
retry of it, or the failure module. -/
inductive Chosen : FlowStatus → Start → Prop
  | module {module : FlowModule} (hmodule : flow.getFlowModuleAtStep step = .ok module)
      (hgoesOn : statusModule.isFailure = true → module.continuesOnError = true ∧
        pushRetry w flowEnv status module statusModule result = .ok none) :
      Chosen status ⟨step, module, statusModule, previousModuleId flow step, false, module.id⟩
  | retry {module : FlowModule} {f : Failure} {failCount delay : ℕ}
      (hmodule : flow.getFlowModuleAtStep step = .ok module) (hfailed : statusModule = .failure f)
      (hretry : pushRetry w flowEnv status module statusModule result =
        .ok (some (failCount, delay))) :
      Chosen (retryStatus status failCount f.job)
        ⟨step, module, .waitingForPriorSteps statusModule.id, previousModuleId flow step, true,
          module.id⟩
  | failureModule {module failureModule : FlowModule}
      (hmodule : flow.getFlowModuleAtStep step = .ok module)
      (hfailed : statusModule.isFailure = true) (hno : module.continuesOnError = false)
      (hretry : pushRetry w flowEnv status module statusModule result = .ok none)
      (hfailure : flow.failureModule = some failureModule) :
      Chosen (failureStatus status failureModule)
        ⟨.failureStep, failureModule, status.failureModule.moduleStatus, module.id, false,
          module.id⟩

lemma chooseModule_ok {step status'}
    (h : chooseModule w flow flowEnv step statusModule result status = .ok (status', start)) :
    Chosen w flow flowEnv step statusModule result status status' start := by
  obtain ⟨module, hmodule, h⟩ := bind_eq_ok.mp h
  obtain ⟨-, -, h⟩ := bind_eq_ok.mp h
  obtain ⟨retry, hretry, h⟩ := bind_eq_ok.mp h
  cases statusModule with
  | failure f =>
    cases retry with
    | some fd =>
      cases pure_eq_ok.mp h
      exact .retry hmodule rfl hretry
    | none =>
      dsimp only at h
      by_cases hc : module.continuesOnError = true
      · rw [if_pos hc] at h
        cases pure_eq_ok.mp h
        exact .module hmodule fun _ => ⟨hc, hretry⟩
      rw [if_neg hc] at h
      cases hf : flow.failureModule with
      | none => simp [hf] at h
      | some failureModule =>
        rw [hf] at h
        cases pure_eq_ok.mp h
        exact .failureModule hmodule rfl (Bool.not_eq_true _ |>.mp hc) hretry hf
  | _ => cases pure_eq_ok.mp h; exact .module hmodule nofun

variable (w : World) (flow : FlowValue) (flowEnv : Option Args) (lastResult : Option Json)
  (db : FlowDb) (step : Step) (statusModule : FlowStatusModule) in
/-- **What a push can do** to the rows of the flow. -/
inductive Pushes : FlowDb → Except Error PushNextFlowJob → Prop
  | failed (e : Error) : Pushes db (.error e)
  | ended (update : UpdateFlow) : Pushes db (.ok (.done (some update)))
  | parked {status : FlowStatus} {result : Json} {suspend : ℕ}
      (hbefore : beforeGate w flow flowEnv lastResult db.status = .ok (.inr result))
      (hgate : suspendGate w flow flowEnv db.status statusModule result db.resumeJobs
        = .ok (status, .park suspend)) :
      Pushes { db with status, suspend, suspendUntil := true } (.ok (.done none))
  | refused {status : FlowStatus} {result message : Json}
      (hbefore : beforeGate w flow flowEnv lastResult db.status = .ok (.inr result))
      (hgate : suspendGate w flow flowEnv db.status statusModule result db.resumeJobs
        = .ok (status, .refuse message)) :
      Pushes { db with status } (.ok (.done (some ⟨false, message, none⟩)))
  | stuck {status : FlowStatus} {result : Json} {messages : List Json} {approvers : List String}
      (hbefore : beforeGate w flow flowEnv lastResult db.status = .ok (.inr result))
      (hgate : suspendGate w flow flowEnv db.status statusModule result db.resumeJobs
        = .ok (status, .run messages approvers)) (e : Error) :
      Pushes { db with status } (.error e)
  | chosen {status status' : FlowStatus} {result : Json} {messages : List Json}
      {approvers : List String} {start : Start}
      (hbefore : beforeGate w flow flowEnv lastResult db.status = .ok (.inr result))
      (hgate : suspendGate w flow flowEnv db.status statusModule result db.resumeJobs
        = .ok (status, .run messages approvers))
      (hchosen : Chosen w flow flowEnv step statusModule result status status' start) (e : Error) :
      Pushes { db with status := status' } (.error e)
  | started {status status' : FlowStatus} {result : Json} {messages : List Json}
      {approvers : List String} {start : Start} {db' : FlowDb} {next : PushNextFlowJob}
      (hbefore : beforeGate w flow flowEnv lastResult db.status = .ok (.inr result))
      (hgate : suspendGate w flow flowEnv db.status statusModule result db.resumeJobs
        = .ok (status, .run messages approvers))
      (hchosen : Chosen w flow flowEnv step statusModule result status status' start)
      (hstart : startModule w flow flowEnv result messages approvers start
        { db with status := status' } = .ok (db', next)) :
      Pushes db' (.ok next)

lemma passGate_pushes (step : Step) (statusModule : FlowStatusModule) {lastResult}
    (hbefore : beforeGate w flow flowEnv lastResult db.status = .ok (.inr result)) :
    Pushes w flow flowEnv lastResult db step statusModule
      (passGate w flow flowEnv step statusModule result db).1
      (passGate w flow flowEnv step statusModule result db).2 := by
  unfold passGate
  cases hgate : suspendGate w flow flowEnv db.status statusModule result db.resumeJobs with
  | error e => exact .failed e
  | ok res =>
    obtain ⟨status, gate⟩ := res
    cases gate with
    | park suspend => exact .parked hbefore hgate
    | refuse message => exact .refused hbefore hgate
    | run messages approvers =>
      dsimp only [pushModule]
      cases hchoose : chooseModule w flow flowEnv step statusModule result status with
      | error e => exact .stuck hbefore hgate e
      | ok res =>
        obtain ⟨status', start⟩ := res
        dsimp only
        cases hstart : startModule w flow flowEnv result messages approvers start
            { db with status := status' } with
        | error e => exact .chosen hbefore hgate (chooseModule_ok hchoose) e
        | ok res => exact .started hbefore hgate (chooseModule_ok hchoose) hstart

lemma pushNextFlowJob_pushes (lastResult : Option Json) (db : FlowDb) :
    Pushes w flow flowEnv lastResult db (Step.fromI32AndLen db.status.step flow.modules.length)
      (statusModuleAt (Step.fromI32AndLen db.status.step flow.modules.length) db.status)
      (pushNextFlowJob w flow flowEnv lastResult db).1
      (pushNextFlowJob w flow flowEnv lastResult db).2 := by
  unfold pushNextFlowJob
  cases hbefore : beforeGate w flow flowEnv lastResult db.status with
  | error e => exact .failed e
  | ok before =>
    cases before with
    | inl update => exact .ended update
    | inr result => exact passGate_pushes _ _ hbefore

end Cases

end Windmill.Flow.Push
