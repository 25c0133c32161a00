import Windmill.Flow.Status

/-! # What the engine reads besides the flow and its status

A `World` is the database and the expression evaluator as one call of the engine sees them: the rows
of completed jobs, the flow's own row, the JavaScript engine behind `eval_timeout`, the random draw
of the retry jitter. Each call gets its own world, so nothing is assumed to stay the same between
two calls unless a statement says so. -/

namespace Windmill.Flow.Reads

open Value Status

/-- The `status` column of `v2_job_completed`. -/
inductive JobStatus where
  | success
  | failure
  | canceled
  | skipped
deriving DecidableEq

def JobStatus.isSuccessOrSkipped : JobStatus → Bool
  | .success => true
  | .skipped => true
  | _ => false

structure CompletedJob where
  status : JobStatus
  result : Json

structure CanceledBy where
  username : Option String
  reason : Option String

structure FlowJob where
  id : Uuid
  parentJob : Option Uuid
  flowStepId : Option String
  canceledBy : Option String
  canceledReason : Option String
  args : Args
  runnablePath : String
  isPreview : Bool
  sameWorker : Bool

def FlowJob.plain (id : Uuid) : FlowJob := ⟨id, none, none, none, none, [], "f/flow", false, false⟩

def FlowJob.isCanceled (j : FlowJob) : Bool := j.canceledBy.isSome

def FlowJob.isFlowStep (j : FlowJob) : Bool := j.flowStepId.isSome

inductive JobResult where
  | singleJob (job : Uuid)
  | listJob (jobs : List Uuid)

def jobResult (m : FlowStatusModule) : Option JobResult :=
  match m.flowJobs with
  | some jobs => some (.listJob jobs)
  | none => m.job.map .singleJob

structure IdContext where
  flowJob : Uuid
  stepsResults : List (String × JobResult)
  previousId : String

def getTransformContext (flowJob : Uuid) (previousId : String) (status : FlowStatus) : IdContext :=
  ⟨flowJob, status.modules.filterMap fun m => (jobResult m).map fun r => (m.id, r), previousId⟩

structure EvalContext where
  flowArgs : Args
  flowEnv : Option Args
  result : Json
  allIters : Option Json := none
  byId : Option IdContext := none
  resumes : Option (Json × Json × Json) := none

/-- What the engine reads besides the status. -/
structure World where
  /-- `eval_timeout`: the JavaScript engine. -/
  evalTimeout : String → EvalContext → Except Error Json
  completed : Uuid → Option CompletedJob
  isIdentityJob : Uuid → Bool
  flowJob : FlowJob
  /-- The text of the document read back by `serde_json` as a `Value`: numbers may lose digits, and
  one out of range is an error. -/
  parseValue : Json → Option Json
  flowDuration : Option FlowJobDuration
  /-- `transform_json`: the flow environment with its references resolved. -/
  resolveEnv : Args → Args
  draw : ℕ × Bool
  overlapping : Option String
  /-- Looking up the script, flow or agent that a leaf runs (`script_to_payload`,
  `flow_to_payload`). -/
  findRunnable : FlowModule → Except Error Unit
  /-- Pushing the `i`-th job of a module: permissions, tag, timeout, insertion. -/
  pushJob : FlowModule → ℕ → Except Error Unit
  newUuid : ℕ → Uuid
  /-- All workers store the iterated values in `flow_iterator_data`. -/
  separateIterData : Bool

def World.plain (job : FlowJob) : World where
  evalTimeout _ _ := .error ⟨"no evaluator"⟩
  completed _ := none
  isIdentityJob _ := false
  flowJob := job
  parseValue := some
  flowDuration := none
  resolveEnv := id
  draw := (0, true)
  overlapping := none
  findRunnable _ := .ok ()
  pushJob _ _ := .ok ()
  newUuid i := BitVec.ofNat 128 (1000 + i)
  separateIterData := true

def computeBoolFromExpr (w : World) (expr : String) (ctx : EvalContext) : Except Error Bool :=
  match w.evalTimeout ("Boolean(" ++ expr ++ ")") ctx with
  | .ok (.bool b) => .ok b
  | .ok _ => .error ⟨"Expected a boolean value"⟩
  | .error e => .error e

def containsText (s sub : String) : Bool := decide (sub.toList <:+: s.toList)

def getIdCtxForExpr (w : World) (expr : String) (status : FlowStatus) : Option IdContext :=
  if containsText expr "results." || containsText expr "results[" ||
    containsText expr "results?." then
    some (getTransformContext w.flowJob.id "" status)
  else none

def jobResults (w : World) : List Uuid → Except Error (List Json)
  | [] => .ok []
  | j :: jobs =>
    match w.completed j with
    | none => .error ⟨"missing job result"⟩
    | some c => match jobResults w jobs with
      | .ok rs => .ok (c.result :: rs)
      | .error e => .error e

def retrieveFlowJobsResults (w : World) (jobs : List Uuid) : Except Error Json :=
  (jobResults w jobs).map Json.arr

lemma jobResults_ok {w : World} : ∀ {jobs},
    (∀ j ∈ jobs, (w.completed j).isSome) → ∃ rs, jobResults w jobs = .ok rs
  | [], _ => ⟨[], rfl⟩
  | j :: jobs, h => by
    obtain ⟨c, hc⟩ := Option.isSome_iff_exists.mp (h j (by simp))
    obtain ⟨rs, hrs⟩ := @jobResults_ok w jobs fun j' hj' => h j' (List.mem_cons_of_mem j hj')
    exact ⟨c.result :: rs, by simp only [jobResults, hc, hrs]⟩

/-! ### Retries -/

def maxRetryAttempts : ℕ := 4294967295

def maxRetryInterval : ℕ := 21600

def evaluateRetry (w : World) (retry : Retry) (status : RetryStatus) (result : Json)
    (flowArgs : Args) (flowEnv : Option Args) : Except Error (Option (ℕ × ℕ)) :=
  if maxRetryAttempts < status.failCount then .ok none
  else
    let interval := (retry.interval w.draw status.failCount).map fun d =>
      (status.failCount + 1, min d maxRetryInterval)
    match retry.retryIf with
    | none => .ok interval
    | some retryIf =>
      match computeBoolFromExpr w retryIf.expr ⟨flowArgs, flowEnv, result, none, none, none⟩ with
      | .error e => .error e
      | .ok false => .ok none
      | .ok true => .ok interval

/-! ### Early stops -/

/-- `get_stop_after_if_data`: whether the rest is skipped, and the error to stop with. -/
def getStopAfterIfData (stopAfterIf : Option StopAfterIf) : Bool × Option String :=
  match stopAfterIf with
  | some s =>
    if s.skipIfStopped then (true, none)
    else (false, s.errorMessage.map fun message => if message.isEmpty then "stop after if: " ++
      s.expr else message)
  | none => (false, none)

lemma getStopAfterIfData_exclusive (s : Option StopAfterIf)
    (h : (getStopAfterIfData s).2.isSome) : (getStopAfterIfData s).1 = false := by
  unfold getStopAfterIfData at h ⊢
  cases s with
  | none => rfl
  | some s =>
    dsimp only at h ⊢
    split_ifs at h ⊢ with hs
    · simp at h
    · rfl

end Windmill.Flow.Reads
