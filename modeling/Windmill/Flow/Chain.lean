import Windmill.Flow.Completion
import Windmill.Flow.Push

/-! # The completion handler: ending the flow or chaining to the next step

The second half of `update_flow_status_after_job_completion_internal`: the flow is recorded as
completed (`finishRecord`), or `handle_flow` pushes its next jobs, and if that fails the flow is
recorded with the error. A sub-flow that is done is reported to its parent with a `Rec` message. -/

namespace Windmill.Flow.Chain

open Value Status Reads Completion Push

/-- The arguments of `add_completed_job` with which a flow is recorded as completed. -/
structure Recorded where
  success : Bool
  skipped : Bool
  canceledBy : Option CanceledBy
  result : Json

/-- `UpdateFlowStatusAfterJobCompletion`: what the handler asks for. -/
inductive Outcome where
  | done
  | reported (parent : Uuid) (r : Report)
  | nonLastParallelBranch
  | notDone
  | preprocessingStep

/-- What one call of the handler leaves behind. `sent` is the message of `handle_flow` to the job
completed channel. -/
structure Handled where
  db : FlowDb
  recorded : Option Recorded := none
  sent : Option UpdateFlow := none
  outcome : Except Error Outcome

/-! ### Recording the flow -/

def wrappedError (error : Json) : Json := .obj [("error", error)]

def canceledJobToResult (j : FlowJob) : Json :=
  let reason := j.canceledReason.getD "no reason given"
  let canceler := j.canceledBy.getD "unknown"
  .obj [("message", .str ("Job canceled: " ++ reason ++ " by " ++ canceler)),
    ("name", .str "Canceled"), ("reason", .str reason), ("canceler", .str canceler)]

def chainingError (e : Error) : Json :=
  .obj [("message", .str e.message), ("name", .str "InternalError")]

/-- `result_has_recover_true`: a `RecoveryObject` is read from an object, or from an array with its
one field. -/
def resultHasRecoverTrue : Json → Bool
  | .obj fields =>
    match fields.filter fun f => f.1 == "recover" with
    | [(_, .bool b)] => b
    | _ => false
  | .arr [.bool b] => b
  | _ => false

/-- The result of a failed flow is stored as a parsed `Value`. -/
def failedResult (w : World) (nresult : Json) : Json :=
  match w.parseValue nresult with
  | some v => v
  | none => wrappedError (.str "Impossible to serialize error: ")

def finishRecord (w : World) (old : FlowStatus) (r : Report) (c : Committed) : Recorded :=
  if w.flowJob.isCanceled then
    ⟨false, false, some ⟨w.flowJob.canceledBy, w.flowJob.canceledReason⟩,
      wrappedError (canceledJobToResult w.flowJob)⟩
  else
    let success := c.transition.success && (!isFailureStep old || resultHasRecoverTrue c.nresult)
    let skipped := c.transition.early.stopEarly && c.transition.early.skipIfStopEarly
    if success then ⟨true, skipped, none, c.nresult⟩
    else ⟨false, skipped, r.canceledBy, failedResult w c.nresult⟩

def doneOutcome (w : World) (old : FlowStatus) (r : Report) (c : Committed)
    (duration : Option FlowJobDuration) : Outcome :=
  match w.flowJob.isFlowStep, w.flowJob.parentJob with
  | true, some parent => .reported parent
      { jobIdForStatus := w.flowJob.id
        success := c.transition.success && !isFailureStep old
        canceledBy := if c.transition.success then none else r.canceledBy
        flowJobDuration := duration
        result := c.nresult
        stopEarlyOverride := if c.transition.early.stopEarly
        then some c.transition.early.skipIfStopEarly else none
        hasTriggeredErrorHandler := c.transition.hasTriggeredErrorHandler || isFailureStep old }
  | _, _ => .done

/-! ### Chaining -/

/-- `handle_flow`: push until a push does not ask to be called again, at most `fuel` times. -/
def handleFlow (w : World) (flow : FlowValue) (lastResult : Option Json) :
    ℕ → FlowDb → Option (FlowDb × Except Error (Option UpdateFlow))
  | 0, _ => none
  | fuel + 1, db =>
    match pushNextFlowJob w flow (resolvedEnv w flow) lastResult db with
    | (db, .error e) => some (db, .error e)
    | (db, .ok .again) => handleFlow w flow lastResult fuel db
    | (db, .ok (.done update)) => some (db, .ok update)

/-- The release of the next held-back child: `suspend = 0` where it was `nindex`. -/
def releaseChild (queued : List QueuedJob) (release : Option ℕ) : List QueuedJob :=
  match release with
  | some nindex => queued.map fun j => if j.suspend = nindex then { j with suspend := 0 } else j
  | none => queued

def afterCommit (fuel : ℕ) (w : World) (flow : FlowValue) (old : FlowStatus) (db : FlowDb)
    (r : Report) (c : Committed) : Option Handled :=
  if old.moduleStep.isPreprocessorStep && c.transition.success then
    some { db, outcome := .ok .preprocessingStep }
  else match shouldContinueFlow w flow old r c.transition with
    | .error e => some { db, outcome := .error e }
    | .ok false =>
      let duration := if w.flowJob.isCanceled then r.flowJobDuration else w.flowDuration
      some { db, recorded := some (finishRecord w old r c)
             outcome := .ok (doneOutcome w old r c duration) }
    | .ok true =>
      match handleFlow w flow (some c.nresult) fuel db with
      | none => none
      | some (db, .ok update) => some { db, sent := update, outcome := .ok .notDone }
      | some (db, .error e) =>
        some { db, recorded := some ⟨false, false, none, wrappedError (chainingError e)⟩
               outcome := .ok (doneOutcome w old r c r.flowJobDuration) }

/-- `update_flow_status_after_job_completion_internal`, on the status `old` read at its start and
the rows `db` at its transaction. `none` if the pushes do not end within `fuel` calls. -/
def updateInternal (fuel : ℕ) (w : World) (flow : FlowValue) (old : FlowStatus) (db : FlowDb)
    (r : Report) : Option Handled :=
  match updateStatus w flow old db.status r with
  | .error e => some { db, outcome := .error e }
  | .ok (.nonLastParallelBranch status release) =>
    some { db := { db with status, queued := releaseChild db.queued release }
           outcome := .ok .nonLastParallelBranch }
  | .ok (.committed c) => afterCommit fuel w flow old { db with status := c.status }
      (enteringReport flow old r) c

lemma updateInternal_recorded {fuel : ℕ} {w flow old db r h rec}
    (hrun : updateInternal fuel w flow old db r = some h) (hrec : h.recorded = some rec) :
    ∃ c duration, updateStatus w flow old db.status r = .ok (.committed c) ∧
      h.outcome = .ok (doneOutcome w old (enteringReport flow old r) c duration) ∧
      ((shouldContinueFlow w flow old (enteringReport flow old r) c.transition = .ok false ∧
          rec = finishRecord w old (enteringReport flow old r) c) ∨
        ∃ e db', shouldContinueFlow w flow old (enteringReport flow old r) c.transition = .ok true ∧
          handleFlow w flow (some c.nresult) fuel { db with status := c.status }
            = some (db', .error e) ∧
          rec = ⟨false, false, none, wrappedError (chainingError e)⟩) := by
  unfold updateInternal at hrun
  cases hup : updateStatus w flow old db.status r with
  | error e => rw [hup] at hrun; cases hrun; cases hrec
  | ok u =>
    rw [hup] at hrun
    cases u with
    | nonLastParallelBranch status release => cases hrun; cases hrec
    | committed c =>
      dsimp only [afterCommit] at hrun
      by_cases hpre : (old.moduleStep.isPreprocessorStep && c.transition.success) = true
      · rw [if_pos hpre] at hrun
        cases hrun; cases hrec
      rw [if_neg hpre] at hrun
      cases hcont : shouldContinueFlow w flow old (enteringReport flow old r) c.transition with
      | error e => rw [hcont] at hrun; cases hrun; cases hrec
      | ok goesOn =>
        rw [hcont] at hrun
        cases goesOn with
        | false =>
          cases hrun; cases hrec
          exact ⟨c, _, rfl, rfl, .inl ⟨hcont, rfl⟩⟩
        | true =>
          cases hflow : handleFlow w flow (some c.nresult) fuel { db with status := c.status } with
          | none => simp [hflow] at hrun
          | some res =>
            rw [hflow] at hrun
            obtain ⟨db', outcome⟩ := res
            cases outcome with
            | ok update => cases hrun; cases hrec
            | error e =>
              cases hrun; cases hrec
              exact ⟨c, _, rfl, rfl, .inr ⟨e, db', hcont, hflow, rfl⟩⟩

end Windmill.Flow.Chain
