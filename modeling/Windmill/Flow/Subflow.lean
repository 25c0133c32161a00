import Windmill.Flow.Chain

/-! # What a sub-flow reports to its parent

A flow that is itself a step of a parent flow is recorded as completed, and reported to the parent,
by different lines of the handler. `stepOutcome` says with which success and result the last step of
the sub-flow ended, and `closingError` which error document takes their place when the flow was
canceled or could not be chained. -/

namespace Windmill.Flow.Subflow

open Value Status Reads Completion Push Chain Lib.Except

/-! ### How the last step ended -/

/-- The success and the result with which a report leaves the current step: its own, those of all
children of a module that has several, or the error of an early stop. -/
def stepOutcome (w : World) (flow : FlowValue) (old : FlowStatus) (report : Report) :
    Except Error (Bool × Json) := do
  let r := enteringReport flow old report
  let status ← moduleStatus old
  let early ← earlyStop w flow old status r
  match stepCase flow old status r early with
  | .parallel p jobs =>
    let stop := stopAfterAllIters w (currentModule flow old) old status early
    let ok := !stop.1.isError && ((loopInfo (currentModule flow old) status).skipLoopFailures
      || allCompletedOk w (jobsFiltered (currentModule flow old) p.branchall jobs))
    let result ← stepResult w r stop.1 stop.2 (some jobs)
    return (ok, result)
  | .goesOn _ => return (r.success, r.result)
  | .ends =>
    let stop := endEarly w flow old status early
    let result ← stepResult w r stop.1 stop.2 status.flowJobs
    return (endsOk flow old status r stop.1, result)

variable {w : World} {r : Report} {flow : FlowValue} {old : FlowStatus} {c : Committed}

/-- **The handler goes on with the outcome of the step.** -/
theorem stepOutcome_of_committed {cur} (h : updateStatus w flow old cur r = .ok (.committed c)) :
    stepOutcome w flow old r = .ok (c.transition.success, c.nresult) := by
  obtain ⟨status, early, hst, hearly, htrans, hres, -⟩ := updateStatus_committed h
  refine bind_eq_ok.mpr ⟨status, hst, bind_eq_ok.mpr ⟨early, hearly, ?_⟩⟩
  unfold moduleTransition at htrans
  cases hcase : stepCase flow old status (enteringReport flow old r) early with
  | parallel p jobs =>
    rw [hcase] at htrans
    obtain ⟨rfl, -, -⟩ := stepCase_parallel hcase
    obtain ⟨counter, len, stored, nindex, -, -, hc⟩ := parallelCase_ok htrans
    split_ifs at hc with hlast
    rw [ModuleCase.transition.inj hc] at hres ⊢
    have hjobs : ((parallelJoin w flow old p jobs (enteringReport flow old r) early
        stored).newStatus.bind FlowStatusModule.flowJobs) = some jobs := by
      unfold parallelJoin
      dsimp only
      split_ifs <;> rfl
    rw [hjobs] at hres
    exact bind_eq_ok.mpr ⟨c.nresult, hres, rfl⟩
  | goesOn p =>
    rw [hcase] at htrans
    obtain ⟨-, hstop, -⟩ := stepCase_goesOn hcase
    have ht := ModuleCase.transition.inj (Except.ok.inj htrans)
    rw [← ht] at hres ⊢
    unfold stepResult at hres
    rw [hstop] at hres
    exact pure_eq_ok.mpr (congrArg (Prod.mk _) (Except.ok.inj hres))
  | ends =>
    rw [hcase] at htrans
    obtain ⟨t, hend, ht⟩ := map_eq_ok.mp htrans
    rw [ModuleCase.transition.inj ht] at hend
    have e := endCase_ok hend
    have hjobs : c.transition.newStatus.bind FlowStatusModule.flowJobs = status.flowJobs := by
      cases hs : c.transition.success with
      | true =>
        obtain ⟨-, s, hs, -, hj, -⟩ := e.ok hs
        rw [hs]; exact hj
      | false =>
        obtain ⟨-, f, hf, -, hj, -⟩ := e.failed hs
        rw [hf]; exact hj
    rw [hjobs, e.early, e.nresult] at hres
    refine bind_eq_ok.mpr ⟨c.nresult, hres, pure_eq_ok.mpr ?_⟩
    rw [e.success, e.early]

/-! ### Agreement of the report with the record -/

/-- The error document with which the flow is recorded in place of the outcome of its last step:
that of a canceled flow that does not go on, or of a flow that fails to go on. -/
def closingError (fuel : ℕ) (w : World) (flow : FlowValue) (old : FlowStatus) (db : FlowDb)
    (r : Report) : Option Json :=
  match updateStatus w flow old db.status r with
  | .ok (.committed c) =>
    match shouldContinueFlow w flow old (enteringReport flow old r) c.transition with
    | .ok true =>
      match handleFlow w flow (some c.nresult) fuel { db with status := c.status } with
      | some (_, .error e) => some (wrappedError (chainingError e))
      | _ => none
    | _ => if w.flowJob.isCanceled then some (wrappedError (canceledJobToResult w.flowJob))
        else none
  | _ => none

/-- When the report agrees with the record: a flow closed with an error document has failed with it;
any other does not end with an error handler that asks to recover, and if it failed its result reads
back unchanged. -/
def AgreesWhen (fuel : ℕ) (w : World) (flow : FlowValue) (old : FlowStatus) (db : FlowDb)
    (r : Report) : Prop :=
  ∃ success result, stepOutcome w flow old r = .ok (success, result) ∧
    match closingError fuel w flow old db r with
    | some error => (success && !isFailureStep old) = false ∧ result = error
    | none =>
      (success = true → isFailureStep old = true → resultHasRecoverTrue result = false) ∧
      ((success && !isFailureStep old) = false → failedResult w result = result)

lemma doneOutcome_reported {rr d parent} (h : doneOutcome w old r c d = .reported parent rr) :
    rr.success = (c.transition.success && !isFailureStep old) ∧ rr.result = c.nresult := by
  unfold doneOutcome at h
  split at h
  · cases h
    exact ⟨rfl, rfl⟩
  · cases h

/-- **A sub-flow's report to its parent agrees with its record exactly when** it was not closed with
an error document other than the failure it reports, and its error handler, if one ran, did not ask
to recover. -/
theorem report_agrees_iff {fuel : ℕ} {w : World} {flow : FlowValue} {old : FlowStatus} {db : FlowDb}
    {r rr : Report} {h : Handled} {rec : Recorded} {parent : Uuid}
    (hrun : updateInternal fuel w flow old db r = some h)
    (hrec : h.recorded = some rec) (hout : h.outcome = .ok (.reported parent rr)) :
    (rr.success = rec.success ∧ rr.result = rec.result) ↔ AgreesWhen fuel w flow old db r := by
  obtain ⟨c, duration, hup, hdone, hway⟩ := updateInternal_recorded hrun hrec
  obtain ⟨hs, hv⟩ := doneOutcome_reported (Except.ok.inj (hdone.symm.trans hout))
  simp only [hs, hv, AgreesWhen, stepOutcome_of_committed hup, Except.ok.injEq, Prod.mk.injEq,
    and_assoc, exists_and_left, exists_eq_left', closingError, hup]
  rcases hway with ⟨hcont, rfl⟩ | ⟨e, db', hcont, hflow, rfl⟩
  · simp only [hcont]
    cases hcan : w.flowJob.isCanceled with
    | true => simp only [if_true, finishRecord, hcan]
    | false =>
      unfold finishRecord
      rw [hcan]
      cases c.transition.success <;> cases isFailureStep old <;>
        cases resultHasRecoverTrue c.nresult <;> simp [eq_comm]
  · simp only [hcont, hflow]

/-! ### An error handler that recovers -/

def handledFlow : FlowValue where
  modules := [{ id := "a", value := .script }]
  failureModule := some { id := "failure", value := .script }

def subflowWorld : World :=
  .plain { FlowJob.plain 2 with parentJob := some 1, flowStepId := some "s" }

def handlerRunning : FlowDb where
  status :=
    { FlowStatus.new handledFlow with
      step := 1
      modules := [.failure ⟨"a", 6, none, none, none, none, []⟩]
      failureModule := ⟨some "a", .waitingForExecutor "failure" 7⟩ }
  suspend := 0
  suspendUntil := false
  resumeJobs := []
  iteratorData := none
  queued := []

theorem report_agrees_handler : ∃ h rec parent rr,
    updateInternal 1 subflowWorld handledFlow handlerRunning.status handlerRunning
        { jobIdForStatus := 7, success := true, result := .null } = some h ∧
      h.recorded = some rec ∧ h.outcome = .ok (.reported parent rr) ∧
      ((rr.success = rec.success ∧ rr.result = rec.result) ↔
        AgreesWhen 1 subflowWorld handledFlow handlerRunning.status handlerRunning
          { jobIdForStatus := 7, success := true, result := .null }) :=
  ⟨_, _, _, _, rfl, rfl, rfl, report_agrees_iff rfl rfl rfl⟩

/-- The error handler asks to recover: the sub-flow is recorded as a success and reported to its
parent as a failure. -/
theorem report_disagrees_recover : ∃ h rec parent rr,
    updateInternal 1 subflowWorld handledFlow handlerRunning.status handlerRunning
        { jobIdForStatus := 7, success := true, result := .obj [("recover", .bool true)] } =
        some h ∧
      h.recorded = some rec ∧ h.outcome = .ok (.reported parent rr) ∧
      rec.success = true ∧ rr.success = false :=
  ⟨_, _, _, _, rfl, rfl, rfl, rfl, rfl⟩

end Windmill.Flow.Subflow
