import Windmill.Flow.Places
import Windmill.Flow.Resume

/-! # Runs of a flow

One flow, from the moment it enters the queue to its end, as a machine whose actions are the
transactions of the engine. `reports`, `retries` and `passes` are histories that no action reads.

A handler reads the status before its transaction (`old`); what it reads is the stored status up to
the bookkeeping of other handlers, which the runs of the theorems assume as `Tracks`. When the
handler fails it is called again with the error (`errorReport`), and when that fails as well the
worker reports the job as failed (`jobErrorReport`). -/

namespace Windmill.Flow.Run

open Value Status Reads Completion Flow.Suspend Push Chain Resume Places Option

/-! ### Errors of the handler -/

/-- The second call of `update_flow_status_after_job_completion` after an error of the first. -/
def errorReport (r : Report) (e : Error) : Report :=
  { r with
    success := false, canceledBy := none, result := wrappedError (.str e.message)
    unrecoverable := true }

/-- The report of `handle_job_error`. Who canceled the job is not tracked: nothing below reads it.
-/
def jobErrorReport (job : Uuid) (e : Error) : Report :=
  { jobIdForStatus := job, success := false
    result := wrappedError (.obj [("message", .str e.message), ("name", .str "InternalErr")]) }

inductive Ctrl where
  | queued
  /-- Jobs of the flow are running, or it waits for events. -/
  | idle
  /-- `handle_flow` is pushing, for a flow that was pulled or for a handler. -/
  | chaining (lastResult : Option Json) (pulled : Bool)
  /-- The handler failed and is called again, with as many further calls if it fails again. -/
  | retrying (r : Report) (tries : ℕ)
  | finished

/-- The calls after an error: the handler is called again, then the worker reports the job as
failed, and the handler is called again once more. -/
def afterError (r : Report) (e : Error) : ℕ → Ctrl
  | 0 => .finished
  | 2 => .retrying (jobErrorReport r.jobIdForStatus e) 1
  | n + 1 => .retrying (errorReport r e) n

/-- A job is reported: the handler up to its decision whether the flow goes on. -/
def handleReport (w : World) (flow : FlowValue) (old : FlowStatus) (r : Report) (tries : ℕ)
    (db : FlowDb) : FlowDb × Ctrl :=
  match updateStatus w flow old db.status r with
  | .error e => (db, afterError r e tries)
  | .ok (.nonLastParallelBranch status release) =>
    ({ db with status, queued := releaseChild db.queued release }, .idle)
  | .ok (.committed c) =>
    let db := { db with status := c.status }
    if old.moduleStep.isPreprocessorStep && c.transition.success then (db, .queued)
    else match shouldContinueFlow w flow old (enteringReport flow old r) c.transition with
      | .error e => (db, afterError r e tries)
      | .ok false => (db, .finished)
      | .ok true => (db, .chaining (some c.nresult) false)

/-- What the worker does after a push: a push that fails ends the flow of a handler, and is reported
to a flow that was pulled. -/
def afterPush (lastResult : Option Json) (pulled : Bool) : Except Error PushNextFlowJob → Ctrl
  | .ok .again => .chaining lastResult pulled
  | .ok (.done _) => .idle
  | .error e => if pulled then .retrying (jobErrorReport nilUuid e) 1 else .finished

/-! ### The machine -/

/-- A gate that was passed with the approvals it asks for. -/
structure Pass where
  last : Uuid
  required : ℕ
  rows : List ResumeRow

def gatePass (w : World) (flow : FlowValue) (lastResult : Option Json) (db : FlowDb) :
    Option Pass :=
  let statusModule := statusModuleAt (Step.fromI32AndLen db.status.step flow.modules.length)
    db.status
  match beforeGate w flow (resolvedEnv w flow) lastResult db.status, needsResume flow db.status with
  | .ok (.inr result), some (s, last) =>
    if statusModule.isWaiting && canBeResumed s (gateRows last w.flowJob.id db.resumeJobs)
        && (approvalConditions w (resolvedEnv w flow) result s).toOption.isSome then
      some ⟨last, s.requiredEvents.getD 0, gateRows last w.flowJob.id db.resumeJobs⟩
    else none
  | _, _ => none

/-- The rows of a flow, and what its worker does. -/
structure RunState where
  db : FlowDb
  ctrl : Ctrl
  reports : List (ℤ × Report) := []
  retries : List ℤ := []
  passes : List Pass := []

/-- What may happen to a flow. -/
inductive RunAction where
  | pull
  | push (w : World)
  | report (w : World) (old : FlowStatus) (r : Report)
  | again (w : World) (old : FlowStatus)
  | request (q : ResumeRequest) (info : FlowInfo)

def waitsForEvents (status : FlowStatus) : Bool :=
  match status.currentStep with
  | some (.waitingForEvents _ _ _) => true
  | _ => false

def reported (w : World) (flow : FlowValue) (old : FlowStatus) (r : Report) (tries : ℕ)
    (s : RunState) : RunState :=
  let res := handleReport w flow old r tries s.db
  { s with db := res.1, ctrl := res.2, reports := s.reports ++ [(old.step, r)] }

def startedAgain (flow : FlowValue) (status status' : FlowStatus) : Bool :=
  let step := Step.fromI32AndLen status.step flow.modules.length
  (statusModuleAt step status).isFailure && !(statusModuleAt step status').isFailure
    && status'.step == status.step

def pushed (w : World) (flow : FlowValue) (lastResult : Option Json) (pulled : Bool)
    (s : RunState) : RunState :=
  let res := pushNextFlowJob w flow (resolvedEnv w flow) lastResult s.db
  { s with
    db := res.1
    ctrl := afterPush lastResult pulled res.2
    retries := if startedAgain flow s.db.status res.1.status then s.retries ++ [s.db.status.step]
      else s.retries
    passes := s.passes ++ (gatePass w flow lastResult s.db).toList }

/-- One action, if it is possible. -/
def runStep (flow : FlowValue) (s : RunState) : RunAction → Option RunState
  | .pull => match s.ctrl with
    | .queued => some { s with ctrl := .chaining none true }
    | .idle => if waitsForEvents s.db.status then some { s with ctrl := .chaining none true }
        else none
    | _ => none
  | .push w => match s.ctrl with
    | .chaining lastResult pulled => some (pushed w flow lastResult pulled s)
    | _ => none
  | .report w old r => match s.ctrl with
    | .idle => some (reported w flow old r 3 s)
    | _ => none
  | .again w old => match s.ctrl with
    | .retrying r tries => some (reported w flow old r tries s)
    | _ => none
  | .request q info => match commitRequest q info s.db with
    | .ok db => some { s with db }
    | .error _ => none

def RunState.start (flow : FlowValue) : RunState where
  db := freshDb flow
  ctrl := .queued

/-! ### What an action can do -/

/-- **What the machine can do.** -/
inductive Steps (flow : FlowValue) (s : RunState) : RunAction → RunState → Prop
  | pull (hctrl : s.ctrl = .queued ∨ s.ctrl = .idle ∧ waitsForEvents s.db.status = true) :
      Steps flow s .pull { s with ctrl := .chaining none true }
  | push {w : World} {lastResult : Option Json} {pulled : Bool}
      (hctrl : s.ctrl = .chaining lastResult pulled) :
      Steps flow s (.push w) (pushed w flow lastResult pulled s)
  | report {w : World} {old : FlowStatus} {r : Report} (hctrl : s.ctrl = .idle) :
      Steps flow s (.report w old r) (reported w flow old r 3 s)
  | again {w : World} {old : FlowStatus} {r : Report} {tries : ℕ}
    (hctrl : s.ctrl = .retrying r tries) :
      Steps flow s (.again w old) (reported w flow old r tries s)
  | request {q : ResumeRequest} {info : FlowInfo} (hnew : alreadySent q s.db.resumeJobs = false) :
      Steps flow s (.request q info) { s with db := acceptRequest q info s.db }

variable {flow : FlowValue} {old : FlowStatus} {r : Report}

lemma runStep_steps {s s' a} (h : runStep flow s a = some s') : Steps flow s a s' := by
  cases a with
  | pull =>
    cases hctrl : s.ctrl with
    | queued =>
      simp only [runStep, hctrl, some.injEq] at h
      exact h ▸ .pull (.inl hctrl)
    | idle =>
      simp only [runStep, hctrl] at h
      split_ifs at h with hwaits
      exact some.inj h ▸ .pull (.inr ⟨hctrl, hwaits⟩)
    | _ => simp only [runStep, hctrl, reduceCtorEq] at h
  | push w =>
    cases hctrl : s.ctrl with
    | chaining lastResult pulled =>
      simp only [runStep, hctrl, some.injEq] at h
      exact h ▸ .push hctrl
    | _ => simp only [runStep, hctrl, reduceCtorEq] at h
  | report w old r =>
    cases hctrl : s.ctrl with
    | idle =>
      simp only [runStep, hctrl, some.injEq] at h
      exact h ▸ .report hctrl
    | _ => simp only [runStep, hctrl, reduceCtorEq] at h
  | again w old =>
    cases hctrl : s.ctrl with
    | retrying r tries =>
      simp only [runStep, hctrl, some.injEq] at h
      exact h ▸ .again hctrl
    | _ => simp only [runStep, hctrl, reduceCtorEq] at h
  | request q info =>
    cases hsent : alreadySent q s.db.resumeJobs with
    | true => simp [runStep, commitRequest, hsent] at h
    | false =>
      simp only [runStep, commitRequest, hsent, Bool.false_eq_true, if_false, some.injEq] at h
      exact h ▸ .request hsent

variable (w : World) (flow : FlowValue) (old : FlowStatus) (r : Report) (tries : ℕ) (db : FlowDb) in
/-- **What a report can do** to the rows of the flow, and what the worker does next. -/
inductive Handles : FlowDb → Ctrl → Prop
  | rolledBack (e : Error) : Handles db (afterError r e tries)
  | counted {status : FlowStatus} {release : Option ℕ}
      (hup : updateStatus w flow old db.status r = .ok (.nonLastParallelBranch status release)) :
      Handles { db with status, queued := releaseChild db.queued release } .idle
  | preprocessed {c : Committed} (hup : updateStatus w flow old db.status r = .ok (.committed c))
      (hpre : old.moduleStep.isPreprocessorStep = true) (hok : c.transition.success = true) :
      Handles { db with status := c.status } .queued
  | stuck {c : Committed} (hup : updateStatus w flow old db.status r = .ok (.committed c))
      (e : Error)
      (hcont : shouldContinueFlow w flow old (enteringReport flow old r) c.transition = .error e) :
      Handles { db with status := c.status } (afterError r e tries)
  | ended {c : Committed} (hup : updateStatus w flow old db.status r = .ok (.committed c)) :
      Handles { db with status := c.status } .finished
  | goesOn {c : Committed} (hup : updateStatus w flow old db.status r = .ok (.committed c))
      (hcont : shouldContinueFlow w flow old (enteringReport flow old r) c.transition = .ok true) :
      Handles { db with status := c.status } (.chaining (some c.nresult) false)

lemma handleReport_handles (w : World) (flow : FlowValue) (old : FlowStatus) (r : Report)
    (tries : ℕ) (db : FlowDb) : Handles w flow old r tries db (handleReport w flow old r tries db).1
    (handleReport w flow old r tries db).2 := by
  unfold handleReport
  cases hup : updateStatus w flow old db.status r with
  | error e => exact .rolledBack e
  | ok u =>
    cases u with
    | nonLastParallelBranch status release => exact .counted hup
    | committed c =>
      dsimp only
      split_ifs with hpre
      · obtain ⟨hstep, hok⟩ := Bool.and_eq_true_iff.mp hpre
        exact .preprocessed hup hstep hok
      cases hcont : shouldContinueFlow w flow old (enteringReport flow old r) c.transition with
      | error e => exact .stuck hup e hcont
      | ok goesOn =>
        cases goesOn with
        | false => exact .ended hup
        | true => exact .goesOn hup hcont

variable {db : FlowDb} {status : FlowStatus} {w : World}

lemma Handles.invariant {tries : ℕ} {db' ctrl} {I : FlowStatus → Prop}
    (h : Handles w flow old r tries db db' ctrl) (hdb : I db.status)
    (hcnt : ∀ {status release}, updateStatus w flow old db.status r = .ok
    (.nonLastParallelBranch status release) → I status)
    (hcom : ∀ {c}, updateStatus w flow old db.status r = .ok (.committed c) → I c.status) :
    I db'.status := by
  cases h with
  | rolledBack e => exact hdb
  | counted hup => exact hcnt hup
  | preprocessed hup _ _ | stuck hup _ _ | ended hup | goesOn hup _ => exact hcom hup

lemma afterError_retrying {r' e} {n n' : ℕ} (h : afterError r e n = .retrying r' n') :
    r'.jobIdForStatus = r.jobIdForStatus ∧ r'.success = false := by
  unfold afterError at h
  split at h <;> cases h <;> exact ⟨rfl, rfl⟩

lemma gatePass_some {lastResult pass} (h : gatePass w flow lastResult db = some pass) :
    ∃ s result status messages approvers,
      beforeGate w flow (resolvedEnv w flow) lastResult db.status = .ok (.inr result) ∧
      needsResume flow db.status = some (s, pass.last) ∧ pass.required = s.requiredEvents.getD 0 ∧
      pass.rows = gateRows pass.last w.flowJob.id db.resumeJobs ∧ canBeResumed s pass.rows = true ∧
      suspendGate w flow (resolvedEnv w flow) db.status
    (statusModuleAt (Step.fromI32AndLen db.status.step flow.modules.length) db.status)
    result db.resumeJobs = .ok (status, .run messages approvers) := by
  unfold gatePass at h
  dsimp only at h
  split at h
  · rename_i result s last hbefore hneeds
    split_ifs at h with hcond
    cases h
    generalize statusModuleAt (Step.fromI32AndLen db.status.step flow.modules.length) db.status =
      statusModule at hcond ⊢
    simp only [Bool.and_eq_true] at hcond
    obtain ⟨⟨hwait, hcan⟩, hconditions⟩ := hcond
    obtain ⟨messages, approvers, hrun⟩ := (@gateDecision_run s statusModule _).mpr (.inl hcan)
    cases hc : approvalConditions w (resolvedEnv w flow) result s with
    | error e => rw [hc] at hconditions; cases hconditions
    | ok conditions =>
      refine ⟨s, result, gateStatus s last statusModule (gateRows last w.flowJob.id db.resumeJobs)
        conditions db.status, messages, approvers, hbefore, hneeds, rfl, rfl, hcan, ?_⟩
      unfold suspendGate
      rw [if_pos hwait, hneeds]
      dsimp only
      rw [hc, ← hrun]
      rfl
  · cases h

/-! ### The shape of the stored status -/

/-- The stored status has the places of the flow, and its step counter points at one of them. -/
structure Shape (flow : FlowValue) (status : FlowStatus) : Prop where
  step : -1 ≤ status.step
  length : flow.modules.length ≤ status.modules.length
  preprocessor : flow.preprocessorModule.isSome = true → status.preprocessorModule.isSome = true

section Shape

variable {w : World} {status status' : FlowStatus} {statusModule : FlowStatusModule}
  {flowEnv : Option Args}

lemma shape_new (flow : FlowValue) : Shape flow (.new flow) := by
  refine ⟨?_, by simp [FlowStatus.new], fun h => by simpa [FlowStatus.new] using h⟩
  simp only [FlowStatus.new]
  split_ifs <;> omega

lemma Shape.tracks (hs : Shape flow status) (h : Tracks status status') : Shape flow status' :=
  ⟨h.step ▸ hs.step, h.length ▸ hs.length, h.preprocessorModule ▸ hs.preprocessor⟩

lemma Shape.commit {c} (hs : Shape flow status) (hold : -1 ≤ old.step)
    (hup : updateStatus w flow old status r = .ok (.committed c)) : Shape flow c.status := by
  obtain ⟨_, _, -, -, htrans, -, hstatus⟩ := updateStatus_committed hup
  have hstored := hs.tracks (moduleTransition_tracks htrans)
  rw [hstatus]
  refine ⟨?_, hstored.length.trans length_le_commitTransition,
    fun h => preprocessorModule_commitTransition (hstored.preprocessor h)⟩
  rw [commitTransition_step]
  split_ifs
  · omega
  · exact hstored.step

variable {db db' : FlowDb} {step : Step}

lemma Shape.handles {tries : ℕ} {ctrl : Ctrl} (hs : Shape flow db.status)
    (hold : Tracks old db.status)
    (h : Handles w flow old r tries db db' ctrl) : Shape flow db'.status :=
  h.invariant hs (fun hup => hs.tracks (updateStatus_nonLastParallelBranch hup).1)
    fun hup => hs.commit (hold.step ▸ hs.step) hup

lemma Shape.chosen {result : Json} {start : Start} (hs : Shape flow status)
    (h : Chosen w flow flowEnv step statusModule result status status' start) :
    Shape flow status' := by
  cases h with
  | module _ _ => exact hs
  | retry _ _ _ | failureModule _ _ _ _ _ =>
    exact ⟨by simpa using hs.step, by simpa using hs.length, by simpa using hs.preprocessor⟩

lemma Shape.writePushed (hs : Shape flow status) (start : Start) (m : FlowStatusModule) :
    Shape flow (writePushed flow start m status) := by
  refine ⟨step_writePushed, hs.length.trans length_le_writePushed, fun h => ?_⟩
  unfold Push.writePushed
  split
  · exact hs.preprocessor h
  · rfl
  · exact hs.preprocessor h

lemma Shape.pushes {lastResult res} (hs : Shape flow db.status)
    (h : Pushes w flow flowEnv lastResult db step statusModule db' res) :
    Shape flow db'.status := by
  cases h with
  | failed e | ended update => exact hs
  | parked _ hgate =>
    obtain ⟨_, _, _, _, -, hstep, -, hpre, hlen, -⟩ := puts_park hgate
    exact ⟨hstep ▸ hs.step, hs.length.trans hlen, hpre ▸ hs.preprocessor⟩
  | refused _ hgate | stuck _ hgate e => exact hs.tracks (suspendGate_tracks rfl hgate)
  | chosen _ hgate hch e => exact (hs.tracks (suspendGate_tracks rfl hgate)).chosen hch
  | started _ hgate hch hstart =>
    have hs' := (hs.tracks (suspendGate_tracks rfl hgate)).chosen hch
    obtain ⟨-, -, ⟨_, -, rfl, -⟩ | ⟨_, _, -, hcom, -⟩⟩ := startModule_ok hstart
    · exact ⟨hs'.step, hs'.length.trans (length_le_setModule _ _ _), hs'.preprocessor⟩
    · obtain ⟨_, m, _, -, -, rfl⟩ := commitJobs_ok hcom
      exact hs'.writePushed _ m

lemma Shape.statusAt_statusModule {step : ℤ} {m} (hs : Shape flow status)
    (hm : flowModuleAt flow (placeOf (Step.fromI32AndLen step flow.modules.length)) = some m) :
    statusAt status (placeOf (Step.fromI32AndLen step flow.modules.length))
      = some (statusModuleAt (Step.fromI32AndLen step flow.modules.length) status) := by
  cases hstep : Step.fromI32AndLen step flow.modules.length with
  | step i n =>
    obtain ⟨-, -, hlt⟩ := fromI32AndLen_eq_step.mp hstep
    show status.modules[i]? = some ((status.modules[i]?).getD _)
    rw [List.getElem?_eq_getElem (hlt.trans_le hs.length)]
    rfl
  | preprocessorStep =>
    rw [hstep] at hm
    have hsome : status.preprocessorModule.isSome = true := by
      refine hs.preprocessor ?_
      rw [show flow.preprocessorModule = some m from hm]
      rfl
    obtain ⟨p, hp⟩ := isSome_iff_exists.mp hsome
    show status.preprocessorModule = some (status.preprocessorModule.getD _)
    rw [hp]
    rfl
  | failureStep => rfl

end Shape

/-! ### What a committed report does -/

/-- **What a committed report does to the stored status.** -/
inductive Commits (w : World) (flow : FlowValue) (old status : FlowStatus) (r : Report)
    (c : Committed) : Prop
  | goesOn {p : InProgress} {early : EarlyStop} (hstatus : moduleStatus old = .ok (.inProgress p))
      (hearly : earlyStop w flow old (.inProgress p) (enteringReport flow old r) = .ok early)
      (hcase : stepCase flow old (.inProgress p) (enteringReport flow old r) early = .goesOn p)
      (hte : c.transition.early = early) (hsuccess : c.transition.success = r.success)
      (hflag : c.transition.hasTriggeredErrorHandler
        = (enteringReport flow old r).hasTriggeredErrorHandler)
      (htracks : Tracks status c.status)
  | ok {s : Success} (hwrites : Writes status c.status (placeOf old.moduleStep) (.success s))
      (hretries : ∀ job ∈ s.failedRetries, job ∈ status.retry.failedJobs)
      (hstep : c.status.step = status.step + 1) (hsuccess : c.transition.success = true)
      (hretry : c.status.retry = if 0 < status.retry.failCount then .default else status.retry)
      (hcont : ∃ goesOn,
        shouldContinueFlow w flow old (enteringReport flow old r) c.transition = .ok goesOn ∧
          (goesOn = true → status.step + 1 < status.modules.length))
  | failed {f : Failure} {m : FlowStatusModule}
      (hwrites : Writes status c.status (placeOf old.moduleStep) (.failure f))
      (hstatus : moduleStatus old = .ok m) (hjob : f.job = r.jobIdForStatus)
      (hretries : ∀ job ∈ f.failedRetries, job ∈ status.retry.failedJobs)
      (hstep : c.status.step = status.step ∨ c.status.step = status.step + 1 ∧
        ∃ m, currentModule flow old = some m ∧ m.continuesOnError = true ∧
          (r.success = true → m.stopAfterIf.isSome ∨ m.stopAfterAllItersIf.isSome))
      (hsuccess : c.transition.success = false) (hretry : c.status.retry = status.retry)

lemma Shape.modules_ne_nil (hs : Shape flow status)
    (hne : flow.modules ≠ []) (hold : Tracks old status) : old.modules ≠ [] := by
  have hlen := hs.length
  have hpos := List.length_pos_iff.mpr hne
  rw [hold.length] at hlen
  exact List.length_pos_iff.mp (hpos.trans_le hlen)

lemma updateStatus_commits {c} (hne : flow.modules ≠ []) (hs : Shape flow status)
    (hold : Tracks old status) (hup : updateStatus w flow old status r = .ok (.committed c)) :
    Commits w flow old status r c := by
  obtain ⟨m, early, hm, hearly, htrans, -, hstatus⟩ := updateStatus_committed hup
  have htracks := moduleTransition_tracks htrans
  have hold_ne := hs.modules_ne_nil hne hold
  have hwrites : ∀ m', c.transition.newStatus = some m' →
      Writes status c.status (placeOf old.moduleStep) m' := fun m' hnew => by
    obtain ⟨ℓ, hputs, rfl | ⟨j, -, hnil | hj⟩⟩ :=
      @exists_puts_commitTransition old c.transition m' hnew
    · rw [hstatus]
      exact hputs.writes.after_keeps (keeps_of_tracks htracks)
    · exact absurd hnil hold_ne
    · exact absurd (htracks.length.trans hold.length) (by omega)
  have hstep := @commitTransition_step old c.transition
  have hretry := @commitTransition_retry old c.transition
  rw [← hstatus] at hstep hretry
  rw [htracks.retry, ← hold.retry] at hretry
  rw [htracks.step, ← hold.step] at hstep
  cases moduleTransition_settled (earlyStop_ok hearly).1 htrans with
  | goesOn hcase hnew hinc hsuccess hte hflag =>
    obtain ⟨rfl, -, -⟩ := stepCase_goesOn hcase
    refine .goesOn hm hearly hcase hte (by simpa using hsuccess) hflag ?_
    rw [hstatus, commitTransition, hnew]
    simpa [countStep, hinc] using htracks
  | ok hnew hinc hsuccess hno hretries =>
    rw [hinc] at hstep
    rw [hnew] at hretry
    refine .ok (hwrites _ hnew) (hold.retry ▸ hretries) hstep hsuccess hretry ?_
    rw [hold.step, hold.length]
    exact shouldContinueFlow_of_success hsuccess hinc hno
  | failed hnew hjob hsuccess hretries hinc =>
    rw [hnew] at hretry
    refine .failed (hwrites _ hnew) hm (by simpa using hjob) (hold.retry ▸ hretries)
      ?_ hsuccess hretry
    by_cases h : c.transition.incStepCounter = true
    · rw [h] at hstep
      obtain ⟨hpast, he, hends⟩ := hinc h
      refine .inr ⟨hstep, ?_⟩
      simpa using continuesPast_ok hearly he hpast hends
    · rw [if_neg h] at hstep
      exact .inl hstep

end Windmill.Flow.Run
