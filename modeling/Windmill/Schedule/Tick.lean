import Windmill.Flow.Completion

/-! # The next tick of a schedule

`push_scheduled_job` (`windmill-queue/src/schedule.rs`) computes the next instant of a schedule. It
is called by `commit_completed_job` (`windmill-queue/src/jobs.rs`) and `handle_flow`
(`windmill-worker/src/worker_flow.rs`): scripts push when they complete, flows when they are first
handled, and a flow that completes without having been handled pushes after all, which is read off
its status. -/

namespace Windmill.Schedule.Tick

open Flow.Value Flow.Status Flow.Reads Flow.Completion Lib.Except

/-! ### Instants, in microseconds -/

/-- The schedule of a cron expression: `find_next` is later. -/
structure Cron where
  findNext : ℤ → ℤ
  lt_findNext : ∀ t, t < findNext t

def effectiveNow (now : ℤ) (nowCutoff : Option ℤ) : ℤ :=
  match nowCutoff with
  | some cutoff => if now ≤ cutoff then cutoff + 1000000 else now
  | none => now

def startingFrom (now : ℤ) (pausedUntil : Option ℤ) : ℤ :=
  match pausedUntil with
  | some paused => if now < paused then paused else now
  | none => now

def pausedAfter (now : ℤ) (pausedUntil : Option ℤ) : Option ℤ :=
  pausedUntil.filter fun paused => decide (now < paused)

def Cron.next (cron : Cron) (now : ℤ) (nowCutoff pausedUntil : Option ℤ) : ℤ :=
  cron.findNext (startingFrom (effectiveNow now nowCutoff) pausedUntil)

section

variable {cron : Cron} {now : ℤ} {nowCutoff pausedUntil : Option ℤ}

lemma le_effectiveNow : now ≤ effectiveNow now nowCutoff := by
  unfold effectiveNow
  split
  · split_ifs <;> omega
  · exact le_refl _

lemma le_startingFrom : now ≤ startingFrom now pausedUntil := by
  unfold startingFrom
  split
  · split_ifs <;> omega
  · exact le_refl _

lemma effectiveNow_lt_next : effectiveNow now nowCutoff < cron.next now nowCutoff pausedUntil :=
  lt_of_le_of_lt le_startingFrom (cron.lt_findNext _)

lemma now_lt_next : now < cron.next now nowCutoff pausedUntil :=
  lt_of_le_of_lt le_effectiveNow effectiveNow_lt_next

/-- **The next tick is later than the job it is pushed for**, whatever the clock says. -/
theorem cutoff_lt_next (cutoff : ℤ) : cutoff < cron.next now (some cutoff) pausedUntil := by
  refine lt_trans ?_ effectiveNow_lt_next
  unfold effectiveNow
  dsimp only
  split_ifs <;> omega

/-- **The next tick is after the pause.** -/
theorem paused_lt_next (paused : ℤ) : paused < cron.next now nowCutoff (some paused) := by
  refine lt_of_le_of_lt ?_ (cron.lt_findNext _)
  unfold startingFrom
  dsimp only
  split_ifs <;> omega

end

/-! ### Who pushes -/

/-- The status of a flow that `handle_flow` has not dealt with, or that failed in the first call. -/
def neverHandled (status : FlowStatus) : Bool :=
  decide (status.step = 0) && match status.modules with
    | [] => true
    | .waitingForPriorSteps _ :: _ => true
    | .failure f :: _ => decide (f.job = nilUuid)
    | _ => false

/-- `schedule_next_tick`: whether the completion of a job pushes the next one. The status is that of
a flow. -/
def scheduleNextTick (status : Option FlowStatus) (success fromCache : Bool) : Bool :=
  match status with
  | none => true
  | some status => fromCache || (!success && neverHandled status)

/-- Whether `handle_flow` pushes the next job. -/
def handleFlowSchedules (status : FlowStatus) : Bool :=
  decide (status.retry.failCount = 0) && decide (status.step = 0)

/-! ### A failure before the first step

A flow that cannot be handled at all is reported to itself as a failure of the job `nil`. -/

structure NilFailure (r : Report) : Prop where
  job : r.jobIdForStatus = nilUuid
  failed : r.success = false
  override : r.stopEarlyOverride = none

def SkipsFirst (w : World) (flow : FlowValue) (r : Report) : Prop :=
  ∃ m, flow.modules[0]? = some m ∧ m.continuesOnError = true ∧
    evaluateRetry w (m.retry.getD .default) .default r.result w.flowJob.args none = .ok none

def pushedStatus (flow : FlowValue) : FlowStatus := .new { flow with preprocessorModule := none }

variable {w : World} {flow : FlowValue} {r : Report} {status : FlowStatusModule}

lemma pushedStatus_neverHandled : neverHandled (pushedStatus flow) = true := by
  unfold neverHandled pushedStatus FlowStatus.new
  cases flow.modules <;> rfl

lemma pushedStatus_moduleStep : (pushedStatus flow).moduleStep =
    if flow.modules = [] then .failureStep else .step 0 flow.modules.length := by
  split_ifs with hm
  · exact fromI32AndLen_eq_failureStep.mpr (by simp [pushedStatus, FlowStatus.new, hm])
  · exact fromI32AndLen_eq_step.mpr
      (by simp [pushedStatus, FlowStatus.new, List.length_pos_iff.mpr hm])

lemma pushedStatus_currentModule : currentModule flow (pushedStatus flow) = flow.modules[0]? := by
  unfold currentModule
  rw [pushedStatus_moduleStep]
  cases flow.modules <;> rfl

lemma pushedStatus_moduleStatus (h : moduleStatus (pushedStatus flow) = .ok status) :
    ∃ id, status = .waitingForPriorSteps id := by
  unfold moduleStatus at h
  rw [pushedStatus_moduleStep] at h
  cases hm : flow.modules with
  | nil =>
    rw [if_pos hm] at h
    cases h
    exact ⟨_, rfl⟩
  | cons m ms =>
    rw [if_neg (hm ▸ List.cons_ne_nil m ms)] at h
    simp only [pushedStatus, FlowStatus.new, hm, List.map_cons, List.getElem?_cons_zero] at h
    cases h
    exact ⟨_, rfl⟩

lemma jsonbSetArr_zero {α : Type} (l : List α) (v : α) : jsonbSetArr l 0 v = v :: l.tail := by
  cases l with
  | nil => rfl
  | cons a l =>
    have h := @jsonbSetArr_natCast α (a :: l) 0 (by simp) v
    simpa using h

lemma pushedStatus_not_isFailureStep : isFailureStep (pushedStatus flow) = false := by
  unfold isFailureStep pushedStatus FlowStatus.new
  cases flow.modules <;> simp

lemma pushedStatus_not_isPreprocessorStep : (pushedStatus flow).moduleStep.isPreprocessorStep =
    false := by
  have hstep : (pushedStatus flow).step = 0 := rfl
  unfold FlowStatus.moduleStep Step.fromI32AndLen
  rw [hstep, if_neg (lt_irrefl _)]
  split_ifs <;> rfl

lemma earlyStop_nilFailure {early} (hr : r.success = false) (ho : r.stopEarlyOverride = none)
    (h : earlyStop w flow (pushedStatus flow) status r = .ok early) :
    early.stopEarly = false ∧ (early.continueOnError = true →
      ∃ m, flow.modules[0]? = some m ∧ m.continuesOnError = true) := by
  unfold earlyStop at h
  rw [ho, hr, pushedStatus_not_isFailureStep, pushedStatus_not_isPreprocessorStep,
    pushedStatus_currentModule] at h
  cases hm : flow.modules[0]? with
  | none =>
    rw [hm] at h
    cases h
    exact ⟨rfl, nofun⟩
  | some m =>
    rw [hm] at h
    cases h
    exact ⟨rfl, fun hc => ⟨m, rfl, hc⟩⟩

/-- **What the report of the job `nil` leaves of a flow that was never handled**: a flow that is
seen to be so, unless the report moves the flow past its first module. -/
theorem nilFailure_neverHandled {c} (hr : NilFailure r) (hskip : ¬SkipsFirst w flow r)
    (h : updateStatus w flow (pushedStatus flow) (pushedStatus flow) r = .ok (.committed c)) :
    neverHandled c.status = true ∧ handleFlowSchedules c.status = true := by
  obtain ⟨status, early, hst, hearly, htrans, -, hc⟩ := updateStatus_committed h
  obtain ⟨id, rfl⟩ := pushedStatus_moduleStatus hst
  have hsucc : (enteringReport flow (pushedStatus flow) r).success = false := by
    rw [enteringReport_success, hr.failed]
  have hover : (enteringReport flow (pushedStatus flow) r).stopEarlyOverride = none := by
    unfold enteringReport
    split_ifs <;> exact hr.override
  obtain ⟨hstop, hcontinue⟩ := earlyStop_nilFailure hsucc hover hearly
  obtain ⟨t, hend, ht⟩ := map_eq_ok.mp htrans
  have hends := endCase_ok hend
  rw [← ModuleCase.transition.inj ht] at hc
  have heq : t.early = early := by
    rw [hends.early]
    unfold endEarly loopBreak loopInfo isBranchAll
    simp [hstop]
  have hfail : t.success = false := by
    rw [hends.success]
    unfold endsOk
    rw [hsucc]
    rfl
  obtain ⟨hpast, f, hnew, -, -, hjob, -⟩ := hends.failed hfail
  rw [enteringReport_jobIdForStatus, hr.job] at hjob
  have hinc : t.incStepCounter = false := by
    rw [heq] at hpast
    unfold continuesPast at hpast
    split_ifs at hpast with hon
    · obtain ⟨again, hagain, hnone⟩ := bind_eq_ok.mp hpast
      cases again with
      | some a => exact (pure_eq_ok.mp hnone).symm
      | none =>
        obtain ⟨m, hm, hcont⟩ := hcontinue hon
        rw [pushedStatus_currentModule, hm, enteringReport_result] at hagain
        exact absurd ⟨m, hm, hcont, hagain⟩ hskip
    · exact (Except.ok.inj hpast).symm
  have hretry : c.status.retry = .default := by
    rw [hc, commitTransition_retry, hnew, hends.stored]
    rfl
  have hstep : c.status.step = 0 := by
    rw [hc, commitTransition_step, hinc, hends.stored]
    rfl
  have hmods : c.status.modules = .failure f :: (pushedStatus flow).modules.tail := by
    rw [hc, commitTransition, hnew]
    rw [clearRetry_modules, writeModule, if_neg (by rw [pushedStatus_not_isFailureStep]; decide),
      if_neg (by rw [pushedStatus_not_isPreprocessorStep]; decide), FlowStatus.setModule,
      countStep_modules,
      hends.stored]
    exact jsonbSetArr_zero _ _
  refine ⟨?_, ?_⟩
  · rw [neverHandled, hstep, hmods]
    simp [hjob]
  · rw [handleFlowSchedules, hretry, hstep]
    rfl

end Windmill.Schedule.Tick
