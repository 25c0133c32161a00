import Windmill.Flow.Push

/-! # The safety of the approval gate

The module after a suspend step is started by a push that finds it waiting. The push goes through
the gate (`pushNextFlowJob_afterSuspend`), and what the gate lets through is exactly known
(`suspendGate_run`), so it can be said for which configurations no sequence of `resume_job` rows
makes the push start the module without the approvals it requires. -/

namespace Windmill.Flow.Approval

open Value Status Reads Flow.Suspend Push Lib.Except

/-- The rows for the given job or for the flow hold no disapproval and are at least `n`. -/
def ApprovedBy (n : ℕ) (job flowId : Uuid) (rows : List ResumeRow) : Prop :=
  (∀ r ∈ gateRows job flowId rows, r.approved = true) ∧ n ≤ (gateRows job flowId rows).length

def stepJob (status : FlowStatus) (i : ℕ) : Uuid :=
  ((status.modules[i]?).bind FlowStatusModule.job).getD nilUuid

/-- A flow about to start the module after the suspend step `i`, which requires `n` events. -/
structure AfterSuspend (w : World) (flow : FlowValue) (lastResult : Option Json)
    (status : FlowStatus) (i n : ℕ) (s : Suspend) (statusModule : FlowStatusModule)
    (result : Json) : Prop where
  step : status.step = i + 1
  inFlow : i + 1 < flow.modules.length
  suspend : (flow.modules[i]?).bind FlowModule.suspend = some s
  required : s.requiredEvents = some n
  pos : 1 ≤ n
  module : status.modules[i + 1]? = some statusModule
  waiting : statusModule.isWaiting = true
  last : lastJobResult w (.step (i + 1) flow.modules.length) status statusModule lastResult =
    .ok result

section Gate

variable {w : World} {flow : FlowValue} {flowEnv : Option Args} {lastResult : Option Json}
  {status : FlowStatus} {i n : ℕ} {s : Suspend} {statusModule : FlowStatusModule} {result : Json}
  {db : FlowDb}
  {table : List ResumeRow}

lemma isSuccess_of_isWaiting {m : FlowStatusModule} (h : m.isWaiting = true) :
    m.isSuccess = false := by
  cases m with
  | waitingForPriorSteps _ => rfl
  | waitingForEvents _ _ _ => rfl
  | _ => cases h

lemma needsResume_afterSuspend
    (h : AfterSuspend w flow lastResult status i n s statusModule result) :
    needsResume flow status = if restartedHere flow status then none
    else match status.modules[i]? with
        | some (.success ended) => some (s, ended.job)
        | _ => none := by
  have hprev : status.step.toNat - 1 = i := by have := h.step; omega
  have hreq : s.requiredEvents.getD 0 ≠ 0 := by
    rw [h.required]; exact Nat.one_le_iff_ne_zero.mp h.pos
  unfold needsResume
  rw [if_neg (show ¬ status.step < 1 by have := h.step; omega), hprev, h.suspend]
  by_cases hrestart : restartedHere flow status = true
  · rw [if_pos hrestart, if_pos hrestart]
  · rw [if_neg hrestart, if_neg hrestart]
    exact if_neg hreq

lemma pushNextFlowJob_afterSuspend (h : AfterSuspend w flow lastResult status i n s statusModule
    result) (hdb : db.status = status) : pushNextFlowJob w flow flowEnv lastResult db
      = passGate w flow flowEnv (.step (i + 1) flow.modules.length) statusModule result db := by
  subst hdb
  have hstep : Step.fromI32AndLen db.status.step flow.modules.length
      = .step (i + 1) flow.modules.length := by
    rw [h.step]
    exact_mod_cast fromI32AndLen_natCast h.inFlow
  have hmod : statusModuleAt (.step (i + 1) flow.modules.length) db.status = statusModule := by
    simp only [statusModuleAt, h.module, Option.getD_some]
  have hemp : flow.modules.isEmpty = false := by
    have := h.inFlow
    cases hm : flow.modules with
    | nil => rw [hm] at this; simp at this
    | cons _ _ => rfl
  have hbefore : beforeGate w flow flowEnv lastResult db.status = .ok (.inr result) := by
    simp only [beforeGate, hstep, hmod, hemp, isSuccess_of_isWaiting h.waiting, Bool.false_and,
      Bool.or_self, Bool.false_eq_true, if_false, startChecks, Step.isFirst, h.last]
    rfl
  simp only [pushNextFlowJob, hbefore, hstep, hmod]

/-- **What the gate lets through.** -/
theorem suspendGate_run (hwait : statusModule.isWaiting = true) :
    (∃ status' messages approvers, suspendGate w flow flowEnv status statusModule result table
        = .ok (status', .run messages approvers)) ↔
      needsResume flow status = none ∨ ∃ s last, needsResume flow status = some (s, last) ∧
        (∃ c, approvalConditions w flowEnv result s = .ok c) ∧
        (canBeResumed s (gateRows last w.flowJob.id table) = true ∨
          continuesUnapproved s statusModule (gateRows last w.flowJob.id table) = true) := by
  unfold suspendGate
  rw [if_pos hwait]
  cases hneeds : needsResume flow status with
  | none => exact ⟨fun _ => .inl rfl, fun _ => ⟨_, _, _, rfl⟩⟩
  | some sl =>
    obtain ⟨s, last⟩ := sl
    constructor
    · rintro ⟨status', messages, approvers, h⟩
      obtain ⟨c, hc, h⟩ := bind_eq_ok.mp h
      have hd := (Prod.mk.inj (pure_eq_ok.mp h)).2
      exact .inr ⟨s, last, rfl, ⟨c, hc⟩, gateDecision_run.mp ⟨_, _, hd⟩⟩
    · rintro (h | ⟨s', last', h, ⟨c, hc⟩, hrun⟩)
      · cases h
      · cases h
        obtain ⟨messages, approvers, hd⟩ := gateDecision_run.mpr hrun
        exact ⟨_, _, _, bind_eq_ok.mpr ⟨c, hc, pure_eq_ok.mpr (Prod.ext rfl hd)⟩⟩

lemma approvedBy_of_canBeResumed {job flowId rows} (hreq : s.requiredEvents = some n)
    (hn : n < u16Size) (h : canBeResumed s (gateRows job flowId rows) = true) :
    ApprovedBy n job flowId rows := by
  simp only [canBeResumed, Bool.and_eq_true, Option.isNone_iff_eq_none, decide_eq_true_eq] at h
  refine ⟨fun r hr => ?_, ?_⟩
  · have := List.find?_eq_none.mp h.1 r hr
    simpa using this
  · have hmod : requiredEvents s = n := by
      simp only [requiredEvents, hreq, Option.getD_some, Nat.mod_eq_of_lt hn]
    rw [← hmod]
    exact h.2

/-- The flow is parked, or fails: by an error, or by the update of a failure. -/
def ParkedOrFails (pushed : FlowDb × Except Error PushNextFlowJob) : Prop :=
  (∃ id count job, pushed.1.status.currentStep = some (.waitingForEvents id count job) ∧
      pushed.2 = .ok (.done none)) ∨
    (∃ e, pushed.2 = .error e) ∨ ∃ update, pushed.2 = .ok (.done (some update)) ∧
      update.success = false

lemma passGate_not_run {step : Step}
    (h : ¬ ∃ status' messages approvers, suspendGate w flow flowEnv db.status statusModule result
      db.resumeJobs = .ok (status', .run messages approvers)) :
    (passGate w flow flowEnv step statusModule result db).1.queued = db.queued ∧
      ParkedOrFails (passGate w flow flowEnv step statusModule result db) := by
  unfold passGate
  cases hg : suspendGate w flow flowEnv db.status statusModule result db.resumeJobs with
  | error e => exact ⟨rfl, .inr (.inl ⟨e, rfl⟩)⟩
  | ok res =>
    obtain ⟨status', gate⟩ := res
    cases gate with
    | run messages approvers => exact absurd ⟨_, _, _, hg⟩ h
    | park n =>
      obtain ⟨s, last, -, hcur, -⟩ := suspendGate_park hg
      exact ⟨rfl, .inl ⟨_, _, _, hcur, rfl⟩⟩
    | refuse result => exact ⟨rfl, .inr (.inr ⟨_, rfl, rfl⟩)⟩

lemma passGate_queues {step : Step}
    (hstart : ∀ db messages approvers, (pushModule w flow flowEnv step statusModule result messages
      approvers db).1.queued ≠ db.queued)
    (hrun : ∃ status' messages approvers, suspendGate w flow flowEnv db.status statusModule result
      db.resumeJobs = .ok (status', .run messages approvers)) :
    (passGate w flow flowEnv step statusModule result db).1.queued ≠ db.queued := by
  obtain ⟨status', messages, approvers, hg⟩ := hrun
  simp only [passGate, hg]
  exact hstart { db with status := status' } messages approvers

/-- The three reasons for which the module after the suspend step `i` may be started. -/
def MayStart (w : World) (flow : FlowValue) (status : FlowStatus) (i n : ℕ) (s : Suspend)
    (rows : List ResumeRow) : Prop :=
  ApprovedBy n (stepJob status i) w.flowJob.id rows ∨ s.continueOnDisapproveTimeout = some true ∨
    restartedHere flow status = true

/-- When the push lets nothing through without approval: the flow was restarted here, goes on
regardless, or the suspend step succeeded and its count fits in sixteen bits (or the gate fails on
its approval conditions). -/
def SafeConfig (w : World) (flow : FlowValue) (flowEnv : Option Args) (status : FlowStatus)
    (i n : ℕ) (s : Suspend) (result : Json) : Prop :=
  restartedHere flow status = true ∨ s.continueOnDisapproveTimeout = some true ∨
    ((∃ ended, status.modules[i]? = some (.success ended)) ∧
      (n < u16Size ∨ ∃ e, approvalConditions w flowEnv result s = .error e))

def approvalRows (job : Uuid) (k : ℕ) : List ResumeRow :=
  List.replicate k ⟨nilUuid, job, 0, .null, none, true⟩

lemma gateRows_approvalRows (job flowId : Uuid) (k : ℕ) :
    gateRows job flowId (approvalRows job k) = approvalRows job k := by
  simp [gateRows, approvalRows]

lemma mayStart_of_run (h : AfterSuspend w flow lastResult status i n s statusModule result)
    (hsafe : SafeConfig w flow flowEnv status i n s result) (hrun : ∃ status' messages approvers,
    suspendGate w flow flowEnv status statusModule result table
      = .ok (status', .run messages approvers)) : MayStart w flow status i n s table := by
  rcases hsafe with hrestart | hgo | ⟨⟨ended, hended⟩, hcnt⟩
  · exact .inr (.inr hrestart)
  · exact .inr (.inl hgo)
  by_cases hrestart : restartedHere flow status = true
  · exact .inr (.inr hrestart)
  have hneeds := needsResume_afterSuspend h
  rw [if_neg hrestart, hended] at hneeds
  have hjob : stepJob status i = ended.job := by simp [stepJob, hended, FlowStatusModule.job]
  rcases (suspendGate_run h.waiting).mp hrun with hnone | ⟨s', last, hsome, ⟨c, hc⟩, hgate⟩
  · simp [hneeds] at hnone
  rw [hneeds] at hsome
  cases hsome
  rcases hgate with hgate | hgate
  · rcases hcnt with hn | ⟨e, he⟩
    · rw [← hjob] at hgate
      exact .inl (approvedBy_of_canBeResumed h.required hn hgate)
    · simp [hc] at he
  · simp only [continuesUnapproved, Bool.and_eq_true] at hgate
    have := hgate.2
    cases hcont : s.continueOnDisapproveTimeout with
    | none => rw [hcont] at this; cases this
    | some b => rw [hcont] at this; exact .inr (.inl (by rw [hcont, show b = true from this]))

lemma run_unapproved (h : AfterSuspend w flow lastResult status i n s statusModule result)
    (hviol : ¬ SafeConfig w flow flowEnv status i n s result) :
    ∃ table, (∃ status' messages approvers,
      suspendGate w flow flowEnv status statusModule result table
        = .ok (status', .run messages approvers)) ∧ ¬ MayStart w flow status i n s table := by
  simp only [SafeConfig, not_or, not_and, not_exists, not_lt] at hviol
  obtain ⟨hrestart, hgo, hcnt⟩ := hviol
  have hneeds := needsResume_afterSuspend h
  rw [if_neg hrestart] at hneeds
  by_cases hended : ∃ ended, status.modules[i]? = some (.success ended)
  · -- the count is compared by its low sixteen bits only
    obtain ⟨ended, hended⟩ := hended
    rw [hended] at hneeds
    obtain ⟨hn, hcond⟩ := hcnt ⟨ended, hended⟩
    have hjob : stepJob status i = ended.job := by simp [stepJob, hended, FlowStatusModule.job]
    have hlow : requiredEvents s < u16Size := Nat.mod_lt _ (by decide)
    refine ⟨approvalRows ended.job (requiredEvents s), (suspendGate_run h.waiting).mpr
      (.inr ⟨s, ended.job, hneeds, ?_, .inl ?_⟩), ?_⟩
    · cases hc : approvalConditions w flowEnv result s with
      | error e => exact absurd hc (hcond e)
      | ok c => exact ⟨c, rfl⟩
    · rw [gateRows_approvalRows]
      simp [canBeResumed, disapproval, approvalRows]
    · rintro (happ | hc | hc)
      · have hlen := happ.2
        rw [hjob, gateRows_approvalRows, approvalRows, List.length_replicate] at hlen
        omega
      · exact hgo hc
      · exact hrestart hc
  · -- a suspend step that did not succeed is not waited for at all
    have hnone : needsResume flow status = none := by
      rw [hneeds]
      split
      · rename_i ended hm
        exact absurd ⟨ended, hm⟩ hended
      · rfl
    refine ⟨[], (suspendGate_run h.waiting).mpr (.inl hnone), ?_⟩
    rintro (happ | hc | hc)
    · have hlen := happ.2
      have := h.pos
      simp [gateRows] at hlen
      omega
    · exact hgo hc
    · exact hrestart hc

/-- **In a safe configuration no sequence of rows starts the module after a suspend step without a
reason: nothing is queued and the flow is parked or fails.** In every other configuration some
sequence of rows starts a module that can be started. -/
theorem suspended_step_safe (h : AfterSuspend w flow lastResult status i n s statusModule result) :
    (SafeConfig w flow flowEnv status i n s result → ∀ db : FlowDb, db.status = status →
      ¬ MayStart w flow status i n s db.resumeJobs →
        (pushNextFlowJob w flow flowEnv lastResult db).1.queued = db.queued ∧
          ParkedOrFails (pushNextFlowJob w flow flowEnv lastResult db)) ∧
    ((∀ db messages approvers, (pushModule w flow flowEnv (.step (i + 1) flow.modules.length)
        statusModule result messages approvers db).1.queued ≠ db.queued) →
      ¬ SafeConfig w flow flowEnv status i n s result → ∃ db : FlowDb, db.status = status ∧
        ¬ MayStart w flow status i n s db.resumeJobs ∧
          (pushNextFlowJob w flow flowEnv lastResult db).1.queued ≠ db.queued) := by
  constructor
  · intro hsafe db hdb hno
    rw [pushNextFlowJob_afterSuspend h hdb]
    refine passGate_not_run fun hrun => hno ?_
    rw [hdb] at hrun
    exact mayStart_of_run h hsafe hrun
  · intro hstarts hviol
    obtain ⟨table, hrun, hno⟩ := run_unapproved h hviol
    refine ⟨⟨status, 0, false, table, none, []⟩, rfl, hno, ?_⟩
    rw [pushNextFlowJob_afterSuspend h rfl]
    exact passGate_queues hstarts hrun

end Gate

/-! ### A flow with one approval step -/

def gatedFlow (n : ℕ) : FlowValue where
  modules :=
    [{ id := "a", value := .script, suspend := some ⟨some n, none, none, none, none, none⟩ },
      { id := "b", value := .script }]

def gatedDb (n : ℕ) : FlowDb where
  status :=
    { FlowStatus.new (gatedFlow n) with
      step := 1
      modules := [.success ⟨"a", 5, none, none, none, none, [], [], false⟩,
        .waitingForPriorSteps "b"] }
  suspend := 0
  suspendUntil := false
  resumeJobs := []
  iteratorData := none
  queued := []

lemma gatedFlow_starts (n : ℕ) (db : FlowDb) (messages : List Json) (approvers : List String) :
    (pushModule (.plain (.plain 1)) (gatedFlow n) none (.step 1 2) (.waitingForPriorSteps "b") .null
      messages approvers db).1.queued ≠ db.queued := by
  have hq : (pushModule (.plain (.plain 1)) (gatedFlow n) none (.step 1 2)
      (.waitingForPriorSteps "b") .null messages approvers db).1.queued
        = db.queued ++ [⟨1000, "b", .runnable { id := "b", value := .script }, 0⟩] := rfl
  rw [hq]
  simp

/-- With two approvals required no table without them starts the next step; with 65536 one does. -/
theorem gatedFlow_safe : (∀ db : FlowDb, db.status = (gatedDb 2).status →
      ¬ MayStart (.plain (.plain 1)) (gatedFlow 2) (gatedDb 2).status 0 2
        ⟨some 2, none, none, none, none, none⟩ db.resumeJobs →
      (pushNextFlowJob (.plain (.plain 1)) (gatedFlow 2) none (some .null) db).1.queued =
      db.queued ∧
        ParkedOrFails (pushNextFlowJob (.plain (.plain 1)) (gatedFlow 2) none (some .null) db)) ∧
    ∃ db : FlowDb, db.status = (gatedDb 65536).status ∧
      ¬ MayStart (.plain (.plain 1)) (gatedFlow 65536) (gatedDb 65536).status 0 65536
        ⟨some 65536, none, none, none, none, none⟩ db.resumeJobs ∧
      (pushNextFlowJob (.plain (.plain 1)) (gatedFlow 65536) none (some .null) db).1.queued
        ≠ db.queued := by
  constructor
  · exact (suspended_step_safe ⟨rfl, by decide, rfl, rfl, by decide, rfl, rfl, rfl⟩).1
      (.inr (.inr ⟨⟨_, rfl⟩, .inl (by decide)⟩))
  · refine (suspended_step_safe ⟨rfl, by decide, rfl, rfl, by decide, rfl, rfl, rfl⟩).2
      (gatedFlow_starts 65536) ?_
    rintro (h | h | ⟨-, h | ⟨e, h⟩⟩)
    · cases h
    · cases h
    · exact absurd h (by decide)
    · cases h

/-- A step that requires 65536 approvals lets the next one start with none at all. -/
theorem unapproved_step_pushed :
    (pushNextFlowJob (.plain (.plain 1)) (gatedFlow 65536) none (some .null)
    (gatedDb 65536)).1.queued
        ≠ (gatedDb 65536).queued ∧ ¬ ApprovedBy 65536 (stepJob (gatedDb 65536).status 0) 1
        (gatedDb 65536).resumeJobs ∧
    restartedHere (gatedFlow 65536) (gatedDb 65536).status = false := by
  refine ⟨?_, fun h => absurd h.2 (by decide), rfl⟩
  exact List.cons_ne_nil _ _

end Windmill.Flow.Approval
