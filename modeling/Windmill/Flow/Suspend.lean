import Windmill.Flow.Reads
import Windmill.Lib.Except

/-! # The approval gate

Before a module is started, `push_next_flow_job` looks at the module before it: if that one has a
non-zero `suspend` count and ended in success, the rows of `resume_job` for its job or for the flow
are counted, and the flow goes on, fails or is parked until the missing events arrive. -/

namespace Windmill.Flow.Suspend

open Value Status Reads Lib.Except

/-- A row of `resume_job`. The table is kept in the order of `created_at`. -/
structure ResumeRow where
  id : Uuid
  job : Uuid
  resumeId : ℕ
  value : Json
  approver : Option String
  approved : Bool

/-- The flow was restarted at its current module: a flow restarted just after a suspend step does
not wait for it again. Nor does a restarted flow that has no current module. -/
def restartedHere (flow : FlowValue) (status : FlowStatus) : Bool :=
  match status.restartedFrom with
  | none => false
  | some restartedFrom =>
    match if status.step < 0 then none else flow.modules[status.step.toNat]? with
    | none => true
    | some current => restartedFrom.stepId == current.id

/-- `needs_resume`: the non-zero `suspend` of the module before the current one, and the job it ran.
-/
def needsResume (flow : FlowValue) (status : FlowStatus) : Option (Suspend × Uuid) :=
  if restartedHere flow status then none
  else if status.step < 1 then none
  else match (flow.modules[status.step.toNat - 1]?).bind FlowModule.suspend with
    | none => none
    | some suspend =>
      if suspend.requiredEvents.getD 0 = 0 then none
      else match status.modules[status.step.toNat - 1]? with
        | some (.success s) => some (suspend, s.job)
        | _ => none

variable {flow : FlowValue} {status status' : FlowStatus} {statusModule : FlowStatusModule} {n : ℕ}
  {w : World} {flowEnv : Option Args} {lastResult : Json}

lemma needsResume_some {s last} (h : needsResume flow status = some (s, last)) :
    restartedHere flow status = false ∧ s.requiredEvents.getD 0 ≠ 0 ∧ ∃ (i : ℕ) (ended : Success),
    status.step = i + 1 ∧
    (flow.modules[i]?).bind FlowModule.suspend = some s ∧ status.modules[i]? = some
    (.success ended) ∧ ended.job = last := by
  unfold needsResume at h
  split_ifs at h with hr hstep
  obtain ⟨i, hi⟩ : ∃ i : ℕ, status.step = i + 1 := ⟨(status.step - 1).toNat, by omega⟩
  have hprev : status.step.toNat - 1 = i := by omega
  rw [hprev] at h
  cases hs : (flow.modules[i]?).bind FlowModule.suspend with
  | none => rw [hs] at h; cases h
  | some suspend =>
    rw [hs] at h
    dsimp only at h
    split_ifs at h with hreq
    cases hm : status.modules[i]? with
    | none => rw [hm] at h; cases h
    | some m =>
      rw [hm] at h
      cases m with
      | success ended =>
        cases h
        exact ⟨by simpa using hr, hreq, i, ended, hi, hs, hm, rfl⟩
      | _ => cases h

def gateRows (last flow : Uuid) (rows : List ResumeRow) : List ResumeRow :=
  rows.filter fun r => r.job == last || r.job == flow

variable (s : Suspend)

/-- `required_events` as the gate compares it: `as u16` keeps the low sixteen bits. -/
def requiredEvents : ℕ := s.requiredEvents.getD 0 % u16Size

variable (rows : List ResumeRow)

def disapproval : Option ResumeRow := rows.find? fun r => !r.approved

def canBeResumed : Bool := (disapproval rows).isNone && decide (requiredEvents s ≤ rows.length)

def continuesUnapproved (statusModule : FlowStatusModule) (rows : List ResumeRow) : Bool :=
  !canBeResumed s rows && ((disapproval rows).isSome || !statusModule.isWaitingForPriorSteps)
    && s.continueOnDisapproveTimeout.getD false

def stringList : Json → Option (List String)
  | .arr elems => elems.mapM fun e => match e with
    | .str s => some s
    | _ => none
  | _ => none

def approvalConditions (w : World) (flowEnv : Option Args) (lastResult : Json) (s : Suspend) :
    Except Error (Option ApprovalConditions) :=
  if s.userAuthRequired.getD false then do
    let groups ← match s.userGroupsRequired with
      | some (.static value) => match stringList value with
        | some groups => pure groups
        | none => throw ⟨"Unable to deserialize group names"⟩
      | some (.javascript expr) =>
        match w.evalTimeout expr ⟨w.flowJob.args, flowEnv, lastResult, none, none, none⟩ with
        | .error e => throw ⟨"Error during isolated evaluation of expression `" ++ expr ++ "`:\n" ++
            e.message⟩
        | .ok value => match stringList value with
          | some groups => pure groups
          | none => throw ⟨"Result returned by input transform invalid"⟩
      | some .ai => pure []
      | none => pure []
    return some ⟨true, groups, s.selfApprovalDisabled.getD false⟩
  else return none

def suspendError : Json :=
  let (message, name) := match disapproval rows with
    | some r => ("Disapproved by " ++ r.approver.getD "unknown", "SuspendedDisapproved")
    | none => ("Timed out waiting to be resumed", "SuspendedTimedOut")
  .obj [("error", .obj [("message", .str message), ("name", .str name)])]

inductive Gate where
  | run (resumeMessages : List Json) (approvers : List String)
  | park (suspend : ℕ)
  | refuse (result : Json)

def Gate.isPark : Gate → Bool
  | .park _ => true
  | _ => false

def approvals : List Approval := rows.map fun r => ⟨r.resumeId % u16Size, r.approver.getD "unknown"⟩

def gateDecision (statusModule : FlowStatusModule) (rows : List ResumeRow) : Gate :=
  if canBeResumed s rows || continuesUnapproved s statusModule rows then
    .run (rows.map ResumeRow.value ++
        if continuesUnapproved s statusModule rows then [suspendError rows] else [])
      (rows.map fun r => r.approver.getD "anonymous")
  else if statusModule.isWaitingForPriorSteps && (disapproval rows).isNone then
    .park (requiredEvents s - rows.length)
  else .refuse (suspendError rows)

def storeConditions (conditions : Option ApprovalConditions) (status : FlowStatus) : FlowStatus :=
  { status with
    approvalConditions := match conditions with
      | some c => some c
      | none => status.approvalConditions }

def gateStatus (last : Uuid) (statusModule : FlowStatusModule) (rows : List ResumeRow)
    (conditions : Option ApprovalConditions) (status : FlowStatus) : FlowStatus :=
  let status := storeConditions conditions status
  match gateDecision s statusModule rows with
  | .run _ _ =>
    { status.modifyModule (status.step - 1) (.setApprovers (approvals rows)) with
      approvalConditions := none }
  | .park _ => status.setModule status.step
      (.waitingForEvents statusModule.id (requiredEvents s) last)
  | .refuse _ => status

/-- The gate: the status it leaves, and whether the module is started. -/
def suspendGate (w : World) (flow : FlowValue) (flowEnv : Option Args) (status : FlowStatus)
    (statusModule : FlowStatusModule) (lastResult : Json) (table : List ResumeRow) :
    Except Error (FlowStatus × Gate) :=
  if statusModule.isWaiting then
    match needsResume flow status with
    | none => .ok (status, .run [] [])
    | some (s, last) => do
      let rows := gateRows last w.flowJob.id table
      let conditions ← approvalConditions w flowEnv lastResult s
      return (gateStatus s last statusModule rows conditions status,
        gateDecision s statusModule rows)
  else .ok (status, .run [] [])

/-! ### What the gate decides -/

lemma gateDecision_park {s rows} (h : gateDecision s statusModule rows = .park n) :
    n = requiredEvents s - rows.length ∧ rows.length < requiredEvents s ∧
      disapproval rows = none ∧ statusModule.isWaitingForPriorSteps = true := by
  unfold gateDecision at h
  split_ifs at h with hrun hpark
  simp only [Bool.and_eq_true, Option.isNone_iff_eq_none] at hpark
  simp only [canBeResumed, hpark.2, Option.isNone_none, Bool.true_and, Bool.or_eq_true,
    decide_eq_true_eq, not_or, not_le] at hrun
  exact ⟨(Gate.park.inj h).symm, hrun.1, hpark.2, hpark.1⟩

lemma gateDecision_run {s statusModule rows} :
    (∃ messages approvers, gateDecision s statusModule rows = .run messages approvers) ↔
      canBeResumed s rows = true ∨ continuesUnapproved s statusModule rows = true := by
  rw [← Bool.or_eq_true]
  unfold gateDecision
  constructor
  · rintro ⟨messages, approvers, h⟩
    by_contra hno
    split_ifs at h
  · intro h
    rw [if_pos h]
    exact ⟨_, _, rfl⟩

variable {table : List ResumeRow}

section

variable (h : suspendGate w flow flowEnv status statusModule lastResult table =
  .ok (status', .park n))
include h

lemma suspendGate_parked : ∃ s last conditions, needsResume flow status = some (s, last) ∧
      gateDecision s statusModule (gateRows last w.flowJob.id table) = .park n ∧
      status' = gateStatus s last statusModule
      (gateRows last w.flowJob.id table) conditions status := by
  unfold suspendGate at h
  split_ifs at h with hwait
  · cases hneeds : needsResume flow status with
    | none => rw [hneeds] at h; cases h
    | some sl =>
      obtain ⟨s, last⟩ := sl
      rw [hneeds] at h
      obtain ⟨conditions, -, h⟩ := bind_eq_ok.mp h
      have h' := Prod.mk.inj (pure_eq_ok.mp h)
      exact ⟨s, last, conditions, rfl, h'.2, h'.1.symm⟩
  · cases h

lemma suspendGate_park : ∃ s last, needsResume flow status = some (s, last) ∧
      status'.currentStep = some (.waitingForEvents statusModule.id (requiredEvents s) last) ∧
      gateDecision s statusModule (gateRows last w.flowJob.id table) = .park n := by
  obtain ⟨s, last, conditions, hneeds, hdec, rfl⟩ := suspendGate_parked h
  refine ⟨s, last, hneeds, ?_, hdec⟩
  obtain ⟨-, -, i, ended, hi, -, hm, -⟩ := needsResume_some hneeds
  have hlen : i < status.modules.length := (List.getElem?_eq_some_iff.mp hm).1
  simp only [gateStatus, hdec]
  have h0 : 0 ≤ (storeConditions conditions status).step := by
    show 0 ≤ status.step
    omega
  have h1 : (storeConditions conditions status).step
      ≤ (storeConditions conditions status).modules.length := by
    show status.step ≤ status.modules.length
    omega
  exact FlowStatus.currentStep_setModule h0 h1 _

end

lemma suspendGate_passed {gate : Gate} (hgate : gate.isPark = false)
    (h : suspendGate w flow flowEnv status statusModule lastResult table = .ok (status', gate)) :
    status' = status ∨ ∃ conditions, status' = storeConditions conditions status ∨ ∃ approvers,
    status' =
        { (storeConditions conditions status).modifyModule (status.step - 1)
        (.setApprovers approvers) with
          approvalConditions := none } := by
  unfold suspendGate at h
  split_ifs at h
  · cases hneeds : needsResume flow status with
    | none =>
      rw [hneeds] at h
      cases h
      exact .inl rfl
    | some sl =>
      rw [hneeds] at h
      obtain ⟨conditions, -, h⟩ := bind_eq_ok.mp h
      cases pure_eq_ok.mp h
      refine .inr ⟨conditions, ?_⟩
      unfold gateStatus
      split
      · exact .inr ⟨_, rfl⟩
      · rename_i n hpark
        rw [hpark] at hgate
        cases hgate
      · exact .inl rfl
  · cases h
    exact .inl rfl

lemma suspendGate_tracks {gate : Gate} (hgate : gate.isPark = false)
    (h : suspendGate w flow flowEnv status statusModule lastResult table = .ok (status', gate)) :
    Tracks status status' := by
  have hstore : ∀ conditions, Tracks status (storeConditions conditions status) := fun _ =>
    ⟨rfl, rfl, rfl, rfl, rfl, rfl, (Tracks.refl status).modules⟩
  rcases suspendGate_passed hgate h with rfl | ⟨conditions, rfl | ⟨approvers, rfl⟩⟩
  · exact Tracks.refl _
  · exact hstore conditions
  · have hmod := @tracks_modifyModule (storeConditions conditions status) (status.step - 1)
      (.setApprovers approvers) fun m _ => sameWork_setApprovers _ m
    obtain ⟨h1, h2, h3, h4, h5, h6, h7⟩ := (hstore conditions).trans hmod
    exact ⟨h1, h2, h3, h4, h5, h6, h7⟩

end Windmill.Flow.Suspend
