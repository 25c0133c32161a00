import Windmill.Flow.Value

/-! # The stored status of a flow

`FlowStatus` is the JSON document kept in `v2_job_status.flow_status` for every flow job
(`windmill-types/src/flow_status.rs`). The engine writes it back through `JSONB_SET` on paths, so
the writes are updates of the stored document. Agent actions, clean-up lists and chat data are
carried along by the code and are left out. -/

namespace Windmill.Flow.Status

open Value

structure RetryStatus where
  failCount : ℕ
  failedJobs : List Uuid
deriving DecidableEq

def RetryStatus.default : RetryStatus := ⟨0, []⟩

structure ApprovalConditions where
  userAuthRequired : Bool
  userGroupsRequired : List String
  selfApprovalDisabled : Bool

structure RestartedFrom where
  stepId : String

structure FlowIterator where
  index : ℕ
  itered : Option (List Json)
  iteredLen : Option ℕ

def FlowIterator.len (it : FlowIterator) : ℕ :=
  match it.iteredLen with
  | some n => n
  | none => match it.itered with
    | some l => l.length
    | none => 0

structure BranchAllStatus where
  branch : ℕ
  len : ℕ

inductive BranchChosen where
  | default
  | branch (branch : ℕ)

structure Approval where
  resumeId : ℕ
  approver : String

structure FlowJobDuration where
  startedAt : ℤ
  durationMs : ℤ

structure FlowJobsDuration where
  startedAt : List (Option ℤ)
  durationMs : List (Option ℤ)

/-- `JSONB_SET` on the entry `i` of an array: a negative index counts from the end, an index past
the end appends and one before the start prepends. -/
def jsonbSetArr {α : Type*} (l : List α) (i : ℤ) (v : α) : List α :=
  let j := if i < 0 then i + l.length else i
  if j < 0 then v :: l else if j < l.length then l.set j.toNat v else l ++ [v]

lemma jsonbSetArr_natCast {α : Type*} {l} {i : ℕ} (h : i < l.length) (v : α) :
    jsonbSetArr l (i : ℤ) v = l.set i v := by
  unfold jsonbSetArr
  simp only [show ¬ ((i : ℤ) < 0) by omega, if_false, if_pos (show (i : ℤ) < l.length by omega),
    Int.toNat_natCast]

lemma jsonbSetArr_length {α : Type*} (l : List α) (v : α) :
    jsonbSetArr l (l.length : ℤ) v = l ++ [v] := by
  unfold jsonbSetArr
  simp only [show ¬ ((l.length : ℤ) < 0) by omega, if_false, lt_self_iff_false]

def FlowJobsDuration.new (n : ℕ) : FlowJobsDuration :=
  ⟨List.replicate n none, List.replicate n none⟩

variable (d : FlowJobsDuration)

def FlowJobsDuration.pushNone : FlowJobsDuration := ⟨d.startedAt ++ [none], d.durationMs ++ [none]⟩

def FlowJobsDuration.set (position : Option ℕ) (value : Option FlowJobDuration) :
    FlowJobsDuration :=
  match position, value with
  | some p, some v =>
    if p < d.startedAt.length ∧ p < d.durationMs.length then
      ⟨d.startedAt.set p (some v.startedAt), d.durationMs.set p (some v.durationMs)⟩
    else d
  | _, _ => d

def FlowJobsDuration.truncate (n : ℕ) : FlowJobsDuration :=
  ⟨d.startedAt.take n, d.durationMs.take n⟩

def FlowJobsDuration.jsonbSet (position : ℕ) (value : Option FlowJobDuration) : FlowJobsDuration :=
  ⟨jsonbSetArr d.startedAt position (value.map FlowJobDuration.startedAt),
   jsonbSetArr d.durationMs position (value.map FlowJobDuration.durationMs)⟩

/-! ### The status of one module -/

/-- A module whose jobs are running: a branch, the iterations of a loop, or the branches of a
branch-all. -/
structure InProgress where
  id : String
  job : Uuid
  iterator : Option FlowIterator
  flowJobs : Option (List Uuid)
  flowJobsSuccess : Option (List (Option Bool))
  flowJobsDuration : Option FlowJobsDuration
  branchChosen : Option BranchChosen
  branchall : Option BranchAllStatus
  parallel : Bool
  whileLoop : Bool

structure Success where
  id : String
  job : Uuid
  flowJobs : Option (List Uuid)
  flowJobsSuccess : Option (List (Option Bool))
  flowJobsDuration : Option FlowJobsDuration
  branchChosen : Option BranchChosen
  approvers : List Approval
  failedRetries : List Uuid
  skipped : Bool

structure Failure where
  id : String
  job : Uuid
  flowJobs : Option (List Uuid)
  flowJobsSuccess : Option (List (Option Bool))
  flowJobsDuration : Option FlowJobsDuration
  branchChosen : Option BranchChosen
  failedRetries : List Uuid

/-- `FlowStatusModule`: how far a module is. -/
inductive FlowStatusModule where
  | waitingForPriorSteps (id : String)
  | waitingForEvents (id : String) (count : ℕ) (job : Uuid)
  | waitingForExecutor (id : String) (job : Uuid)
  | inProgress (p : InProgress)
  | success (s : Success)
  | failure (f : Failure)

namespace FlowStatusModule

def id : FlowStatusModule → String
  | waitingForPriorSteps id => id
  | waitingForEvents id _ _ => id
  | waitingForExecutor id _ => id
  | inProgress p => p.id
  | success s => s.id
  | failure f => f.id

def job : FlowStatusModule → Option Uuid
  | waitingForPriorSteps _ => none
  | waitingForEvents _ _ job => some job
  | waitingForExecutor _ job => some job
  | inProgress p => some p.job
  | success s => some s.job
  | failure f => some f.job

def flowJobs : FlowStatusModule → Option (List Uuid)
  | inProgress p => p.flowJobs
  | success s => s.flowJobs
  | failure f => f.flowJobs
  | _ => none

def flowJobsSuccess : FlowStatusModule → Option (List (Option Bool))
  | inProgress p => p.flowJobsSuccess
  | success s => s.flowJobsSuccess
  | failure f => f.flowJobsSuccess
  | _ => none

def flowJobsDuration : FlowStatusModule → Option FlowJobsDuration
  | inProgress p => p.flowJobsDuration
  | success s => s.flowJobsDuration
  | failure f => f.flowJobsDuration
  | _ => none

def branchChosen : FlowStatusModule → Option BranchChosen
  | inProgress p => p.branchChosen
  | success s => s.branchChosen
  | failure f => f.branchChosen
  | _ => none

def isFailure : FlowStatusModule → Bool
  | failure _ => true
  | _ => false

def isSuccess : FlowStatusModule → Bool
  | success _ => true
  | _ => false

/-- The module has not been started: the states in which the approval gate is checked. -/
def isWaiting : FlowStatusModule → Bool
  | waitingForPriorSteps _ => true
  | waitingForEvents _ _ _ => true
  | _ => false

def isUnstarted : FlowStatusModule → Bool
  | waitingForPriorSteps _ => true
  | waitingForEvents _ _ _ => true
  | waitingForExecutor _ _ => true
  | _ => false

def isWaitingForPriorSteps : FlowStatusModule → Bool
  | waitingForPriorSteps _ => true
  | _ => false

/-- The path `failed_retries` written on a stored module status. The other statuses do not read it.
-/
def setFailedRetries (jobs : List Uuid) : FlowStatusModule → FlowStatusModule
  | success s => success { s with failedRetries := jobs }
  | failure f => failure { f with failedRetries := jobs }
  | m => m

def setApprovers (approvers : List Approval) : FlowStatusModule → FlowStatusModule
  | success s => success { s with approvers := approvers }
  | m => m

end FlowStatusModule

structure FlowStatusModuleWParent where
  parentModule : Option String
  moduleStatus : FlowStatusModule

/-! ### The status of a flow -/

/-- `FlowStatus`: how far a flow is. -/
structure FlowStatus where
  step : ℤ
  modules : List FlowStatusModule
  failureModule : FlowStatusModuleWParent
  preprocessorModule : Option FlowStatusModule
  retry : RetryStatus
  approvalConditions : Option ApprovalConditions
  restartedFrom : Option RestartedFrom

variable (s : FlowStatus)

namespace FlowStatus

def new (f : FlowValue) : FlowStatus where
  step := if f.preprocessorModule.isSome then -1 else 0
  modules := f.modules.map fun m => .waitingForPriorSteps m.id
  failureModule := ⟨none, .waitingForPriorSteps
    ((f.failureModule.map FlowModule.id).getD "failure")⟩
  preprocessorModule := f.preprocessorModule.map fun m => .waitingForPriorSteps m.id
  retry := .default
  approvalConditions := none
  restartedFrom := none

/-- What the step counter points at, as the completion handler reads it. -/
def moduleStep : Step := Step.fromI32AndLen s.step s.modules.length

/-- `FlowStatus::current_step`: the module status under the step counter, failure module excluded.
-/
def currentStep : Option FlowStatusModule := if s.step < 0 then none else s.modules[s.step.toNat]?

def setModule (i : ℤ) (m : FlowStatusModule) : FlowStatus :=
  { s with modules := jsonbSetArr s.modules i m }

/-- The place in `modules` that a path index means: a negative one counts from the end. -/
def moduleIndex (i : ℤ) : Option ℕ :=
  let j := if i < 0 then i + s.modules.length else i
  if j < 0 then none else some j.toNat

lemma moduleIndex_natCast (i : ℕ) : s.moduleIndex i = some i := by
  simp [moduleIndex, show ¬ ((i : ℤ) < 0) by omega]

/-- `JSONB_SET`s below a module status, which do nothing when the module is not there. -/
def modifyModule (i : ℤ) (f : FlowStatusModule → FlowStatusModule) : FlowStatus :=
  match s.moduleIndex i with
  | none => s
  | some j => { s with modules := s.modules.modify j f }

@[simp] lemma setModule_step (i : ℤ) (m : FlowStatusModule) : (s.setModule i m).step = s.step := rfl

@[simp] lemma modifyModule_step (i : ℤ)
    (f : FlowStatusModule → FlowStatusModule) : (s.modifyModule i f).step = s.step := by
  unfold modifyModule; split <;> rfl

@[simp] lemma modifyModule_failureModule (i : ℤ) (f : FlowStatusModule → FlowStatusModule) :
    (s.modifyModule i f).failureModule = s.failureModule := by
  unfold modifyModule; split <;> rfl

@[simp] lemma modifyModule_preprocessorModule (i : ℤ) (f : FlowStatusModule → FlowStatusModule) :
    (s.modifyModule i f).preprocessorModule = s.preprocessorModule := by
  unfold modifyModule; split <;> rfl

@[simp] lemma modifyModule_length (i : ℤ) (f : FlowStatusModule → FlowStatusModule) :
    (s.modifyModule i f).modules.length = s.modules.length := by
  unfold modifyModule; split <;> simp

lemma setModule_getElem?_natCast {s : FlowStatus} {i : ℕ} (h : i < s.modules.length)
    (m : FlowStatusModule) : (s.setModule i m).modules[i]? = some m := by
  simp only [setModule, jsonbSetArr_natCast h]
  simp [h]

lemma currentStep_setModule {s : FlowStatus} (h0 : 0 ≤ s.step) (h : s.step ≤ s.modules.length)
    (m : FlowStatusModule) : (s.setModule s.step m).currentStep = some m := by
  obtain ⟨i, hi⟩ := Int.eq_ofNat_of_zero_le h0
  simp only [currentStep, setModule_step, hi, if_neg (show ¬ ((i : ℤ) < 0) by omega),
    Int.toNat_natCast]
  rw [hi] at h
  rcases Nat.lt_or_eq_of_le (Int.ofNat_le.mp h) with hlt | heq
  · exact setModule_getElem?_natCast hlt m
  · rw [heq, setModule, jsonbSetArr_length]
    simp

end FlowStatus

/-! ### Bookkeeping

Handlers of the children of one module change the counters and the per-child records of its status,
the approval gate records the approvers of a step, and nothing else. -/

/-- `flow_status->'modules'->i`, a negative index counting from the end. -/
def moduleAt (i : ℤ) : Option FlowStatusModule :=
  match s.moduleIndex i with
  | none => none
  | some j => s.modules[j]?

lemma moduleAt_natCast (i : ℕ) : moduleAt s i = s.modules[i]? := by
  rw [moduleAt, s.moduleIndex_natCast]

/-- The same status, up to the counters and records of a running module and the approvers of one
that has ended. -/
inductive SameWork : FlowStatusModule → FlowStatusModule → Prop
  | refl (m : FlowStatusModule) : SameWork m m
  | inProgress {p q : InProgress} (flowJobs : q.flowJobs = p.flowJobs)
      (iterator : q.iterator.isSome = p.iterator.isSome)
      (branchall : q.branchall.isSome = p.branchall.isSome) (parallel : q.parallel = p.parallel)
      (whileLoop : q.whileLoop = p.whileLoop) : SameWork (.inProgress p) (.inProgress q)
  | approved {s t : Success} (job : t.job = s.job)
    (failedRetries : t.failedRetries = s.failedRetries) :
      SameWork (.success s) (.success t)

lemma SameWork.trans {m₁ m₂ m₃} (h : SameWork m₁ m₂) (h' : SameWork m₂ m₃) : SameWork m₁ m₃ := by
  cases h with
  | refl => exact h'
  | inProgress hj hi hb hp hw =>
    cases h' with
    | refl => exact .inProgress hj hi hb hp hw
    | inProgress hj' hi' hb' hp' hw' =>
      exact .inProgress (hj'.trans hj) (hi'.trans hi) (hb'.trans hb) (hp'.trans hp) (hw'.trans hw)
  | approved hj hf =>
    cases h' with
    | refl => exact .approved hj hf
    | approved hj' hf' => exact .approved (hj'.trans hj) (hf'.trans hf)

/-- The modules are the same up to their counters. -/
structure Tracks (s s' : FlowStatus) : Prop where
  step : s'.step = s.step
  retry : s'.retry = s.retry
  failureModule : s'.failureModule = s.failureModule
  preprocessorModule : s'.preprocessorModule = s.preprocessorModule
  restartedFrom : s'.restartedFrom = s.restartedFrom
  length : s'.modules.length = s.modules.length
  modules : ∀ {i : ℕ} {m m' : FlowStatusModule}, s.modules[i]? = some m → s'.modules[i]? = some m' →
    SameWork m m'

lemma Tracks.refl : Tracks s s := by
  refine ⟨rfl, rfl, rfl, rfl, rfl, rfl, fun h h' => ?_⟩
  rw [h] at h'
  cases h'
  exact .refl _

lemma Tracks.trans {s₁ s₂ s₃} (h : Tracks s₁ s₂) (h' : Tracks s₂ s₃) : Tracks s₁ s₃ := by
  refine ⟨h'.step.trans h.step, h'.retry.trans h.retry, h'.failureModule.trans h.failureModule,
    h'.preprocessorModule.trans h.preprocessorModule, h'.restartedFrom.trans h.restartedFrom,
    h'.length.trans h.length, fun {i m m'} hm hm' => ?_⟩
  have hlt : i < s₂.modules.length := by
    rw [← h'.length]
    exact (List.getElem?_eq_some_iff.mp hm').1
  have hmid := List.getElem?_eq_getElem hlt
  exact (h.modules hm hmid).trans (h'.modules hmid hm')

lemma tracks_modifyModule {s} {i : ℤ} {f} (hf : ∀ m, moduleAt s i = some m → SameWork m (f m)) :
    Tracks s (s.modifyModule i f) := by
  unfold FlowStatus.modifyModule
  unfold moduleAt at hf
  cases hj : s.moduleIndex i with
  | none => exact Tracks.refl s
  | some j =>
    rw [hj] at hf
    refine ⟨rfl, rfl, rfl, rfl, rfl, by simp, fun {k m m'} hm hm' => ?_⟩
    rw [List.getElem?_modify, hm] at hm'
    simp only [Option.map_eq_map, Option.map_some, Option.some.injEq] at hm'
    subst hm'
    split_ifs with hk
    · subst hk
      exact hf m hm
    · exact .refl m

lemma sameWork_setApprovers (approvers : List Approval) (m : FlowStatusModule) :
    SameWork m (m.setApprovers approvers) := by
  cases m with
  | success s => exact .approved rfl rfl
  | _ => exact .refl _

end Windmill.Flow.Status
