import Mathlib.Tactic

/-! # Flow definitions

The part of a flow definition that the flow engine reads (`windmill-types/src/flows.rs`). A module's
`value` is stored as raw JSON and is deserialized at every use into the view that the use needs, so
the optional fields are kept optional here and each view applies its own default: an absent
`parallel` is `false` for a for-loop and `true` for a branch-all. -/

namespace Windmill.Flow.Value

abbrev Uuid := BitVec 128

instance : LawfulBEq Uuid := inferInstance

def nilUuid : Uuid := 0

/-- A JSON document. Numbers keep their text, as `RawValue` does. -/
inductive Json where
  | null
  | bool (b : Bool)
  | num (text : String)
  | str (s : String)
  | arr (elems : List Json)
  | obj (fields : List (String × Json))
deriving Inhabited

abbrev Args := List (String × Json)

structure Error where
  message : String
deriving DecidableEq, Inhabited

inductive InputTransform where
  | static (value : Json)
  | javascript (expr : String)
  | ai

structure StopAfterIf where
  expr : String
  skipIfStopped : Bool
  errorMessage : Option String

structure RetryIf where
  expr : String

structure ConstantDelay where
  attempts : ℕ
  seconds : ℕ

structure ExponentialDelay where
  attempts : ℕ
  multiplier : ℕ
  seconds : ℕ
  randomFactor : Option ℤ

structure Retry where
  constant : ConstantDelay
  exponential : ExponentialDelay
  retryIf : Option RetryIf

/-- `Retry::default()`: no attempts. -/
def Retry.default : Retry := ⟨⟨0, 0⟩, ⟨0, 1, 0, none⟩, none⟩

def u16Size : ℕ := 65536

def saturatingPow (b e : ℕ) : ℕ := min (b ^ e) (u16Size - 1)

/-- The jitter of an exponential delay: `draw` holds the random percentage and its sign. -/
def ExponentialDelay.jitter (e : ExponentialDelay) (draw : ℕ × Bool) (secs : ℕ) : ℕ :=
  match e.randomFactor with
  | some f =>
    if 0 < f then
      let part := secs * draw.1 % u16Size / 100
      if draw.2 then min (secs + part) (u16Size - 1) else secs - part
    else secs
  | none => secs

def Retry.interval (r : Retry) (draw : ℕ × Bool) (previousAttempts : ℕ) : Option ℕ :=
  if previousAttempts < r.constant.attempts then some r.constant.seconds
  else if previousAttempts - r.constant.attempts < r.exponential.attempts then
    some (r.exponential.jitter draw
      (r.exponential.multiplier * saturatingPow r.exponential.seconds (previousAttempts + 1) %
        u16Size))
  else none

def Retry.hasAttempts (r : Retry) : Bool := r.constant.attempts != 0 || r.exponential.attempts != 0

def Retry.budget (r : Retry) : ℕ := r.constant.attempts + r.exponential.attempts

lemma Retry.interval_isSome {r : Retry} {draw : ℕ × Bool} {k : ℕ} :
    (r.interval draw k).isSome = decide (k < r.budget) := by
  unfold Retry.interval Retry.budget
  split_ifs with h1 h2
  · simp; omega
  · simp; omega
  · simp; omega

structure Suspend where
  requiredEvents : Option ℕ
  timeout : Option ℕ
  userAuthRequired : Option Bool
  userGroupsRequired : Option InputTransform
  selfApprovalDisabled : Option Bool
  continueOnDisapproveTimeout : Option Bool

structure Mock where
  enabled : Bool

abbrev FlowNodeId := ℤ

structure ConcurrencySettings where
  customConcurrencyKey : Option String := none
  concurrentLimit : Option ℤ := none
  concurrencyTimeWindowS : Option ℤ := none
deriving DecidableEq

structure ScriptStep where
  path : String := ""
  hash : Option ℤ := none
  tagOverride : Option String := none

structure RawScriptStep where
  path : Option String := none
  tag : Option String := none
  concurrencySettings : ConcurrencySettings := {}

structure FlowScriptStep where
  id : FlowNodeId := 0
  tag : Option String := none
  concurrencySettings : ConcurrencySettings := {}

mutual

/-- `FlowModule`: a step of a flow. -/
structure FlowModule where
  id : String
  value : FlowModuleValue
  stopAfterIf : Option StopAfterIf := none
  stopAfterAllItersIf : Option StopAfterIf := none
  suspend : Option Suspend := none
  mock : Option Mock := none
  retry : Option Retry := none
  sleep : Option InputTransform := none
  cacheTtl : Option ℕ := none
  continueOnError : Option Bool := none
  skipIf : Option String := none
  passFlowInputDirectly : Option Bool := none
  cacheIgnoreS3Path : Option Bool := none
  timeout : Option InputTransform := none
  priority : Option ℤ := none
  deleteAfterUse : Option Bool := none
  deleteAfterSecs : Option ℤ := none

/-- The JSON value of a module, with absent fields as `none`. The code of a leaf is not recorded,
and `invalid` is a value that no deserializer accepts. -/
inductive FlowModuleValue where
  | script (step : ScriptStep := {})
  | rawScript (step : RawScriptStep := {})
  | flowScript (step : FlowScriptStep := {})
  | flow
  | aiAgent
  | identity
  | forloopFlow (iterator : InputTransform) (modules : List FlowModule)
      (modulesNode : Option FlowNodeId) (skipFailures parallel : Option Bool)
      (parallelism : Option InputTransform)
  | whileloopFlow (modules : List FlowModule) (modulesNode : Option FlowNodeId)
      (skipFailures : Option Bool)
  | branchOne (branches : List Branch) (defaultModules : List FlowModule)
      (defaultNode : Option FlowNodeId)
  | branchAll (branches : List Branch) (parallel : Option Bool)
  | invalid (message : String)

structure Branch where
  expr : String
  modules : List FlowModule
  modulesNode : Option FlowNodeId := none
  skipFailure : Option Bool := none

end

/-- `FlowValue`: the definition of a flow. -/
structure FlowValue where
  modules : List FlowModule
  failureModule : Option FlowModule := none
  preprocessorModule : Option FlowModule := none
  sameWorker : Bool := false
  skipExpr : Option String := none
  flowEnv : Option Args := none

/-! ### Views of a module's value -/

variable (m : FlowModule)

def FlowModule.getValue : Except Error FlowModuleValue :=
  match m.value with
  | .invalid message => .error ⟨message⟩
  | v => .ok v

/-- `get_value_with_skip_failures`, of which `skip_failures` and `parallelism` are read. -/
def FlowModule.getValueWithSkipFailures : Except Error (Option Bool × Option InputTransform) :=
  match m.value with
  | .forloopFlow _ _ _ skipFailures _ parallelism => .ok (skipFailures, parallelism)
  | .whileloopFlow _ _ skipFailures => .ok (skipFailures, none)
  | .invalid message => .error ⟨message⟩
  | _ => .ok (none, none)

/-- `get_branches_skip_failures` with its `skip_failure` defaults: one bit per branch. -/
def FlowModule.getBranchesSkipFailures : Except Error (List Bool) :=
  match m.value with
  | .branchOne branches _ _ => .ok (branches.map fun b => b.skipFailure.getD false)
  | .branchAll branches _ => .ok (branches.map fun b => b.skipFailure.getD false)
  | .invalid message => .error ⟨message⟩
  | _ => .error ⟨"missing field branches"⟩

def FlowModule.isFlow : Bool :=
  match m.value with
  | .flow => true
  | _ => false

def FlowModule.isSimple : Bool :=
  match m.value with
  | .script _ => true
  | .rawScript _ => true
  | .flowScript _ => true
  | _ => false

/-- The `parallelism` of a parallel for-loop, as `push_next_flow_job` reads it. -/
def FlowModule.forloopParallelism : Option InputTransform :=
  match m.value with
  | .forloopFlow _ _ _ _ (some true) parallelism => parallelism
  | _ => none

def FlowModule.continuesOnError : Bool := m.continueOnError.getD false

def FlowModule.isMocked : Bool :=
  match m.mock with
  | some mock => mock.enabled
  | none => false

/-! ### The step pointer -/

/-- `Step`: what the step counter of a flow points at. -/
inductive Step where
  | step (idx len : ℕ)
  | preprocessorStep
  | failureStep
deriving DecidableEq

def Step.fromI32AndLen (step : ℤ) (len : ℕ) : Step :=
  if step < 0 then .preprocessorStep
  else if step.toNat < len then .step step.toNat len
  else .failureStep

def Step.isPreprocessorStep : Step → Bool
  | .preprocessorStep => true
  | _ => false

def FlowValue.getFlowModuleAtStep (f : FlowValue) (step : Step) : Except Error FlowModule :=
  match step with
  | .preprocessorStep =>
    match f.preprocessorModule with
    | some m => .ok m
    | none => .error ⟨"no preprocessor module"⟩
  | .step idx _ =>
    match f.modules[idx]? with
    | some m => .ok m
    | none => .error ⟨s!"no module found at index: {idx}"⟩
  | .failureStep =>
    match f.failureModule with
    | some m => .ok m
    | none => .error ⟨"no failure module"⟩

lemma fromI32AndLen_natCast {i len : ℕ} (h : i < len) :
    Step.fromI32AndLen (i : ℤ) len = .step i len := by
  unfold Step.fromI32AndLen
  rw [if_neg (by omega), if_pos (by simpa using h)]
  simp

lemma fromI32AndLen_eq_step {step : ℤ} {len i n : ℕ} :
    Step.fromI32AndLen step len = .step i n ↔ step = i ∧ n = len ∧ i < len := by
  unfold Step.fromI32AndLen
  constructor
  · intro h
    split_ifs at h with h1 h2
    cases h
    exact ⟨by omega, rfl, h2⟩
  · rintro ⟨rfl, rfl, hlt⟩
    exact fromI32AndLen_natCast hlt

lemma fromI32AndLen_eq_failureStep {step : ℤ} {len : ℕ} :
    Step.fromI32AndLen step len = .failureStep ↔ 0 ≤ step ∧ (len : ℤ) ≤ step := by
  unfold Step.fromI32AndLen
  split_ifs with h h'
  · simp [not_le.mpr h]
  · simp only [false_iff]
    omega
  · simp only [true_iff]
    omega

end Windmill.Flow.Value
