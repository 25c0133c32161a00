import Windmill.Flow.Push

/-! # Loops of one step

The body of a loop that `is_simple_modules` accepts is pushed as a single job, without the inner
flow that an iteration otherwise is. `collapse_iff` says for which settings that job
(`payload_from_simple_module`) is the one that the inner flow would push. -/

namespace Windmill.Flow.Collapse

open Value Reads Transform Push Lib.Except Option

/-! ### What a push reads of the instance -/

structure ScriptInfo where
  tag : Option String := none
  cacheTtl : Option ℤ := none
  cacheIgnoreS3Path : Option Bool := none
  priority : Option ℤ := none
  deleteAfterUse : Option Bool := none
  deleteAfterSecs : Option ℤ := none
  timeout : Option ℤ := none
  concurrencySettings : ConcurrencySettings := {}

structure Instance where
  workspaceId : String
  priorities : Bool
  previewTags : Bool
  perWorkspaceTag : Option String
  scriptByHash : ℤ → Except Error ScriptInfo
  scriptByPath : String → Except Error ScriptInfo

structure ParentJob where
  tag : String
  priority : Option ℤ

structure JobPayloadWithTag where
  cacheTtl : Option ℤ := none
  cacheIgnoreS3Path : Option Bool := none
  concurrencySettings : ConcurrencySettings := {}
  priority : Option ℤ := none
  tag : Option String := none
  deleteAfterUse : Bool := false
  deleteAfterSecs : Option ℤ := none
  timeout : Option ℤ := none
deriving DecidableEq

/-! ### Payloads -/

def ttlAsI32 (ttl : ℕ) : ℤ := (BitVec.ofNat 32 ttl).toInt

def tagOverride (step : ScriptStep) : Option String :=
  step.tagOverride.filter fun tag => !tag.toList.all Char.isWhitespace

/-- `script_path_to_payload`: a script of the hub has no settings. -/
def scriptPathToPayload (inst : Instance) (path : String) : Except Error ScriptInfo :=
  if path.startsWith "hub/" then .ok {} else inst.scriptByPath path

/-- The end of `script_to_payload`: the settings of the module go before those of the script. -/
def withModule (s : ScriptInfo) (step : ScriptStep) (module : FlowModule) (cacheTtl : Option ℤ)
    (cacheIgnoreS3Path : Option Bool) : JobPayloadWithTag where
  cacheTtl := cacheTtl
  cacheIgnoreS3Path := cacheIgnoreS3Path
  concurrencySettings := s.concurrencySettings
  priority := s.priority
  tag := (tagOverride step).or s.tag
  deleteAfterUse := module.deleteAfterUse.getD false || s.deleteAfterUse.getD false
  deleteAfterSecs := module.deleteAfterSecs.or s.deleteAfterSecs
  timeout := if module.timeout.isSome then none else s.timeout

/-- `script_to_payload`. The `cache_ttl` of a script with a hash is that of the module alone. -/
def scriptToPayload (inst : Instance) (step : ScriptStep) (module : FlowModule) :
    Except Error JobPayloadWithTag :=
  match step.hash with
  | none => do
    let s ← scriptPathToPayload inst step.path
    return withModule s step module s.cacheTtl s.cacheIgnoreS3Path
  | some hash => do
    let s ← inst.scriptByHash hash
    return withModule s step module (module.cacheTtl.map ttlAsI32) module.cacheIgnoreS3Path

def rawScriptToPayload (step : RawScriptStep) (module : FlowModule) (deleteAfterUse : Bool)
    (deleteAfterSecs : Option ℤ) : JobPayloadWithTag where
  cacheTtl := module.cacheTtl.map ttlAsI32
  cacheIgnoreS3Path := module.cacheIgnoreS3Path
  concurrencySettings := step.concurrencySettings
  tag := step.tag
  deleteAfterUse := deleteAfterUse
  deleteAfterSecs := deleteAfterSecs

def flowScriptPayload (step : FlowScriptStep) (module : FlowModule) : JobPayloadWithTag where
  cacheTtl := module.cacheTtl.map ttlAsI32
  cacheIgnoreS3Path := module.cacheIgnoreS3Path
  concurrencySettings := step.concurrencySettings
  tag := step.tag
  deleteAfterUse := module.deleteAfterUse.getD false
  deleteAfterSecs := module.deleteAfterSecs

/-- `payload_from_simple_module`: the value of the inner module with the settings of the loop. -/
def payloadFromSimpleModule (inst : Instance) (value : FlowModuleValue) (module : FlowModule) :
    Except Error JobPayloadWithTag :=
  match value with
  | .script step => scriptToPayload inst step module
  | .rawScript step => .ok (rawScriptToPayload step module (module.deleteAfterUse.getD false)
      module.deleteAfterSecs)
  | .flowScript step => .ok (flowScriptPayload step module)
  | _ => .error ⟨"is simple flow"⟩

def scriptStepPayload (inst : Instance) (module : FlowModule) : Except Error JobPayloadWithTag :=
  match module.value with
  | .script step => scriptToPayload inst step module
  | .rawScript step => .ok (rawScriptToPayload step module (module.deleteAfterUse.getD false)
      module.deleteAfterSecs)
  | .flowScript step => .ok (flowScriptPayload step module)
  | _ => .error ⟨"not a script"⟩

def iterationPayload (module : FlowModule) : JobPayloadWithTag where
  deleteAfterUse := module.deleteAfterUse.getD false

/-! ### The push -/

structure JobSettings where
  timeout : Option ℤ
  tag : Option String
  priority : Option ℤ
  cacheTtl : Option ℤ
  cacheIgnoreS3Path : Option Bool
  deleteAfterUse : Bool
  deleteAfterSecs : Option ℤ
  concurrencySettings : ConcurrencySettings
deriving DecidableEq

def jsonI32 : Json → Option ℤ
  | .num text => match text.toList with
    | '-' :: digits => (digitsValue digits 0).bind fun n => if n ≤ 2147483648 then some (-n)
        else none
    | digits => (digitsValue digits 0).bind fun n => if n < 2147483648 then some (n : ℤ) else none
  | _ => none

def evaluateTimeout (w : World) (ctx : EvalContext) (transform : InputTransform) :
    Except Error ℤ := do
  let timeout ← evaluateInputTransform w transform ctx jsonI32 0
  if timeout < 0 then throw ⟨"Timeout value cannot be negative"⟩
  return timeout

def evaluatedTimeout (w : World) (ctx : EvalContext) (module : FlowModule)
    (payload : JobPayloadWithTag) : Except Error (Option ℤ) :=
  match module.timeout with
  | some transform => (evaluateTimeout w ctx transform).map some
  | none => .ok payload.timeout

def isFlowTag (inst : Instance) (tag : String) : Bool :=
  tag == "flow" || tag == "flow-" ++ inst.workspaceId

def finalPriority (inst : Instance) (priorityOverride lowLevelPriority : Option ℤ) : Option ℤ :=
  some ((if inst.priorities then priorityOverride.or lowLevelPriority else none).getD 0)

def pushStep (inst : Instance) (w : World) (ctx : EvalContext) (flowJob : ParentJob)
    (preprocessor : Bool)
    (module : FlowModule) (payload : JobPayloadWithTag) : Except Error JobSettings := do
  let timeout ← evaluatedTimeout w ctx module payload
  return {
    timeout
    tag := if preprocessor || isFlowTag inst flowJob.tag then payload.tag else some flowJob.tag
    priority := finalPriority inst (module.priority.or flowJob.priority) payload.priority
    cacheTtl := payload.cacheTtl
    cacheIgnoreS3Path := payload.cacheIgnoreS3Path
    deleteAfterUse := payload.deleteAfterUse
    deleteAfterSecs := payload.deleteAfterSecs
    concurrencySettings := payload.concurrencySettings }

def defaultFlowTag (inst : Instance) : String :=
  let tag := if inst.previewTags then "preview" else "flow"
  match inst.perWorkspaceTag with
  | some ws => tag ++ "-" ++ ws
  | none => tag

def pushIteration (inst : Instance) (w : World) (ctx : EvalContext) (flowJob : ParentJob)
    (preprocessor : Bool) (loop : FlowModule) : Except Error ParentJob := do
  let settings ← pushStep inst w ctx flowJob preprocessor loop (iterationPayload loop)
  return ⟨(settings.tag.filter (· ≠ "")).getD (defaultFlowTag inst), settings.priority⟩

/-- The job of a loop body that is pushed alone. -/
def collapsed (inst : Instance) (w : World) (ctx : EvalContext) (flowJob : ParentJob)
    (preprocessor : Bool) (loop module : FlowModule) : Except Error JobSettings := do
  let payload ← payloadFromSimpleModule inst module.value loop
  pushStep inst w ctx flowJob preprocessor loop payload

/-- The job of the same body in an inner flow. -/
def nested (inst : Instance) (w : World) (ctx : EvalContext) (w' : World) (ctx' : EvalContext)
    (flowJob : ParentJob) (preprocessor : Bool) (loop module : FlowModule) :
    Except Error JobSettings := do
  let iteration ← pushIteration inst w ctx flowJob preprocessor loop
  let payload ← scriptStepPayload inst module
  pushStep inst w' ctx' iteration false module payload

/-! ### The settings of the value -/

/-- What the value of a script step says about the settings of its job. `moduleCache` tells that the
cache settings are those of the module. -/
structure ValueSettings where
  moduleCache : Bool
  cacheTtl : Option ℤ := none
  cacheIgnoreS3Path : Option Bool := none
  concurrencySettings : ConcurrencySettings
  priority : Option ℤ := none
  tag : Option String
  deleteAfterUse : Bool := false
  deleteAfterSecs : Option ℤ := none
  timeout : Option ℤ := none

def ScriptInfo.settings (s : ScriptInfo) (step : ScriptStep) (moduleCache : Bool) :
    ValueSettings where
  moduleCache := moduleCache
  cacheTtl := s.cacheTtl
  cacheIgnoreS3Path := s.cacheIgnoreS3Path
  concurrencySettings := s.concurrencySettings
  priority := s.priority
  tag := (tagOverride step).or s.tag
  deleteAfterUse := s.deleteAfterUse.getD false
  deleteAfterSecs := s.deleteAfterSecs
  timeout := s.timeout

def valueSettings (inst : Instance) : FlowModuleValue → Except Error ValueSettings
  | .script step => match step.hash with
    | none => (scriptPathToPayload inst step.path).map fun s => s.settings step false
    | some hash => (inst.scriptByHash hash).map fun s => s.settings step true
  | .rawScript step => .ok { moduleCache := true, tag := step.tag, concurrencySettings :=
      step.concurrencySettings }
  | .flowScript step => .ok { moduleCache := true, tag := step.tag, concurrencySettings :=
      step.concurrencySettings }
  | _ => .error ⟨"is simple flow"⟩

def ValueSettings.payload (v : ValueSettings) (module : FlowModule) : JobPayloadWithTag where
  cacheTtl := if v.moduleCache then module.cacheTtl.map ttlAsI32 else v.cacheTtl
  cacheIgnoreS3Path := if v.moduleCache then module.cacheIgnoreS3Path else v.cacheIgnoreS3Path
  concurrencySettings := v.concurrencySettings
  priority := v.priority
  tag := v.tag
  deleteAfterUse := module.deleteAfterUse.getD false || v.deleteAfterUse
  deleteAfterSecs := module.deleteAfterSecs.or v.deleteAfterSecs
  timeout := if module.timeout.isSome then none else v.timeout

lemma payloadFromSimpleModule_eq (inst : Instance) (value : FlowModuleValue) (module : FlowModule) :
    payloadFromSimpleModule inst value module = (valueSettings inst value).map
    (·.payload module) := by
  cases value with
  | script step =>
    unfold payloadFromSimpleModule valueSettings scriptToPayload
    dsimp only
    cases step.hash with
    | none => cases scriptPathToPayload inst step.path <;> rfl
    | some hash =>
      dsimp only
      cases inst.scriptByHash hash <;> rfl
  | rawScript step => simp [payloadFromSimpleModule, valueSettings, rawScriptToPayload, Except.map,
      ValueSettings.payload]
  | flowScript step => simp [payloadFromSimpleModule, valueSettings, flowScriptPayload, Except.map,
      ValueSettings.payload]
  | _ => rfl

lemma scriptStepPayload_eq (inst : Instance) {module} (h : module.isSimple = true) :
    scriptStepPayload inst module = (valueSettings inst module.value).map (·.payload module) := by
  rw [← payloadFromSimpleModule_eq]
  unfold scriptStepPayload payloadFromSimpleModule
  unfold FlowModule.isSimple at h
  cases hval : module.value with
  | script step | rawScript step | flowScript step => rfl
  | _ =>
    rw [hval] at h
    cases h

/-! ### When the two jobs agree -/

def timeoutValue (w : World) (ctx : EvalContext) (transform : InputTransform) : Option ℤ :=
  (evaluateTimeout w ctx transform).toOption

/-- The timeouts of the loop and of the inner module agree. One that is missing is the one of the
script. -/
def TimeoutsAgree (w : World) (ctx : EvalContext) (w' : World) (ctx' : EvalContext)
    (v : ValueSettings) : Option InputTransform → Option InputTransform → Prop
  | none, none => True
  | some t, none => timeoutValue w ctx t = v.timeout
  | none, some t' => timeoutValue w' ctx' t' = v.timeout ∧ v.timeout.isSome
  | some t, some t' => timeoutValue w ctx t = timeoutValue w' ctx' t'

/-- The priorities agree: that of the inner module is the one that the collapsed job gets, or it has
none and the priority of the script is not used, since the inner flow has one. -/
def PrioritiesAgree (flowJob : ParentJob) (loop module : FlowModule) (v : ValueSettings) : Prop :=
  match module.priority with
  | some p => ((loop.priority.or flowJob.priority).or v.priority).getD 0 = p
  | none => (loop.priority.or flowJob.priority).isSome ∨ v.priority.getD 0 = 0

/-- The tags agree: inner flows get a tag that they do not force on their steps, or one that is the
tag of the step anyway. -/
def TagsAgree (inst : Instance) (flowJob : ParentJob) (preprocessor : Bool)
    (v : ValueSettings) : Prop :=
  if preprocessor || isFlowTag inst flowJob.tag then
    isFlowTag inst (defaultFlowTag inst) = true ∨ v.tag = some (defaultFlowTag inst)
  else flowJob.tag = "" → isFlowTag inst (defaultFlowTag inst) = true ∧ v.tag = some ""

/-- The settings of the loop module that end up in the collapsed job agree with those of the inner
module. -/
structure Agree (inst : Instance) (w : World) (ctx : EvalContext) (w' : World) (ctx' : EvalContext)
    (flowJob : ParentJob) (preprocessor : Bool) (loop module : FlowModule) (v : ValueSettings) :
    Prop where
  timeout : TimeoutsAgree w ctx w' ctx' v loop.timeout module.timeout
  priority : inst.priorities = true → PrioritiesAgree flowJob loop module v
  tag : TagsAgree inst flowJob preprocessor v
  cache : v.moduleCache = true → loop.cacheTtl = none ∧ loop.cacheIgnoreS3Path =
    module.cacheIgnoreS3Path
  deleteAfterUse : v.deleteAfterUse = true ∨ loop.deleteAfterUse.getD false =
    module.deleteAfterUse.getD false
  deleteAfterSecs : loop.deleteAfterSecs.or v.deleteAfterSecs =
    module.deleteAfterSecs.or v.deleteAfterSecs

/-- The timeout of the loop cannot be evaluated, so that neither job is pushed. -/
def TimeoutFails (w : World) (ctx : EvalContext) (loop : FlowModule) : Prop :=
  ∃ t, loop.timeout = some t ∧ timeoutValue w ctx t = none

section Agreement

variable {inst : Instance} {w w' : World} {ctx ctx' : EvalContext} {flowJob : ParentJob}
  {preprocessor : Bool} {loop module : FlowModule} {v : ValueSettings}

lemma defaultFlowTag_ne (inst : Instance) : defaultFlowTag inst ≠ "" := by
  unfold defaultFlowTag
  cases inst.perWorkspaceTag with
  | none => cases inst.previewTags <;> decide
  | some ws =>
    intro h
    have hlen := congrArg String.length h
    cases inst.previewTags <;> simp [String.length_append] at hlen

def queued (inst : Instance) (flowJob : ParentJob) (preprocessor : Bool) (module : FlowModule)
    (payload : JobPayloadWithTag) (timeout : Option ℤ) : JobSettings where
  timeout := timeout
  tag := if preprocessor || isFlowTag inst flowJob.tag then payload.tag else some flowJob.tag
  priority := finalPriority inst (module.priority.or flowJob.priority) payload.priority
  cacheTtl := payload.cacheTtl
  cacheIgnoreS3Path := payload.cacheIgnoreS3Path
  deleteAfterUse := payload.deleteAfterUse
  deleteAfterSecs := payload.deleteAfterSecs
  concurrencySettings := payload.concurrencySettings

lemma pushStep_eq (inst : Instance) (w : World) (ctx : EvalContext) (flowJob : ParentJob)
    (preprocessor : Bool) (module : FlowModule) (payload : JobPayloadWithTag) :
    pushStep inst w ctx flowJob preprocessor module payload =
    (evaluatedTimeout w ctx module payload).map
    (queued inst flowJob preprocessor module payload) := by
  unfold pushStep
  cases evaluatedTimeout w ctx module payload <;> rfl

def iterationJob (inst : Instance) (flowJob : ParentJob) (preprocessor : Bool) (loop : FlowModule) :
    ParentJob where
  tag := if preprocessor || isFlowTag inst flowJob.tag || flowJob.tag == "" then defaultFlowTag inst
    else flowJob.tag
  priority := finalPriority inst (loop.priority.or flowJob.priority) none

lemma pushIteration_eq (inst : Instance) (w : World) (ctx : EvalContext) (flowJob : ParentJob)
    (preprocessor : Bool) (loop : FlowModule) : pushIteration inst w ctx flowJob preprocessor loop =
    (evaluatedTimeout w ctx loop (iterationPayload loop)).map fun _ =>
    iterationJob inst flowJob preprocessor loop :=
    by
  unfold pushIteration
  rw [pushStep_eq]
  cases evaluatedTimeout w ctx loop (iterationPayload loop) with
  | error e => rfl
  | ok timeout =>
    simp only [Except.map, bind, Except.bind, pure, Except.pure, queued, iterationJob,
      iterationPayload]
    cases preprocessor || isFlowTag inst flowJob.tag with
    | true => rfl
    | false => by_cases hemp : flowJob.tag = "" <;> simp [hemp, Option.filter]

lemma evaluatedTimeout_error (hfail : TimeoutFails w ctx loop) (payload : JobPayloadWithTag) :
    ∃ e, evaluatedTimeout w ctx loop payload = .error e := by
  obtain ⟨t, ht, hnone⟩ := hfail
  unfold timeoutValue at hnone
  unfold evaluatedTimeout
  rw [ht]
  dsimp only
  cases he : evaluateTimeout w ctx t with
  | error e => exact ⟨e, rfl⟩
  | ok x =>
    rw [he] at hnone
    cases hnone

lemma evaluatedTimeout_ok (hfail : ¬TimeoutFails w ctx loop) (payload : JobPayloadWithTag) :
    ∃ timeout, evaluatedTimeout w ctx loop payload = .ok timeout := by
  unfold evaluatedTimeout
  cases ht : loop.timeout with
  | none => exact ⟨_, rfl⟩
  | some t =>
    dsimp only
    cases he : evaluateTimeout w ctx t with
    | error e => exact absurd ⟨t, ht, by rw [timeoutValue, he]; rfl⟩ hfail
    | ok x => exact ⟨some x, rfl⟩

lemma timeouts_agree_iff {timeout}
    (h : evaluatedTimeout w ctx loop (v.payload loop) = .ok timeout) :
    (evaluatedTimeout w' ctx' module (v.payload module)).toOption = some timeout ↔
    TimeoutsAgree w ctx w' ctx' v loop.timeout module.timeout := by
  unfold evaluatedTimeout at h ⊢
  unfold TimeoutsAgree timeoutValue
  cases hloop : loop.timeout with
  | none =>
    rw [hloop] at h
    cases h
    cases hmod : module.timeout with
    | none => simp [ValueSettings.payload, hloop, hmod, Except.toOption]
    | some t' =>
      dsimp only
      cases evaluateTimeout w' ctx' t' with
      | error e => simp [Except.map, Except.toOption]; tauto
      | ok x => cases hv : v.timeout <;> simp [Except.map, Except.toOption, ValueSettings.payload,
          hloop, hv]
  | some t =>
    rw [hloop] at h
    obtain ⟨x, hx, rfl⟩ := map_eq_ok.mp h
    cases hmod : module.timeout with
    | none =>
      dsimp only
      rw [hx]
      simp only [ValueSettings.payload, hmod, Except.toOption, isSome_none, Bool.false_eq_true,
        if_false, some.injEq]
      exact eq_comm
    | some t' =>
      dsimp only
      rw [hx]
      cases evaluateTimeout w' ctx' t' with
      | error e => simp [Except.map, Except.toOption]
      | ok y => simp [Except.map, Except.toOption, eq_comm]

lemma tags_agree_iff (loop : FlowModule) :
    (if isFlowTag inst (iterationJob inst flowJob preprocessor loop).tag then v.tag
      else some (iterationJob inst flowJob preprocessor loop).tag) =
        (if preprocessor || isFlowTag inst flowJob.tag then v.tag else some flowJob.tag) ↔
      TagsAgree inst flowJob preprocessor v := by
  unfold TagsAgree iterationJob
  cases hforced : preprocessor || isFlowTag inst flowJob.tag with
  | true =>
    rw [Bool.true_or, if_pos rfl]
    by_cases hdef : isFlowTag inst (defaultFlowTag inst) = true
    · rw [if_pos hdef]
      exact iff_of_true rfl (.inl hdef)
    · rw [if_neg hdef, or_iff_right hdef]
      exact eq_comm
  | false =>
    obtain ⟨-, hno⟩ := Bool.or_eq_false_iff.mp hforced
    rw [Bool.false_or]
    by_cases hemp : flowJob.tag = ""
    · rw [hemp]
      by_cases hdef : isFlowTag inst (defaultFlowTag inst) = true
      · simp [hdef]
      · simp [hdef, defaultFlowTag_ne inst]
    · rw [if_neg (mt beq_iff_eq.mp hemp), hno]
      exact iff_of_true rfl fun h => absurd h hemp

lemma priorities_agree_iff (preprocessor : Bool) :
    finalPriority inst (module.priority.or (iterationJob inst flowJob preprocessor loop).priority)
    v.priority =
        finalPriority inst (loop.priority.or flowJob.priority) v.priority ↔
      (inst.priorities = true → PrioritiesAgree flowJob loop module v) := by
  unfold finalPriority PrioritiesAgree iterationJob finalPriority
  cases inst.priorities with
  | false => simp
  | true =>
    cases module.priority with
    | some p => simp [eq_comm]
    | none =>
      cases loop.priority.or flowJob.priority with
      | some q => simp
      | none => simp [eq_comm]

lemma queued_eq_iff (inst : Instance) (flowJob : ParentJob) (preprocessor : Bool)
    (loop : FlowModule)
    (v : ValueSettings) (timeout timeout' : Option ℤ) (hcache : module.cacheTtl = none) :
    queued inst (iterationJob inst flowJob preprocessor loop) false module
    (v.payload module) timeout' =
        queued inst flowJob preprocessor loop (v.payload loop) timeout ↔
      timeout' = timeout ∧ TagsAgree inst flowJob preprocessor v ∧
    (inst.priorities = true → PrioritiesAgree flowJob loop module v) ∧
    (v.moduleCache = true → loop.cacheTtl = none ∧ loop.cacheIgnoreS3Path =
      module.cacheIgnoreS3Path) ∧
    (v.deleteAfterUse = true ∨ loop.deleteAfterUse.getD false = module.deleteAfterUse.getD false) ∧
    loop.deleteAfterSecs.or v.deleteAfterSecs = module.deleteAfterSecs.or v.deleteAfterSecs := by
  have hcaches : ((if v.moduleCache then module.cacheTtl.map ttlAsI32 else v.cacheTtl) =
        (if v.moduleCache then loop.cacheTtl.map ttlAsI32 else v.cacheTtl) ∧
      (if v.moduleCache then module.cacheIgnoreS3Path else v.cacheIgnoreS3Path) =
        if v.moduleCache then loop.cacheIgnoreS3Path else v.cacheIgnoreS3Path) ↔
      (v.moduleCache = true → loop.cacheTtl = none ∧ loop.cacheIgnoreS3Path =
        module.cacheIgnoreS3Path) := by
    rw [hcache]
    cases v.moduleCache with
    | false => simp
    | true =>
      simp only [if_true, map_none, forall_const]
      rw [eq_comm, map_eq_none_iff]
      exact and_congr_right fun _ => eq_comm
  have huse : ((module.deleteAfterUse.getD false || v.deleteAfterUse) =
        (loop.deleteAfterUse.getD false || v.deleteAfterUse)) ↔
      (v.deleteAfterUse = true ∨ loop.deleteAfterUse.getD false =
        module.deleteAfterUse.getD false) := by
    cases v.deleteAfterUse <;> simp [eq_comm]
  rw [← tags_agree_iff loop, ← priorities_agree_iff preprocessor, ← hcaches, ← huse]
  simp only [queued, ValueSettings.payload, JobSettings.mk.injEq, Bool.false_or]
  constructor
  · rintro ⟨ht, htag, hprio, httl, hs3, huse', hsecs, -⟩
    exact ⟨ht, htag, hprio, ⟨httl, hs3⟩, huse', hsecs.symm⟩
  · rintro ⟨ht, htag, hprio, ⟨httl, hs3⟩, huse', hsecs⟩
    exact ⟨ht, htag, hprio, httl, hs3, huse', hsecs.symm, trivial⟩

/-- **Collapsing a loop of one step keeps the settings of the step if and only if** the settings of
the loop and of the step agree, or no job is pushed at all. -/
theorem collapse_iff (inst : Instance) (w : World) (ctx : EvalContext) (w' : World)
    (ctx' : EvalContext) (flowJob : ParentJob) (preprocessor : Bool) (loop module : FlowModule)
    (failureModule : Option FlowModule) (hsimple : isSimpleModules [module] failureModule = true) :
    (collapsed inst w ctx flowJob preprocessor loop module).toOption =
        (nested inst w ctx w' ctx' flowJob preprocessor loop module).toOption ↔
      TimeoutFails w ctx loop ∨ ∀ v, valueSettings inst module.value = .ok v →
        Agree inst w ctx w' ctx' flowJob preprocessor loop module v := by
  obtain ⟨hleaf, hcache⟩ : module.isSimple = true ∧ module.cacheTtl = none := by
    simp only [isSimpleModules, Bool.and_eq_true, isNone_iff_eq_none] at hsimple
    tauto
  unfold collapsed nested
  rw [payloadFromSimpleModule_eq, scriptStepPayload_eq inst hleaf, pushIteration_eq]
  cases hv : valueSettings inst module.value with
  | error e =>
    refine iff_of_true ?_ (.inr fun v h => by cases h)
    cases evaluatedTimeout w ctx loop (iterationPayload loop) <;> rfl
  | ok v =>
    have hcol : ((Except.ok v : Except Error ValueSettings).map (·.payload loop) >>= fun payload =>
        pushStep inst w ctx flowJob preprocessor loop payload) =
          (evaluatedTimeout w ctx loop (v.payload loop)).map
            (queued inst flowJob preprocessor loop (v.payload loop)) :=
      pushStep_eq inst w ctx flowJob preprocessor loop (v.payload loop)
    rw [hcol]
    by_cases hfail : TimeoutFails w ctx loop
    · obtain ⟨e, he⟩ := evaluatedTimeout_error hfail (v.payload loop)
      obtain ⟨e', he'⟩ := evaluatedTimeout_error hfail (iterationPayload loop)
      rw [he, he']
      exact iff_of_true rfl (.inl hfail)
    obtain ⟨timeout, ht⟩ := evaluatedTimeout_ok hfail (v.payload loop)
    obtain ⟨timeout', ht'⟩ := evaluatedTimeout_ok hfail (iterationPayload loop)
    have hnest : ((Except.ok timeout').map
      (fun _ => iterationJob inst flowJob preprocessor loop) >>=
        fun iteration => (Except.ok v : Except Error ValueSettings).map (·.payload module) >>=
        fun payload =>
          pushStep inst w' ctx' iteration false module payload) =
        (evaluatedTimeout w' ctx' module (v.payload module)).map
          (queued inst (iterationJob inst flowJob preprocessor loop) false module
            (v.payload module)) :=
      pushStep_eq inst w' ctx' _ false module (v.payload module)
    rw [ht, ht', hnest, or_iff_right hfail]
    have htime : _ ↔ TimeoutsAgree w ctx w' ctx' v loop.timeout module.timeout :=
      timeouts_agree_iff ht
    cases hinner : evaluatedTimeout w' ctx' module (v.payload module) with
    | error e =>
      rw [hinner] at htime
      refine iff_of_false nofun fun h => ?_
      cases htime.mpr (h v rfl).timeout
    | ok timeoutM =>
      rw [hinner] at htime
      have hsame : timeoutM = timeout ↔ TimeoutsAgree w ctx w' ctx' v loop.timeout module.timeout :=
        (some_inj).symm.trans htime
      have hsets := (queued_eq_iff inst flowJob preprocessor loop v timeout timeoutM hcache).trans
        (and_congr_left' hsame)
      constructor
      · intro h v' hv'
        cases hv'
        obtain ⟨ht, htag, hprio, hcaches, huse, hsecs⟩ := hsets.mp (some.inj h).symm
        exact ⟨ht, hprio, htag, hcaches, huse, hsecs⟩
      · intro h
        have hok := h v rfl
        have heq := hsets.mpr ⟨hok.timeout, hok.tag, hok.priority, hok.cache, hok.deleteAfterUse,
          hok.deleteAfterSecs⟩
        exact congrArg some heq.symm

end Agreement

/-! ### Loops -/

def bareInstance : Instance where
  workspaceId := "main"
  priorities := true
  previewTags := false
  perWorkspaceTag := none
  scriptByHash _ := .error ⟨"not found"⟩
  scriptByPath _ := .error ⟨"not found"⟩

def taggedStep : FlowModule :=
  { id := "c", value := .rawScript { tag := some "gpu", concurrencySettings :=
    { concurrentLimit := some 1 } } }

def loopOver (m : FlowModule) : FlowModule :=
  { id := "l", value := .forloopFlow (.static (.arr [.num "1", .num "2"])) [m] none none none none
    priority := some 3 }

def emptyContext : EvalContext := { flowArgs := [], flowEnv := none, result := .null }

theorem tagged_step_collapsed :
    (collapsed bareInstance (.plain (.plain 1)) emptyContext ⟨"flow", none⟩ false
    (loopOver taggedStep)
        taggedStep).toOption =
      (nested bareInstance (.plain (.plain 1)) emptyContext
      (.plain (.plain 2)) emptyContext ⟨"flow", none⟩
        false (loopOver taggedStep) taggedStep).toOption := by
  refine (collapse_iff bareInstance _ _ _ _ _ false (loopOver taggedStep) taggedStep none rfl).mpr
    (.inr ?_)
  intro v hv
  exact ⟨trivial, fun _ => .inl rfl, .inl rfl, fun _ => ⟨rfl, rfl⟩, .inr rfl, rfl⟩

def timedStep : FlowModule := { taggedStep with timeout := some (.static (.num "5")) }

theorem timeout_lost : isSimpleModules [timedStep] none = true ∧
      (collapsed bareInstance (.plain (.plain 1)) emptyContext ⟨"flow", none⟩ false
      (loopOver timedStep)
          timedStep).toOption ≠
        (nested bareInstance (.plain (.plain 1)) emptyContext
        (.plain (.plain 2)) emptyContext ⟨"flow", none⟩
          false (loopOver timedStep) timedStep).toOption :=
  ⟨rfl, by decide⟩

end Windmill.Flow.Collapse
