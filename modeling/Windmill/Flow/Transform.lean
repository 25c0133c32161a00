import Windmill.Flow.Reads
import Windmill.Lib.Except
import Windmill.Lib.Positions

/-! # The next jobs of a module

`compute_next_flow_transform` (`windmill-worker/src/worker_flow.rs`) turns the module to start, or
the loop or branch-all to go on with, into the jobs to push and the status the module gets with
them. -/

namespace Windmill.Flow.Transform

open Value Status Reads Lib.Except Lib.Positions

/-! ### Payloads -/

inductive JobPayload where
  | identity
  | runnable (leaf : FlowModule)
  | flowNode (id : FlowNodeId) (path : String)
  | rawFlow (value : FlowValue) (path : String)

/-- `add_virtual_items_if_necessary`: a flow does not end with a step that sleeps or suspends. -/
def addVirtualItemsIfNecessary (modules : List FlowModule) : List FlowModule :=
  match modules.getLast? with
  | some m =>
    if m.sleep.isSome || m.suspend.isSome then
      modules ++ [{ id := m.id ++ "-v", value := .identity }]
    else modules
  | none => modules

/-- `payload_from_modules`: the inner flow of an iteration or a branch. -/
def payloadFromModules (modules : List FlowModule) (modulesNode : Option FlowNodeId)
    (failureModule : Option FlowModule) (sameWorker : Bool) (id path : String)
    (optEmptyInnerFlows : Bool) : Option JobPayload :=
  if optEmptyInnerFlows && modules.isEmpty && modulesNode.isNone then none
  else match modulesNode with
    | some node => some (.flowNode node path)
    | none => some (.rawFlow
        { modules := addVirtualItemsIfNecessary modules
          failureModule := failureModule.map fun m => { m with id := m.id ++ "-" ++ id }
          sameWorker } path)

lemma payloadFromModules_isSome {modules node failureModule sameWorker optEmpty id path} :
    (payloadFromModules modules node failureModule sameWorker id path optEmpty).isSome
      = !(optEmpty && modules.isEmpty && node.isNone) := by
  unfold payloadFromModules
  by_cases h : (optEmpty && modules.isEmpty && node.isNone) = true
  · rw [h]
    rfl
  · rw [Bool.not_eq_true _ |>.mp h]
    cases node <;> rfl

/-! ### What is pushed -/

/-- `Iter`: the argument `iter` of an iteration. -/
structure Iter where
  index : ℕ
  value : Json

structure ForloopNextIteration where
  index : ℕ
  itered : List Json
  iteredLen : ℕ
  flowJobs : List Uuid
  flowJobsSuccess : Option (List (Option Bool))
  flowJobsDuration : Option FlowJobsDuration
  newArgs : Iter
  whileLoop : Bool

inductive ForLoopStatus where
  | parallelIteration (itered : List Json)
  | nextIteration (next : ForloopNextIteration)
  | emptyIterator

structure NextBranch where
  status : BranchAllStatus
  flowJobs : List Uuid
  flowJobsSuccess : Option (List (Option Bool))
  flowJobsDuration : Option FlowJobsDuration

inductive NextStatus where
  | nextStep
  | branchChosen (branch : BranchChosen)
  | nextBranchStep (next : NextBranch)
  | nextLoopIteration (next : ForloopNextIteration)
  | allFlowJobs (branchall : Option BranchAllStatus) (iterator : Option FlowIterator)

inductive ContinuePayload where
  | singleJob (payload : JobPayload)
  | parallelJobs (payloads : List JobPayload)

def ContinuePayload.payloads : ContinuePayload → List JobPayload
  | .singleJob payload => [payload]
  | .parallelJobs payloads => payloads

inductive NextFlowTransform where
  | emptyInnerFlows (branchChosen : Option BranchChosen)
  | continue (payload : ContinuePayload) (next : NextStatus)

structure TransformInput where
  flow : FlowValue
  flowEnv : Option Args
  status : FlowStatus
  lastResult : Json
  previousId : String
  resumes : Json × Json × Json
  iteratorData : Option (List Json)

variable (w : World) (i : TransformInput)

def TransformInput.context : EvalContext :=
  ⟨w.flowJob.args, i.flowEnv, i.lastResult, none,
    some (getTransformContext w.flowJob.id i.previousId i.status), some i.resumes⟩

/-! ### Loops -/

variable (iterator : InputTransform)

def evaluateIterator (expected : String) : Except Error (List Json) := do
  let value ← match iterator with
    | .static value => pure value
    | .ai => throw ⟨"AI input transform not supported for iterator"⟩
    | .javascript expr => w.evalTimeout expr (i.context w)
  match value with
  | .arr itered => pure itered
  | _ => throw ⟨expected⟩

def readIteredFromDb (iteratorData itered : Option (List Json)) : List Json :=
  match w.separateIterData, iteratorData with
  | true, some l => l
  | _, _ => itered.getD []

def startForloop (parallel : Bool) : Except Error ForLoopStatus := do
  let itered ← evaluateIterator w i iterator
    "Expected an array value in the iterator expression, found: "
  match itered with
  | [] => return .emptyIterator
  | first :: _ =>
    if parallel then return .parallelIteration itered
    else return .nextIteration ⟨0, itered, itered.length, [], some [], some (.new 0),
      ⟨0, first⟩, false⟩

def iteredValues (itered : Option (List Json)) : Except Error (List Json) :=
  let stored := readIteredFromDb w i.iteratorData itered
  if stored.isEmpty then evaluateIterator w i iterator "Expected an array value, found: "
  else .ok stored

def continueForloop (parallel : Bool) (p : InProgress) : Except Error ForLoopStatus :=
  match parallel, p.iterator, p.flowJobs with
  | false, some it, some flowJobs => do
    let itered ← iteredValues w i iterator it.itered
    match itered[it.index + 1]? with
    | some next =>
      return .nextIteration ⟨it.index + 1, itered, itered.length, flowJobs, p.flowJobsSuccess,
        p.flowJobsDuration, ⟨it.index + 1, next⟩, false⟩
    | none => throw ⟨"Could not find iteration number restarting inside the for-loop flow"⟩
  | _, _, _ => .error ⟨"Unrecognized module status for ForloopFlow"⟩

def nextForloopStatus (parallel : Bool) (statusModule : FlowStatusModule) :
    Except Error ForLoopStatus :=
  if statusModule.isUnstarted then startForloop w i iterator parallel
  else match statusModule with
    | .inProgress p => continueForloop w i iterator parallel p
    | _ => .error ⟨"Unrecognized module status for ForloopFlow"⟩

/-- The iteration of a while-loop: it goes on from the jobs of a running loop and starts afresh
otherwise. -/
def nextWhileloopStatus (statusModule : FlowStatusModule) : ForloopNextIteration :=
  let fresh : ForloopNextIteration := ⟨0, [], 0, [], some [], some (.new 0), ⟨0, .num "0"⟩, true⟩
  match statusModule with
  | .inProgress p =>
    match p.flowJobs with
    | some flowJobs =>
      ⟨flowJobs.length, [], 0, flowJobs, p.flowJobsSuccess, p.flowJobsDuration,
        ⟨flowJobs.length, .num (toString flowJobs.length)⟩, true⟩
    | none => fresh
  | _ => fresh

/-- `is_simple_modules`: a loop body that is pushed without an inner flow. -/
def isSimpleModules (modules : List FlowModule) (failureModule : Option FlowModule) : Bool :=
  match modules with
  | [m] => m.isSimple && m.sleep.isNone && m.suspend.isNone && m.cacheTtl.isNone && m.retry.isNone
    && m.stopAfterIf.isNone && m.stopAfterAllItersIf.isNone && m.skipIf.isNone && !m.isMocked
    && failureModule.isNone
  | _ => false

def nextLoopIteration (next : ForloopNextIteration) (modules : List FlowModule)
    (modulesNode : Option FlowNodeId) (isSimple : Bool) : Except Error NextFlowTransform :=
  match isSimple, modules with
  | true, m :: _ => do
    let _ ← m.getValue
    w.findRunnable m
    return .continue (.singleJob (.runnable m)) (.nextLoopIteration next)
  | _, _ =>
    match payloadFromModules modules modulesNode i.flow.failureModule i.flow.sameWorker
        (toString i.status.step ++ "-" ++ toString next.index)
        (w.flowJob.runnablePath ++ "/loop-" ++ toString next.index) true with
    | some payload => .ok (.continue (.singleJob payload) (.nextLoopIteration next))
    | none => .ok (.emptyInnerFlows none)

def forloopPayloads (modules : List FlowModule) (modulesNode : Option FlowNodeId) (iteredLen : ℕ) :
    List JobPayload :=
  (List.range iteredLen).filterMap fun n =>
    payloadFromModules modules modulesNode i.flow.failureModule i.flow.sameWorker
      (toString i.status.step ++ "-" ++ toString n)
      (w.flowJob.runnablePath ++ "/forloop-" ++ toString n) true

variable {w : World} {i : TransformInput} {modules : List FlowModule} {node : Option FlowNodeId}
  {payload : ContinuePayload} {next : NextStatus} {branches : List Branch}
  {iterator : InputTransform}
  {parallel : Bool} {loop : ForLoopStatus} {statusModule : FlowStatusModule} {module : FlowModule}

lemma forloopPayloads_length {n : ℕ} (h : (forloopPayloads w i modules node n).isEmpty = false) :
    (forloopPayloads w i modules node n).length = n := by
  have hlen := @length_filterMap_of_isSome ℕ JobPayload _ _ (List.range n) fun k _ =>
    @payloadFromModules_isSome modules node i.flow.failureModule i.flow.sameWorker true
      (toString i.status.step ++ "-" ++ toString k)
      (w.flowJob.runnablePath ++ "/forloop-" ++ toString k)
  unfold forloopPayloads at h ⊢
  rw [List.length_range] at hlen
  split_ifs at hlen
  · exact hlen
  · rw [List.length_eq_zero_iff.mp hlen] at h
    cases h

/-! ### Branches -/

def chooseBranch (w : World) (ctx : EvalContext) : List Branch → ℕ → Except Error BranchChosen
  | [], _ => .ok .default
  | b :: branches, n => do
    if ← computeBoolFromExpr w b.expr ctx then return .branch n
    else chooseBranch w ctx branches (n + 1)

def branchallPayload (w : World) (i : TransformInput) (b : Branch) (n : ℕ) : Option JobPayload :=
  payloadFromModules b.modules b.modulesNode i.flow.failureModule i.flow.sameWorker
    (toString i.status.step ++ "-" ++ toString n)
    (w.flowJob.runnablePath ++ "/branchall-" ++ toString n) false

def branchallPayloads (w : World) (i : TransformInput) (branches : List Branch) : List JobPayload :=
  branches.zipIdx.filterMap fun b => branchallPayload w i b.1 b.2

lemma branchallPayloads_length (w : World) (i : TransformInput) (branches : List Branch) :
    (branchallPayloads w i branches).length = branches.length := by
  have hlen := @length_filterMap_of_isSome _ JobPayload _ true branches.zipIdx fun b _ =>
    show (branchallPayload w i b.1 b.2).isSome = true from payloadFromModules_isSome
  rw [List.length_zipIdx] at hlen
  exact hlen

def nextBranchStep (w : World) (i : TransformInput) (branches : List Branch) (next : NextBranch) :
    Except Error NextFlowTransform :=
  match branches[next.status.branch]? with
  | none => .error ⟨"Unrecognized branch for BranchAll"⟩
  | some b => match branchallPayload w i b next.status.branch with
    | some payload => .ok (.continue (.singleJob payload) (.nextBranchStep next))
    | none => .ok (.emptyInnerFlows (some .default))

/-! ### The transform -/

def trivialNextJob (payload : JobPayload) : NextFlowTransform :=
  .continue (.singleJob payload) .nextStep

def forloopTransform (w : World) (i : TransformInput) (iterator : InputTransform)
    (modules : List FlowModule) (modulesNode : Option FlowNodeId) (parallel : Bool)
    (statusModule : FlowStatusModule) : Except Error NextFlowTransform := do
  let isSimple := !w.flowJob.isPreview && !parallel && isSimpleModules modules i.flow.failureModule
  match ← nextForloopStatus w i iterator parallel statusModule with
  | .emptyIterator => return .emptyInnerFlows none
  | .nextIteration next => nextLoopIteration w i next modules modulesNode isSimple
  | .parallelIteration itered =>
    let payloads := forloopPayloads w i modules modulesNode itered.length
    if payloads.isEmpty then return .emptyInnerFlows none
    else
      let iterator : FlowIterator := ⟨0, some itered, some itered.length⟩
      return .continue (.parallelJobs payloads) (.allFlowJobs none (some iterator))

def branchModules (branches : List Branch) (defaultModules : List FlowModule)
    (defaultNode : Option FlowNodeId) :
    BranchChosen → Except Error (List FlowModule × Option FlowNodeId × ℕ)
  | .default => .ok (defaultModules, defaultNode, 0)
  | .branch n => match branches[n]? with
    | some b => .ok (b.modules, b.modulesNode, n + 1)
    | none => .error ⟨"Unrecognized branch for BranchOne"⟩

def branchOneTransform (w : World) (i : TransformInput) (branches : List Branch)
    (defaultModules : List FlowModule)
    (defaultNode : Option FlowNodeId) (statusModule : FlowStatusModule) :
    Except Error NextFlowTransform :=
  if statusModule.isUnstarted then do
    let branch ← chooseBranch w (i.context w) branches 0
    let (modules, modulesNode, branchIdx) ← branchModules branches defaultModules defaultNode branch
    match payloadFromModules modules modulesNode i.flow.failureModule i.flow.sameWorker
        (toString i.status.step) (w.flowJob.runnablePath ++ "/branchone-" ++ toString branchIdx)
        true with
    | some payload => return .continue (.singleJob payload) (.branchChosen branch)
    | none => return .emptyInnerFlows (some branch)
  else .error ⟨"Unrecognized module status for BranchOne"⟩

def branchAllTransform (w : World) (i : TransformInput) (branches : List Branch) (parallel : Bool)
    (statusModule : FlowStatusModule) : Except Error NextFlowTransform :=
  if statusModule.isUnstarted then
    if branches.isEmpty then .ok (.emptyInnerFlows none)
    else if parallel then
      let payloads := branchallPayloads w i branches
      if payloads.isEmpty then .ok (.emptyInnerFlows none)
      else .ok (.continue (.parallelJobs payloads)
        (.allFlowJobs (some ⟨0, branches.length⟩) none))
    else nextBranchStep w i branches ⟨⟨0, branches.length⟩, [], some [], some (.new 0)⟩
  else match statusModule with
    | .inProgress p =>
      match parallel, p.branchall, p.flowJobs with
      | false, some b, some flowJobs =>
        nextBranchStep w i branches
          ⟨⟨b.branch + 1, b.len⟩, flowJobs, p.flowJobsSuccess, p.flowJobsDuration⟩
      | _, _, _ => .error ⟨"Unrecognized module status for BranchAll"⟩
    | _ => .error ⟨"Unrecognized module status for BranchAll"⟩

def computeNextFlowTransform (w : World) (i : TransformInput) (module : FlowModule)
    (statusModule : FlowStatusModule) (isSkipped : Bool) : Except Error NextFlowTransform :=
  if module.isMocked || isSkipped then .ok (trivialNextJob .identity)
  else match module.value with
    | .identity => .ok (trivialNextJob .identity)
    | .invalid message => .error ⟨message⟩
    | .whileloopFlow modules modulesNode _ =>
      nextLoopIteration w i (nextWhileloopStatus statusModule) modules modulesNode
        (isSimpleModules modules i.flow.failureModule)
    | .forloopFlow iterator modules modulesNode _ parallel _ =>
      forloopTransform w i iterator modules modulesNode (parallel.getD false) statusModule
    | .branchOne branches defaultModules defaultNode =>
      branchOneTransform w i branches defaultModules defaultNode statusModule
    | .branchAll branches parallel =>
      branchAllTransform w i branches (parallel.getD true) statusModule
    | _ => do
      w.findRunnable module
      return trivialNextJob (.runnable module)

/-! ### What the transform yields -/

lemma nextLoopIteration_ok {n isSimple}
    (h : nextLoopIteration w i n modules node isSimple = .ok (.continue payload next)) :
    next = .nextLoopIteration n ∧ ∃ job, payload = .singleJob job := by
  unfold nextLoopIteration at h
  split at h
  · obtain ⟨-, -, h⟩ := bind_eq_ok.mp h
    obtain ⟨-, -, h⟩ := bind_eq_ok.mp h
    cases pure_eq_ok.mp h
    exact ⟨rfl, _, rfl⟩
  · split at h
    · cases h; exact ⟨rfl, _, rfl⟩
    · cases h

lemma nextBranchStep_ok {n} (h : nextBranchStep w i branches n = .ok (.continue payload next)) :
    next = .nextBranchStep n ∧ ∃ job, payload = .singleJob job := by
  unfold nextBranchStep at h
  split at h
  · cases h
  · split at h
    · cases h; exact ⟨rfl, _, rfl⟩
    · cases h

def runningJobs : FlowStatusModule → List Uuid
  | .inProgress p => p.flowJobs.getD []
  | _ => []

variable (module : FlowModule) (statusModule : FlowStatusModule) in
/-- **What the transform can yield** for a module in a given status. -/
inductive Yields : ContinuePayload → NextStatus → Prop
  | job (payload : JobPayload) : Yields (.singleJob payload) .nextStep
  | branch (payload : JobPayload) (b : BranchChosen) {branches : List Branch}
      {defaultModules : List FlowModule} {node : Option FlowNodeId}
      (hvalue : module.value = .branchOne branches defaultModules node) :
      Yields (.singleJob payload) (.branchChosen b)
  | iteration (payload : JobPayload) {n : ForloopNextIteration}
      (hjobs : n.flowJobs = runningJobs statusModule) :
      Yields (.singleJob payload) (.nextLoopIteration n)
  | branchStep (payload : JobPayload) (n : NextBranch) {branches : List Branch}
      {parallel : Option Bool} (hvalue : module.value = .branchAll branches parallel) :
      Yields (.singleJob payload) (.nextBranchStep n)
  | allIterations {payloads : List JobPayload} {itered : List Json} {iterator : InputTransform}
      {modules : List FlowModule} {node : Option FlowNodeId} {skip : Option Bool}
      {parallelism : Option InputTransform}
      (hvalue : module.value = .forloopFlow iterator modules node skip (some true) parallelism)
      (hlen : payloads.length = itered.length) (hpos : payloads.isEmpty = false) :
      Yields (.parallelJobs payloads) (.allFlowJobs none (some ⟨0, some itered, some itered.length⟩))
  | allBranches {payloads : List JobPayload} {branches : List Branch} {parallel : Option Bool}
      (hvalue : module.value = .branchAll branches parallel)
      (hlen : payloads.length = branches.length) (hpos : payloads.isEmpty = false) :
      Yields (.parallelJobs payloads) (.allFlowJobs (some ⟨0, branches.length⟩) none)

lemma runningJobs_of_isUnstarted {m} (h : m.isUnstarted = true) : runningJobs m = [] := by
  cases m with
  | waitingForPriorSteps _ | waitingForEvents _ _ _ | waitingForExecutor _ _ => rfl
  | _ => cases h

lemma nextWhileloopStatus_flowJobs (statusModule : FlowStatusModule) :
    (nextWhileloopStatus statusModule).flowJobs = runningJobs statusModule := by
  unfold nextWhileloopStatus runningJobs
  cases statusModule with
  | inProgress p =>
    dsimp only
    cases p.flowJobs <;> rfl
  | _ => rfl

lemma startForloop_ok (h : startForloop w i iterator parallel = .ok loop) :
    loop = .emptyIterator ∨ (parallel = true ∧ ∃ itered, loop = .parallelIteration itered) ∨
      ∃ n, loop = .nextIteration n ∧ n.flowJobs = [] := by
  obtain ⟨itered, -, h⟩ := bind_eq_ok.mp h
  cases itered with
  | nil => exact .inl (pure_eq_ok.mp h).symm
  | cons first rest =>
    split_ifs at h with hpar
    · exact .inr (.inl ⟨hpar, _, (pure_eq_ok.mp h).symm⟩)
    · exact .inr (.inr ⟨_, (pure_eq_ok.mp h).symm, rfl⟩)

lemma continueForloop_ok {p} (h : continueForloop w i iterator parallel p = .ok loop) :
    ∃ n it, loop = .nextIteration n ∧ p.flowJobs = some n.flowJobs ∧ p.iterator = some it ∧
    n.index = it.index + 1 := by
  unfold continueForloop at h
  split at h
  · rename_i it flowJobs hit hjobs
    obtain ⟨itered, -, h⟩ := bind_eq_ok.mp h
    split at h
    · exact ⟨_, it, (pure_eq_ok.mp h).symm, hjobs, hit, rfl⟩
    · cases h
  · cases h

lemma nextForloopStatus_ok (h : nextForloopStatus w i iterator parallel statusModule = .ok loop) :
    loop = .emptyIterator ∨ (parallel = true ∧ ∃ itered, loop = .parallelIteration itered) ∨
      ∃ n, loop = .nextIteration n ∧ n.flowJobs = runningJobs statusModule := by
  unfold nextForloopStatus at h
  split_ifs at h with hun
  · rw [runningJobs_of_isUnstarted hun]
    exact startForloop_ok h
  · cases statusModule with
    | inProgress p =>
      obtain ⟨n, -, hn, hjobs, -⟩ := continueForloop_ok h
      exact .inr (.inr ⟨n, hn, by simp [runningJobs, hjobs]⟩)
    | _ => cases h

lemma forloopTransform_yields {skip parallel parallelism}
    (hvalue : module.value = .forloopFlow iterator modules node skip parallel parallelism)
    (h : forloopTransform w i iterator modules node (parallel.getD false) statusModule
      = .ok (.continue payload next)) : Yields module statusModule payload next := by
  obtain ⟨loop, hloop, h⟩ := bind_eq_ok.mp h
  rcases nextForloopStatus_ok hloop with rfl | ⟨hpar, itered, rfl⟩ | ⟨n, rfl, hjobs⟩
  · cases pure_eq_ok.mp h
  · dsimp only at h
    split_ifs at h with hemp
    · cases pure_eq_ok.mp h
    cases pure_eq_ok.mp h
    have hsome : parallel = some true := by
      cases parallel with
      | none => cases hpar
      | some b => rw [show b = true from hpar]
    rw [hsome] at hvalue
    have hpos := Bool.not_eq_true _ |>.mp hemp
    exact .allIterations hvalue (forloopPayloads_length hpos) hpos
  · obtain ⟨rfl, job, rfl⟩ := nextLoopIteration_ok h
    exact .iteration job hjobs

lemma branchOneTransform_ok {defaultModules}
    (h : branchOneTransform w i branches defaultModules node statusModule
      = .ok (.continue payload next)) : ∃ job b, payload = .singleJob job ∧
      next = .branchChosen b := by
  unfold branchOneTransform at h
  split_ifs at h
  obtain ⟨branch, -, h⟩ := bind_eq_ok.mp h
  obtain ⟨chosen, -, h⟩ := bind_eq_ok.mp h
  dsimp only at h
  split at h
  · cases pure_eq_ok.mp h
    exact ⟨_, _, rfl, rfl⟩
  · cases pure_eq_ok.mp h

lemma branchAllTransform_yields {parallel} (hvalue : module.value = .branchAll branches parallel)
    (h : branchAllTransform w i branches (parallel.getD true) statusModule =
      .ok (.continue payload next)) : Yields module statusModule payload next := by
  unfold branchAllTransform at h
  split_ifs at h
  · cases h
  · dsimp only at h
    split_ifs at h with hemp
    · cases h
    · cases h
      exact .allBranches hvalue (branchallPayloads_length w i branches)
        (Bool.not_eq_true _ |>.mp hemp)
  · obtain ⟨rfl, job, rfl⟩ := nextBranchStep_ok h
    exact .branchStep job _ hvalue
  · split at h
    · split at h
      · obtain ⟨rfl, job, rfl⟩ := nextBranchStep_ok h
        exact .branchStep job _ hvalue
      · cases h
    · cases h

lemma computeNextFlowTransform_yields {skipped : Bool}
    (h : computeNextFlowTransform w i module statusModule skipped = .ok (.continue payload next)) :
    Yields module statusModule payload next := by
  unfold computeNextFlowTransform at h
  split_ifs at h
  · cases h
    exact .job _
  split at h
  · cases h
    exact .job _
  · cases h
  · obtain ⟨rfl, job, rfl⟩ := nextLoopIteration_ok h
    exact .iteration job (nextWhileloopStatus_flowJobs statusModule)
  · rename_i hvalue
    exact forloopTransform_yields hvalue h
  · rename_i hvalue
    obtain ⟨job, b, rfl, rfl⟩ := branchOneTransform_ok h
    exact .branch job b hvalue
  · rename_i hvalue
    exact branchAllTransform_yields hvalue h
  · obtain ⟨-, -, h⟩ := bind_eq_ok.mp h
    cases pure_eq_ok.mp h
    exact .job _

end Windmill.Flow.Transform
