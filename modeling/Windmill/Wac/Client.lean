import Windmill.Wac.Machine

/-! # The TypeScript client of workflows as code

A workflow is an async function that calls tasks, inline steps, sleeps and approvals (`Prog`).
`exec` runs a program as `WorkflowCtx` does on a checkpoint (`typescript-client/client.ts`),
`runner` is the wrapper around it (`windmill-worker/src/bun_executor.rs`), and `direct` runs the
same program with every function called directly.

A step that is not recorded suspends the workflow with an exception, `StepSuspend`. It travels
through the program like any other exception, so a `catch` may take it. -/

namespace Windmill.Wac.Client

open Flow.Value Checkpoint Machine

/-- The class of an error. The errors of failed tasks are all of one class. -/
inductive FailClass where
  | task
  | user (name : String)
deriving DecidableEq

/-- A workflow program. A task call has the function `fn` of the task, its name and path, and
returns a handle, the key of the call. The handler of a `catch` gets the class of the error; a
`StepSuspend` it passes on if `rethrows` is set, and else handles with `onSuspend`. -/
inductive Prog where
  | ret (v : Json)
  | throw (c : FailClass)
  | call (fn : ℕ) (name script : String) (args : JsonMap) (k : String → Prog)
  | await (h : String) (k : Json → Prog)
  | all (hs : List String) (k : List Json → Prog)
  | step (name : String) (fn : Except FailClass Json) (k : Json → Prog)
  | sleep (seconds : ℕ) (k : Prog)
  | approval (timeout : Option ℕ) (selfApproval : Option Bool) (k : Json → Prog)
  | tryCatch (body : Prog) (onFail : FailClass → Prog) (rethrows : Bool) (onSuspend : Prog)
    (k : Json → Prog)

/-! ### Keys -/

abbrev Counters := String → ℕ

/-- `_allocKey`: `double` for the first call, then `double_2`, `double_3`. -/
def allocKey (counters : Counters) (name : String) : String × Counters :=
  let n := counters name + 1
  (if n = 1 then name else name ++ "_" ++ toString n, Function.update counters name n)

def callName (name script : String) : String :=
  if name ≠ "" then name else if script ≠ "" then script else "step"

/-! ### Error markers -/

def nonzero (text : String) : Bool :=
  (text.toList.takeWhile fun c => c ≠ 'e' ∧ c ≠ 'E').any fun c => '1' ≤ c ∧ c ≤ '9'

def truthy : Json → Bool
  | .null => false
  | .bool b => b
  | .num text => nonzero text
  | .str s => s ≠ ""
  | .arr _ => true
  | .obj _ => true

def isErrorMarker : Json → Bool
  | .obj fields => ((fields.find? fun f => f.1 == "__wmill_error").map fun f =>
    truthy f.2).getD false
  | _ => false

/-! ### Replay -/

inductive Thrown where
  | suspend (out : WacOutput)
  | failed (c : FailClass)

/-- How a run ends. An `await` of a thenable that never settles hangs. -/
inductive Result where
  | returned (v : Json)
  | threw (e : Thrown)
  | hangs

structure Called where
  key : String
  fn : ℕ
  args : JsonMap

/-- The state of a `WorkflowCtx`: the counters, the pending steps and whether their suspension was
thrown. `called` has the task calls so far, `persisted` the inline steps that were saved on the fast
path. -/
structure Ctx where
  counters : Counters := fun _ => 0
  called : List Called := []
  pending : List WacStepDispatch := []
  suspended : Bool := false
  persisted : List (String × Json) := []

def dispatchOf (steps : List WacStepDispatch) : WacOutput :=
  .dispatch (.named (if 1 < steps.length then "parallel" else "sequential")) steps

/-- The `then` of a pending step, called for the first time. -/
def Ctx.suspend (x : Ctx) : Ctx := { x with suspended := true, pending := [] }

section Exec

variable (C : JsonMap) (fast : String → Bool)

def Ctx.isHandle (x : Ctx) (h : String) : Bool := x.called.any fun c => c.key == h

def isPending (x : Ctx) (h : String) : Bool := x.isHandle h && (C.lookup h).isNone

def hasFailed (x : Ctx) (h : String) : Bool :=
  x.isHandle h && ((C.lookup h).map isErrorMarker).getD false

def valueOf (x : Ctx) (h : String) : Json := if x.isHandle h then (C.lookup h).getD .null else .null

/-- `_nextStep`: the key of the call, and the step if it is not recorded. -/
def nextStep (fn : ℕ) (name script : String) (args : JsonMap) (x : Ctx) : String × Ctx :=
  let a := allocKey x.counters (callName name script)
  let x := { x with counters := a.2, called := x.called ++ [{ key := a.1, fn, args }] }
  if (C.lookup a.1).isSome then (a.1, x)
  else (a.1, { x with pending := x.pending ++
      [{ key := a.1
         name := if name ≠ "" then name else a.1
         script := if script ≠ "" then script else a.1
         args }] })

/-- How `await h` fails to go on, if it does. -/
def awaitStops (x : Ctx) (h : String) : Option (Result × Ctx) :=
  if hasFailed C x h then some (.threw (.failed .task), x)
  else if isPending C x h then
    if x.suspended then some (.hangs, x)
    else some (.threw (.suspend (dispatchOf x.pending)), x.suspend)
  else none

/-- How `Promise.all` fails to go on, if it does: it rejects with the first of its elements that
rejects. The `then` of every element is called before that. -/
def allStops (x : Ctx) (hs : List String) : Option (Result × Ctx) :=
  let x' := if hs.any (isPending C x) && !x.suspended then x.suspend else x
  match hs.find? fun h => hasFailed C x h || (isPending C x h && !x.suspended) with
  | some h =>
    if hasFailed C x h then some (.threw (.failed .task), x')
    else some (.threw (.suspend (dispatchOf x.pending)), x')
  | none => if hs.any (isPending C x) then some (.hangs, x') else none

/-- A run of a program with the recorded steps `C`. `fast` tells for which inline steps the fast
path succeeds. -/
def exec : Prog → Ctx → Result × Ctx
  | .ret v, x => (.returned v, x)
  | .throw c, x => (.threw (.failed c), x)
  | .call fn name script args k, x =>
    exec (k (nextStep C fn name script args x).1) (nextStep C fn name script args x).2
  | .await h k, x => match awaitStops C x h with
    | some r => r
    | none => exec (k (valueOf C x h)) x
  | .all hs k, x => match allStops C x hs with
    | some r => r
    | none => exec (k (hs.map (valueOf C x))) x
  | .step name fn k, x =>
    let a := allocKey x.counters (if name ≠ "" then name else "step")
    let x := { x with counters := a.2 }
    match C.lookup a.1 with
    | some v => if isErrorMarker v then (.threw (.failed .task), x) else exec (k v) x
    | none => match fn with
      | .error c => (.threw (.failed c), x)
      | .ok v =>
        if fast a.1 then exec (k v) { x with persisted := x.persisted ++ [(a.1, v)] }
        else (.threw (.suspend (.inlineCheckpoint a.1 v)), x)
  | .sleep seconds k, x =>
    let a := allocKey x.counters "sleep"
    let x := { x with counters := a.2 }
    if (C.lookup a.1).isSome then exec k x
    else (.threw (.suspend (.sleep a.1 (max 1 seconds))), x)
  | .approval timeout selfApproval k, x =>
    let a := allocKey x.counters "approval"
    let x := { x with counters := a.2 }
    match C.lookup a.1 with
    | some v => exec (k v) x
    | none => (.threw (.suspend (.approval a.1 (some (timeout.getD 1800))
        (some !selfApproval.getD true))), x)
  | .tryCatch body onFail rethrows onSuspend k, x => match exec body x with
    | (.returned v, x) => exec (k v) x
    | (.threw (.failed c), x) => match exec (onFail c) x with
      | (.returned v, x) => exec (k v) x
      | r => r
    | (.threw (.suspend out), x) =>
      if rethrows then (.threw (.suspend out), x)
      else match exec onSuspend x with
        | (.returned v, x) => exec (k v) x
        | r => r
    | (.hangs, x) => (.hangs, x)

inductive RunEnd where
  | output (out : WacOutput)
  | error (c : FailClass)
  | hangs

/-- The wrapper around the workflow function: steps that were called and not awaited are flushed
before the workflow completes. -/
def runner (p : Prog) : RunEnd × Ctx :=
  match exec C fast p {} with
  | (.returned v, x) => if x.pending.isEmpty then (.output (.complete v), x)
      else (.output (dispatchOf x.pending), x)
  | (.threw (.suspend out), x) => (.output out, x)
  | (.threw (.failed c), x) => (.error c, x)
  | (.hangs, x) => (.hangs, x)

end Exec

/-! ### The process -/

/-- What the functions give: the tasks for their arguments, the approvals, and the ids of the child
jobs, which stand in the error markers. -/
structure Env where
  task : ℕ → JsonMap → Except Json Json
  approval : String → Json
  child : String → Uuid

lemma isErrorMarker_childResult (key : String) (child : Uuid) (err : Json) :
    isErrorMarker (childResult key child false err) = true := rfl

/-- What is recorded for a task. Its result is taken to be read as it is written. -/
def Env.taskRecord (env : Env) (key : String) (fn : ℕ) (args : JsonMap) : Json :=
  match env.task fn args with
  | .ok v => childResult key (env.child key) true v
  | .error err => childResult key (env.child key) false err

/-- The keys that an output of a run names, with what is recorded for them. The child of a task
replays the run up to the call of its key, and runs the function of that call. -/
def Env.records (env : Env) (x : Ctx) : WacOutput → List (String × Json)
  | .dispatch _ steps => steps.filterMap fun s =>
      (x.called.find? fun c => c.key == s.key).map fun c =>
        (c.key, env.taskRecord c.key c.fn c.args)
  | .complete _ => []
  | .inlineCheckpoint key v => [(key, v)]
  | .approval key _ _ => [(key, env.approval key)]
  | .sleep key _ => [(key, .bool true)]

def dispatched : WacOutput → List String
  | .dispatch _ steps => steps.map (·.key)
  | _ => []

/-- The workflow is run on the checkpoint, the keys of its output are completed, and so on, for at
most `n` runs. The log has the tasks that were dispatched. -/
def process (env : Env) (fast : ℕ → String → Bool) (p : Prog) :
    ℕ → JsonMap → List String → Option (Except FailClass Json × List String)
  | 0, _, _ => none
  | n + 1, C, log => match runner C (fast n) p with
    | (.output (.complete v), _) => some (.ok v, log)
    | (.error c, _) => some (.error c, log)
    | (.output out, x) => process env fast p n (insertAll C (x.persisted ++ env.records x out))
        (log ++ dispatched out)
    | (.hangs, _) => none

/-! ### The direct run -/

inductive StepKind where
  | task (fn : ℕ) (args : JsonMap)
  | step (fn : Except FailClass Json)
  | sleep
  | approval

/-- A key of the direct run. `epoch` counts the awaits before it was allocated. -/
structure Entry where
  key : String
  kind : StepKind
  epoch : ℕ

/-- The state of a direct run: the keys that a workflow context would allocate, the tasks that were
awaited, and the handles of each `Promise.all`. -/
structure Direct where
  counters : Counters := fun _ => 0
  entries : List Entry := []
  epoch : ℕ := 0
  awaited : List String := []
  alls : List (List String) := []

def Direct.taskOf (env : Env) (d : Direct) (h : String) : Option (Except Json Json) :=
  d.entries.findSome? fun e => match e.kind with
    | .task fn args => if e.key = h then some (env.task fn args) else none
    | _ => none

def Direct.alloc (d : Direct) (name : String) (kind : StepKind) : Direct :=
  { d with
    counters := (allocKey d.counters name).2
    entries := d.entries ++ [{ key := (allocKey d.counters name).1, kind, epoch := d.epoch }] }

def Direct.pass (d : Direct) : Direct := { d with epoch := d.epoch + 1 }

def valueOfTask : Option (Except Json Json) → Json
  | some (.ok v) => v
  | _ => .null

def taskFails : Option (Except Json Json) → Bool
  | some (.error _) => true
  | _ => false

def Direct.await (env : Env) (d : Direct) (hs : List String) : Direct :=
  { d.pass with awaited := d.awaited ++ hs.filter fun h => (d.taskOf env h).isSome }

/-- The program with every task, step, sleep and approval called directly. -/
def direct (env : Env) : Prog → Direct → Except FailClass Json × Direct
  | .ret v, d => (.ok v, d)
  | .throw c, d => (.error c, d)
  | .call fn name script args k, d =>
    direct env (k (allocKey d.counters (callName name script)).1)
      (d.alloc (callName name script) (.task fn args))
  | .await h k, d =>
    if taskFails (d.taskOf env h) then (.error .task, d.await env [h])
    else direct env (k (valueOfTask (d.taskOf env h))) (d.await env [h])
  | .all hs k, d =>
    let d' := { d.await env hs with alls := d.alls ++ [hs] }
    if hs.any fun h => taskFails (d.taskOf env h) then (.error .task, d')
    else direct env (k (hs.map fun h => valueOfTask (d.taskOf env h))) d'
  | .step name fn k, d =>
    let d' := (d.alloc (if name ≠ "" then name else "step") (.step fn)).pass
    match fn with
    | .error c => (.error c, d')
    | .ok v => direct env (k v) d'
  | .sleep _ k, d => direct env k (d.alloc "sleep" .sleep).pass
  | .approval _ _ k, d =>
    direct env (k (env.approval (allocKey d.counters "approval").1))
      (d.alloc "approval" .approval).pass
  | .tryCatch body onFail _ _ k, d => match direct env body d with
    | (.ok v, d) => direct env (k v) d
    | (.error c, d) => match direct env (onFail c) d with
      | (.ok v, d) => direct env (k v) d
      | r => r

end Windmill.Wac.Client
