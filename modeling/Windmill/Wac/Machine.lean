import Mathlib.Data.List.MinMax
import Windmill.Lib.Run
import Windmill.Wac.Checkpoint

/-! # A workflow job and everything that writes its rows

The machine of one workflow-as-code job. Its actions are the outputs of the runs of the script
(`Checkpoint`), the completion of a child in its two transactions (`add_completed_job`,
`handle_wac_child_completion`), the resume requests of the API (`resume_suspended_job_internal`),
and the pull of the suspended job, which answers a pending approval or sleep
(`prepare_checkpoint_for_resume`). An output may arrive at any time while the job is in the queue.
`asked` and `answered` are history variables; no transition reads them. -/

namespace Windmill.Wac.Machine

open Flow.Value Checkpoint List

/-- A row of the `resume_job` table for this job. -/
structure ResumeRow where
  id : Uuid
  resumeId : BitVec 32
  value : Json
  approver : Option String
  approved : Bool
  createdAt : ℕ

/-- A child that has completed and whose completion is still to be handled, with the pending job ids
as the completing transaction read them. -/
structure Report where
  child : Uuid
  success : Bool
  result : Json
  jobIds : Option IdMap

/-- A workflow job and its children. -/
structure Parent where
  rows : Rows
  resumeRows : List ResumeRow := []
  children : List Uuid := []
  reports : List Report := []
  /-- The steps of the outputs that were accepted, each with the source hash of its run. -/
  asked : List (String × String) := []
  /-- The approval steps that were answered, each with the resume rows that were there. -/
  answered : List (String × List ResumeRow) := []

def Parent.start : Parent := { rows := { checkpoint := none, queue := some ⟨0, none⟩ } }

def suspendOf (p : Parent) : Option ℤ := p.rows.queue.map (·.suspend)

def completedOf (p : Parent) : JsonMap := (loadCheckpoint p.rows).completedSteps

def storedHash (p : Parent) : String := (loadCheckpoint p.rows).sourceHash

/-! ### The completion of a child -/

def uuidText (id : Uuid) : String :=
  let ds := id.toHex.toList
  String.ofList (ds.take 8 ++ '-' :: (ds.drop 8).take 4 ++ '-' :: (ds.drop 12).take 4 ++
    '-' :: (ds.drop 16).take 4 ++ '-' :: ds.drop 20)

def stepKeyOf (jobIds : IdMap) (child : Uuid) : Option String :=
  jobIds.entries.findSome? fun e => if e.2 = child then some e.1 else none

mutual

/-- `serde_json::from_str`, for a document with at most so many nested containers. Of the members
with one key the last is kept. -/
def readValue (number : String → Option String) : ℕ → Json → Option Json
  | _, .num text => (number text).map .num
  | 0, .arr _ => none
  | 0, .obj _ => none
  | depth + 1, .arr elems => (readElems number depth elems).map .arr
  | depth + 1, .obj fields => (readFields number depth fields).map .obj
  | _, .null => some .null
  | _, .bool b => some (.bool b)
  | _, .str s => some (.str s)

def readElems (number : String → Option String) (depth : ℕ) : List Json → Option (List Json)
  | [] => some []
  | v :: rest => do
    let v' ← readValue number depth v
    let rest' ← readElems number depth rest
    some (v' :: rest')

def readFields (number : String → Option String) (depth : ℕ) :
    List (String × Json) → Option (List (String × Json))
  | [] => some []
  | (k, v) :: rest => do
    let v' ← readValue number depth v
    let rest' ← readFields number depth rest
    some (if k ∈ rest.map Prod.fst then rest' else (k, v') :: rest')

end

/-- The recursion limit of `serde_json`. -/
def maxNested : ℕ := 127

/-- `serde_json::from_str(result.get()).unwrap_or(Value::Null)`. -/
def readResult (j : Job) (result : Json) : Json :=
  (readValue j.readNumber maxNested result).getD .null

/-- What is recorded for a step: the result of its child, or an error marker around it. -/
def childResult (stepKey : String) (child : Uuid) (success : Bool) (result : Json) : Json :=
  if success then result
  else .obj [("__wmill_error", .bool true),
    ("message", .str ("WAC task '" ++ stepKey ++ "' failed (child job " ++ uuidText child ++ ")")),
    ("child_job_id", .str (uuidText child)),
    ("step_key", .str stepKey),
    ("result", result)]

lemma childResult_success (stepKey : String) (child : Uuid) (result : Json) :
    childResult stepKey child true result = result := rfl

def mergeStep (key : String) (result : Json) (cp : WacCheckpoint) : WacCheckpoint :=
  { cp with completedSteps := cp.completedSteps.insert key result }

def clearPending (cp : WacCheckpoint) : WacCheckpoint := { cp with pendingSteps := none }

/-- The transaction of `handle_wac_child_completion` for a child with a step: the result is merged,
the counter goes down, and the pending steps are cleared when it reaches 0. -/
def completeStep (j : Job) (key : String) (r : Report) (rows : Rows) : Rows :=
  let result := childResult key r.child r.success (readResult j r.result)
  let checkpoint := rows.checkpoint.map (mergeStep key result)
  let queue := rows.queue.map QueueRow.countDown
  { checkpoint := if queue.map (·.suspend) = some 0 then checkpoint.map clearPending else checkpoint
    queue }

/-- `handle_wac_child_completion`. A failed child without a step fails the parent. -/
def handleWacChildCompletion (j : Job) (r : Report) (rows : Rows) : Rows :=
  match r.jobIds with
  | none => rows
  | some jobIds => match stepKeyOf jobIds r.child with
    | some key => completeStep j key r rows
    | none =>
      if r.success then { rows with queue := rows.queue.map QueueRow.countDown }
      else { rows with queue := none }

/-! ### Resume requests -/

structure ResumeRequest where
  resumeId : BitVec 32
  value : Json
  approver : Option String
  approved : Bool
  createdAt : ℕ

def resumeRowId (job : Uuid) (resumeId : BitVec 32) : Uuid := job ^^^ resumeId.setWidth 128

/-- What a request does to the counter. The row it updates is that of the parent job if there is
one. -/
def countResume (j : Job) (approved : Bool) (q : QueueRow) : QueueRow :=
  if j.parentJob.isSome then q
  else if !approved then { q with suspend := 0 }
  else if 0 < q.suspend then q.countDown
  else q

/-- `resume_suspended_job_internal`. A request for a job that has left the queue and a second
request with the same id are refused. -/
def resumeSuspendedJob (j : Job) (req : ResumeRequest) (p : Parent) : Parent :=
  if p.rows.queue.isNone then p
  else if p.resumeRows.any (fun row => row.id == resumeRowId j.id req.resumeId) then p
  else
    { p with
      resumeRows := p.resumeRows ++
        [{ id := resumeRowId j.id req.resumeId, resumeId := req.resumeId, value := req.value,
           approver := req.approver, approved := req.approved, createdAt := req.createdAt }]
      rows := { p.rows with queue := p.rows.queue.map (countResume j req.approved) } }

/-! ### Resuming -/

def firstResume (rows : List ResumeRow) : Option ResumeRow := rows.argmin (·.createdAt)

def approvalResult : Option ResumeRow → Json
  | some row => .obj [("value", row.value), ("approver", .str (row.approver.getD "anonymous")),
      ("approved", .bool row.approved)]
  | none => .obj [("value", .null), ("approver", .null), ("approved", .bool false)]

def prepareCheckpointForResume (resumeRows : List ResumeRow) (cp : WacCheckpoint) : WacCheckpoint :=
  match cp.pendingSteps with
  | none => cp
  | some pending => match pending.mode with
    | .approval =>
      { cp with
        completedSteps := cp.completedSteps.insert pending.firstKey
          (approvalResult (firstResume resumeRows))
        pendingSteps := none }
    | .sleep =>
      { cp with
        completedSteps := cp.completedSteps.insert pending.firstKey (.bool true)
        pendingSteps := none }
    | .named _ => cp

def pendingApproval (cp : WacCheckpoint) : Option String :=
  cp.pendingSteps.bind fun pending => match pending.mode with
    | .approval => some pending.firstKey
    | _ => none

/-- The suspended pull query: the counter is down, or the time is over. -/
def pullSuspended (now : ℕ) (q : QueueRow) : Option QueueRow :=
  match q.suspendUntil with
  | some deadline => if q.suspend ≤ 0 ∨ deadline ≤ now then some { q with suspendUntil := none }
      else none
  | none => none

/-! ### The machine -/

/-- What may happen to a workflow job. -/
inductive Action where
  | output (e : Execution) (out : WacOutput)
  | completes (child : Uuid) (success : Bool) (result : Json)
  | handles (child : Uuid)
  | submits (req : ResumeRequest)
  | pulls (now : ℕ)
  | prepares

def pushedChildren (e : Execution) : WacOutput → List Uuid
  | .dispatch _ _ => e.ids
  | _ => []

def FreshIds (e : Execution) (p : Parent) : WacOutput → Prop
  | .dispatch _ steps => e.ids.length = steps.length ∧ e.ids.Nodup ∧
      (∀ id ∈ e.ids, id ∉ p.children) ∧ ∀ id ∈ e.ids, id ∉ p.reports.map (·.child)
  | _ => True

instance (e : Execution) (p : Parent) : ∀ out : WacOutput, Decidable (FreshIds e p out)
  | .dispatch _ steps =>
    -- over the list; the instance that would be found runs over all ids
    letI : Decidable (∀ id ∈ e.ids, id ∉ p.children) := List.decidableBAll _ _
    letI : Decidable (∀ id ∈ e.ids, id ∉ p.reports.map (·.child)) := List.decidableBAll _ _
    inferInstanceAs (Decidable (e.ids.length = steps.length ∧ e.ids.Nodup ∧
      (∀ id ∈ e.ids, id ∉ p.children) ∧ ∀ id ∈ e.ids, id ∉ p.reports.map (·.child)))
  | .complete _ => .isTrue trivial
  | .inlineCheckpoint _ _ => .isTrue trivial
  | .approval _ _ _ => .isTrue trivial
  | .sleep _ _ => .isTrue trivial

def output (j : Job) (e : Execution) (out : WacOutput) (p : Parent) : Parent :=
  match handleWacV2Output j e out p.rows with
  | .error _ => p
  | .ok rows =>
    { p with
      rows
      children := p.children ++ pushedChildren e out
      asked := p.asked ++ out.keys.map fun k => (k, e.currentHash) }

/-- A child ends: its result waits to be handled. -/
def complete (child : Uuid) (success : Bool) (result : Json) (p : Parent) : Parent :=
  { p with
    children := p.children.erase child
    reports := p.reports ++ [{
      child, success, result
      jobIds := (p.rows.checkpoint.bind (·.pendingSteps)).map (·.jobIds) }] }

def prepare (p : Parent) : Parent :=
  let cp := loadCheckpoint p.rows
  { p with
    rows := { p.rows with
      checkpoint := p.rows.checkpoint.map (prepareCheckpointForResume p.resumeRows) }
    answered := p.answered ++ ((pendingApproval cp).map fun k => (k, p.resumeRows)).toList }

/-- One action, if it is possible. -/
def step (j : Job) (p : Parent) : Action → Option Parent
  | .output e out =>
    if p.rows.queue.isSome ∧ FreshIds e p out then some (output j e out p) else none
  | .completes child success result =>
    if child ∈ p.children then some (complete child success result p) else none
  | .handles child => (p.reports.find? (·.child == child)).map fun r =>
      { p with rows := handleWacChildCompletion j r p.rows, reports :=
        p.reports.eraseP (·.child == child) }
  | .submits req => some (resumeSuspendedJob j req p)
  | .pulls now => (p.rows.queue.bind (pullSuspended now)).map fun q =>
      { p with rows := { p.rows with queue := some q } }
  | .prepares => if p.rows.queue.any (fun q => q.suspendUntil.isNone) then some (prepare p)
      else none

lemma step_output {j e out p} (hguard : p.rows.queue.isSome ∧ FreshIds e p out) :
    step j p (.output e out) = some (output j e out p) := by
  rw [step, if_pos hguard]

lemma of_step_output {j e out p p'} (h : step j p (.output e out) = some p') :
    (p.rows.queue.isSome ∧ FreshIds e p out) ∧ p' = output j e out p := by
  by_cases hguard : p.rows.queue.isSome ∧ FreshIds e p out
  · rw [step_output hguard] at h
    cases h
    exact ⟨hguard, rfl⟩
  · simp [step, if_neg hguard] at h

lemma step_handles {j u v c} (hs : step j u (.handles c) = some v) :
    ∃ r l₁ l₂, r.child = c ∧ u.reports = l₁ ++ r :: l₂ ∧
      v = { u with rows := handleWacChildCompletion j r u.rows, reports := l₁ ++ l₂ } := by
  obtain ⟨r, hfind, rfl⟩ := Option.map_eq_some_iff.mp hs
  obtain ⟨hr, l₁, l₂, hsplit, hfirst⟩ := find?_eq_some_iff_append.mp hfind
  have hnot : ∀ b ∈ l₁, ¬ (b.child == c) = true := fun b hb => by simpa using hfirst b hb
  refine ⟨r, l₁, l₂, eq_of_beq hr, hsplit, ?_⟩
  have herase : u.reports.eraseP (·.child == c) = l₁ ++ l₂ := by
    rw [hsplit, eraseP_append_right _ hnot]
    exact congrArg (l₁ ++ ·) (eraseP_cons_of_pos hr)
  rw [herase]

lemma mem_of_mem_append_erased {r r' : Report} {l₁ l₂ : List Report} (h : r' ∈ l₁ ++ l₂) :
    r' ∈ l₁ ++ r :: l₂ := by
  rcases mem_append.mp h with hl | hl
  · exact mem_append_left _ hl
  · exact mem_append_right _ (mem_cons_of_mem _ hl)

lemma resumeSuspendedJob_eq (j : Job) (req : ResumeRequest) (p : Parent) :
    ∃ resumeRows queue, resumeSuspendedJob j req p =
    { p with resumeRows, rows := { p.rows with queue } } := by
  unfold resumeSuspendedJob
  split_ifs
  · exact ⟨p.resumeRows, p.rows.queue, rfl⟩
  · exact ⟨p.resumeRows, p.rows.queue, rfl⟩
  · exact ⟨_, _, rfl⟩

lemma loadCheckpoint_prepare (p : Parent) :
    loadCheckpoint (prepare p).rows = prepareCheckpointForResume p.resumeRows
    (loadCheckpoint p.rows) := by
  unfold prepare loadCheckpoint
  cases p.rows.checkpoint <;> rfl

lemma step_prepares {j p p'} (h : step j p .prepares = some p') : p' = prepare p := by
  rw [step] at h
  split_ifs at h
  exact (Option.some.inj h).symm

end Windmill.Wac.Machine
