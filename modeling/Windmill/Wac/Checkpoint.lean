import Mathlib.Data.List.AList
import Windmill.Flow.Value

/-! # Workflow-as-code checkpoints

A workflow written as code is re-run from the start after every suspension, on a checkpoint that
holds the results of the steps that are already done (`windmill-common/src/wac.rs`). This file has
the checkpoint, the outputs that a run of the workflow script ends with
(`windmill-worker/src/wac_executor.rs`), and what the worker writes for each output
(`handle_wac_v2_output`, `windmill-worker/src/bun_executor.rs`) to the fields that are read here. -/

namespace Windmill.Wac.Checkpoint

open Flow.Value List

abbrev JsonMap := AList fun _ : String => Json

abbrev IdMap := AList fun _ : String => Uuid

abbrev ScriptHash := ℤ

/-- What a suspended workflow waits for. The mode of a dispatch is a text of the client library. -/
inductive Mode where
  | approval
  | sleep
  | named (text : String)

structure WacPendingSteps where
  mode : Mode
  keys : List String
  jobIds : IdMap

def WacPendingSteps.firstKey (pending : WacPendingSteps) : String := pending.keys.head?.getD ""

structure WacCheckpoint where
  sourceHash : String := ""
  completedSteps : JsonMap := ∅
  pendingSteps : Option WacPendingSteps := none
  inputArgs : JsonMap := ∅
  jobIds : IdMap := ∅

/-- How the child job of a step is made; every text other than `script` and `flow` is `inline`. -/
inductive DispatchType where
  | inline
  | script
  | flow
deriving DecidableEq

/-- A step of a dispatch: the task `name`, called with `args`. -/
structure WacStepDispatch where
  key : String
  name : String := ""
  script : String := ""
  args : JsonMap := ∅
  dispatchType : DispatchType := .inline
  cacheTtl : Option ℤ := none

/-- `WacOutput`: what a run of the workflow answers. -/
inductive WacOutput where
  | dispatch (mode : Mode) (steps : List WacStepDispatch)
  | complete (result : Json)
  | inlineCheckpoint (key : String) (result : Json)
  | approval (key : String) (timeout : Option ℕ) (selfApprovalDisabled : Option Bool)
  | sleep (key : String) (seconds : ℕ)

def WacOutput.keys : WacOutput → List String
  | .dispatch _ steps => steps.map (·.key)
  | .complete _ => []
  | .inlineCheckpoint key _ => [key]
  | .approval key _ _ => [key]
  | .sleep key _ => [key]

structure QueueRow where
  suspend : ℤ
  suspendUntil : Option ℕ

def QueueRow.countDown (q : QueueRow) : QueueRow := { q with suspend := max (q.suspend - 1) 0 }

/-- The rows of a workflow job that its outputs write. The queue row goes when the job completes. -/
structure Rows where
  checkpoint : Option WacCheckpoint
  queue : Option QueueRow

inductive JobKind where
  | script
  | preview
  | other (name : String)
deriving DecidableEq

/-- A workflow job, and what the server that runs it does with the numbers of a result. -/
structure Job where
  id : Uuid
  kind : JobKind := .script
  parentJob : Option Uuid := none
  args : JsonMap := ∅
  enterprise : Bool := false
  /-- A number as `serde_json` reads and writes it (integers of 64 bits stay as they are, others
  lose the digits a double has no room for), if it is in range. -/
  readNumber : String → Option String := some

/-- One run of the workflow script: the version it ran, the time of its output, and the ids drawn
for the children of a dispatch. -/
structure Execution where
  runnableId : Option ScriptHash
  now : ℕ := 0
  ids : List Uuid := []

/-- The source hash of a run; a preview has none. -/
def Execution.currentHash (e : Execution) : String := (e.runnableId.map toString).getD ""

/-! ### The checkpoint -/

def loadCheckpoint (rows : Rows) : WacCheckpoint := rows.checkpoint.getD {}

lemma loadCheckpoint_of_some {rows cp} (h : rows.checkpoint = some cp) :
    loadCheckpoint rows = cp := by
  rw [loadCheckpoint, h, Option.getD_some]

def insertAll {β : Type} (m : AList fun _ : String => β) (entries : List (String × β)) :
    AList fun _ : String => β :=
  entries.foldl (fun m e => m.insert e.1 e.2) m

section InsertAll

variable {β : Type} {k : String} {v : β}

lemma lookup_insertAll_of_notMem : ∀ {entries : List (String × β)} {m : AList fun _ : String => β},
      k ∉ entries.map Prod.fst → (insertAll m entries).lookup k = m.lookup k
  | [], _, _ => rfl
  | e :: entries, m, h => by
    obtain ⟨hk, htail⟩ : k ≠ e.1 ∧ k ∉ entries.map Prod.fst := by
      simpa only [map_cons, mem_cons, not_or] using h
    have := lookup_insertAll_of_notMem (m := m.insert e.1 e.2) htail
    rw [AList.lookup_insert_ne hk] at this
    exact this

lemma lookup_insertAll_of_mem : ∀ {entries m},
    (entries.map Prod.fst).Nodup → (k, v) ∈ entries → (insertAll m entries).lookup k = some v
  | [], _, _, h => by cases h
  | e :: entries, m, hnd, h => by
    obtain ⟨hhead, htail⟩ := nodup_cons.mp hnd
    rcases mem_cons.mp h with rfl | hmem
    · have := lookup_insertAll_of_notMem (m := m.insert k v) hhead
      rw [AList.lookup_insert] at this
      exact this
    · exact lookup_insertAll_of_mem (m := m.insert e.1 e.2) htail hmem

lemma mem_insertAll : ∀ {entries : List (String × β)} {m : AList fun _ : String => β},
      k ∈ insertAll m entries ↔ k ∈ entries.map Prod.fst ∨ k ∈ m
  | [], m => by
    rw [map_nil, or_iff_right not_mem_nil]
    rfl
  | e :: entries, m => by
    have ih : k ∈ insertAll (m.insert e.1 e.2) entries ↔ _ := mem_insertAll
    rw [AList.mem_insert] at ih
    rw [map_cons, mem_cons, or_assoc, or_left_comm]
    exact ih

lemma mem_of_lookup_insertAll : ∀ {entries m},
    (insertAll m entries).lookup k = some v → (k, v) ∈ entries ∨ m.lookup k = some v
  | [], _, h => .inr h
  | e :: entries, m, h => by
    have htail : (insertAll (m.insert e.1 e.2) entries).lookup k = some v := h
    rcases mem_of_lookup_insertAll htail with hmem | hm
    · exact .inl (mem_cons_of_mem _ hmem)
    by_cases hk : k = e.1
    · subst hk
      rw [AList.lookup_insert] at hm
      cases hm
      exact .inl mem_cons_self
    · rw [AList.lookup_insert_ne hk] at hm
      exact .inr hm

end InsertAll

variable (cp : WacCheckpoint)

def addCompletedStep (stepKey : String) (result : Json) : WacCheckpoint :=
  let completedSteps := cp.completedSteps.insert stepKey result
  { cp with
    completedSteps
    pendingSteps := cp.pendingSteps.filter fun pending => !pending.keys.all fun k =>
      (completedSteps.lookup k).isSome }

def updateCheckpointForDispatch (steps : List WacStepDispatch) (mode : Mode)
    (jobIds : List (String × Uuid)) : WacCheckpoint :=
  { cp with
    jobIds := insertAll cp.jobIds jobIds
    pendingSteps := some
      { mode, keys := steps.map (·.key), jobIds := insertAll ∅ jobIds } }

def sourceChanged : Error :=
  ⟨"Workflow source code changed between replays. Cannot safely resume from checkpoint — " ++
    "step keys may have shifted. Please restart this workflow."⟩

/-- The source hash validation of the dispatch arm and of `persist_inline_checkpoint_delta`: the
first hash is stored, and every other hash is refused from then on. -/
def validateSourceHash (hash : String) : Except Error WacCheckpoint :=
  if hash = "" then .ok cp
  else if cp.sourceHash = "" then .ok { cp with sourceHash := hash }
  else if cp.sourceHash = hash then .ok cp
  else .error sourceChanged

lemma validateSourceHash_ok {cp cp' hash} (h : validateSourceHash cp hash = .ok cp') :
    (hash = "" ∨ cp.sourceHash = "" ∨ cp.sourceHash = hash) ∧
      cp' = { cp with sourceHash := if cp.sourceHash = "" then hash else cp.sourceHash } := by
  unfold validateSourceHash at h
  split_ifs at h with h0 h1 h2
  · cases h
    refine ⟨.inl h0, ?_⟩
    by_cases hs : cp.sourceHash = ""
    · rw [if_pos hs, h0, ← hs]
    · rw [if_neg hs]
  · cases h
    exact ⟨.inr (.inl h1), by rw [if_pos h1]⟩
  · cases h
    exact ⟨.inr (.inr h2), by rw [if_neg h1]⟩

def persistInlineCheckpointDelta (hash key : String) (result : Json) : Except Error WacCheckpoint :=
  (validateSourceHash cp hash).map fun cp => addCompletedStep cp key result

/-! ### The outputs -/

def firstDuplicate : List String → List String → Option String
  | _, [] => none
  | seen, k :: ks => if k ∈ seen then some k else firstDuplicate (k :: seen) ks

lemma nodup_of_firstDuplicate {seen} :
    ∀ {ks}, firstDuplicate seen ks = none → ks.Nodup ∧ ∀ k ∈ ks, k ∉ seen
  | [], _ => ⟨nodup_nil, nofun⟩
  | k :: ks, h => by
    unfold firstDuplicate at h
    split_ifs at h with hk
    obtain ⟨hnd, hseen⟩ := nodup_of_firstDuplicate h
    refine ⟨nodup_cons.mpr ⟨fun hmem => hseen k hmem mem_cons_self, hnd⟩, ?_⟩
    intro k' hk'
    rcases mem_cons.mp hk' with rfl | htail
    · exact hk
    · exact fun hs => hseen k' htail (mem_cons_of_mem _ hs)

/-- The most elements that one `jsonb` array or object holds; a larger one fails to be stored. -/
def jsonbMaxElements : ℕ := 268435455

def asI32 (n : ℕ) : ℤ := (BitVec.ofNat 32 n).toInt

lemma asI32_of_le {n : ℕ} (h : n ≤ jsonbMaxElements) : asI32 n = n := by
  unfold jsonbMaxElements at h
  rw [asI32, BitVec.toInt_eq_toNat_bmod, BitVec.toNat_ofNat, Int.bmod_def]
  split_ifs <;> omega

def fourteenDays : ℕ := 1209600

/-- The children re-run the workflow script, so its kind must be one that can be pushed again. -/
def checkKind (j : Job) (e : Execution) : Option Error :=
  match j.kind with
  | .script => if e.runnableId.isNone then some ⟨"WAC v2 Script job missing runnable_id"⟩ else none
  | .preview => none
  | .other name => some ⟨"WAC v2 unsupported job kind: " ++ name⟩

/-- The arguments of the workflow, stored at the first dispatch. -/
def seedInputArgs (j : Job) (cp : WacCheckpoint) : WacCheckpoint :=
  if cp.inputArgs.entries.isEmpty then { cp with inputArgs := j.args } else cp

/-- `WacOutput::Dispatch`: the checkpoint is saved and the parent suspended in one transaction,
before any child can be pulled. The children are pushed after it; that a push fails (then the
children are canceled, the pending steps cleared, and the job is unsuspended and ends with the
error) is left out. -/
def dispatch (j : Job) (e : Execution) (mode : Mode) (steps : List WacStepDispatch) (rows : Rows) :
    Except Error Rows :=
  if steps.isEmpty then
    .error ⟨"WAC v2 dispatch with no steps — this is a bug in the workflow SDK"⟩
  else match validateSourceHash (loadCheckpoint rows) e.currentHash with
  | .error err => .error err
  | .ok cp => match firstDuplicate [] (steps.map (·.key)) with
    | some k => .error
        ⟨"WAC v2 duplicate step key '" ++ k ++ "' — each task call must produce a unique key"⟩
    | none => match checkKind j e with
      | some err => .error err
      | none =>
        if jsonbMaxElements < steps.length then .error ⟨"Failed to save WAC checkpoint"⟩
        else
          let jobIds := (steps.map (·.key)).zip e.ids
          .ok
            { checkpoint := some
                (updateCheckpointForDispatch (seedInputArgs j cp) steps mode jobIds)
              queue := rows.queue.map fun _ =>
                { suspend := asI32 steps.length, suspendUntil := some (e.now + fourteenDays) } }

def approval (j : Job) (e : Execution) (key : String) (timeout : Option ℕ)
    (selfApprovalDisabled : Option Bool) (rows : Rows) : Except Error Rows :=
  if selfApprovalDisabled.getD false && !j.enterprise then
    .error ⟨"Disabling self-approval is an enterprise only feature"⟩
  else .ok
    { checkpoint := some
        { loadCheckpoint rows with
          pendingSteps := some { mode := .approval, keys := [key], jobIds := ∅ } }
      queue := rows.queue.map fun _ =>
        { suspend := 1, suspendUntil := some (e.now + timeout.getD 1800) } }

def sleep (e : Execution) (key : String) (seconds : ℕ) (rows : Rows) : Rows :=
  { checkpoint := some
      { loadCheckpoint rows with
        pendingSteps := some { mode := .sleep, keys := [key], jobIds := ∅ } }
    queue := rows.queue.map fun _ =>
      { suspend := 1, suspendUntil := some (e.now + max seconds 1) } }

/-- `handle_wac_v2_output`: the rows after the output of a run. A `complete` output completes the
job, an error is returned to the worker and nothing is written. -/
def handleWacV2Output (j : Job) (e : Execution) (out : WacOutput) (rows : Rows) :
    Except Error Rows :=
  match out with
  | .complete _ => .ok { rows with queue := none }
  | .dispatch mode steps => dispatch j e mode steps rows
  | .approval key timeout sad => approval j e key timeout sad rows
  | .sleep key seconds => .ok (sleep e key seconds rows)
  | .inlineCheckpoint key result =>
    (persistInlineCheckpointDelta (loadCheckpoint rows) e.currentHash key result).map fun cp =>
      { rows with checkpoint := some cp }

structure Dispatched (j : Job) (e : Execution) (mode : Mode) (steps : List WacStepDispatch)
    (rows rows' : Rows) : Prop where
  hash : ∃ cp, validateSourceHash (loadCheckpoint rows) e.currentHash = .ok cp ∧
    rows'.checkpoint = some (updateCheckpointForDispatch (seedInputArgs j cp) steps mode
      ((steps.map (·.key)).zip e.ids))
  queue : rows'.queue = rows.queue.map fun _ =>
    { suspend := steps.length, suspendUntil := some (e.now + fourteenDays) }
  keys : (steps.map (·.key)).Nodup
  nonempty : steps ≠ []

lemma dispatch_ok {j e mode steps rows rows'} (h : dispatch j e mode steps rows = .ok rows') :
    Dispatched j e mode steps rows rows' := by
  unfold dispatch at h
  by_cases hemp : steps.isEmpty = true
  · rw [if_pos hemp] at h
    cases h
  rw [if_neg hemp] at h
  cases hv : validateSourceHash (loadCheckpoint rows) e.currentHash with
  | error err => simp [hv] at h
  | ok cp =>
    cases hd : firstDuplicate [] (steps.map (·.key)) with
    | some k => simp [hv, hd] at h
    | none =>
      cases hk : checkKind j e with
      | some err => simp [hv, hd, hk] at h
      | none =>
        simp only [hv, hd, hk] at h
        by_cases hlen : jsonbMaxElements < steps.length
        · simp [if_pos hlen] at h
        · rw [if_neg hlen] at h
          cases h
          have hcast : asI32 steps.length = steps.length := asI32_of_le (Nat.le_of_not_lt hlen)
          refine ⟨⟨cp, hv, rfl⟩, by rw [hcast], (nodup_of_firstDuplicate hd).1, fun hnil => ?_⟩
          exact hemp (by rw [hnil]; rfl)

lemma sourceHash_seedInputArgs (j : Job) (cp : WacCheckpoint) :
    (seedInputArgs j cp).sourceHash = cp.sourceHash := by
  unfold seedInputArgs
  split_ifs <;> rfl

lemma completedSteps_seedInputArgs (j : Job) (cp : WacCheckpoint) :
    (seedInputArgs j cp).completedSteps = cp.completedSteps := by
  unfold seedInputArgs
  split_ifs <;> rfl

end Windmill.Wac.Checkpoint
