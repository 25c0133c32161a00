import Windmill.Flow.Ownership
import Windmill.Lib.Lookup

/-! # Whose results a flow sees

The flow jobs of a run, with the flows that they push. A flow that is not called as a step, and is
not an iteration of a parallel loop, shares the mapping `flow_leaf_jobs` of the flow that pushed it
(`flow_innermost_root_job`). `results.k` is looked up in the status of the flow
(`get_transform_context`) or in the mappings, from the one that the flow shares upwards
(`get_result_by_id_from_running_flow_inner`). The way up does not stop at a flow that was called, so
that it must find the entry before (`Stays`). -/

namespace Windmill.Flow.Scope

open Value Status Reads Completion Transform Push Places Resume Run Ownership Lib.Run List Option
open Lib.Lookup (mem_of_lookup)

structure FlowRow where
  value : FlowValue
  parentJob : Option Uuid
  flowInnermostRootJob : Option Uuid
  flowLeafJobs : List (String × JobResult)
  run : RunState
  seen : List FlowStatus
  /-- The flow that was called, whose definition the flow belongs to. -/
  call : Uuid
  iterations : List Uuid

/-- A lookup of `results.id`, made for a flow job. -/
structure Lookup where
  flow : Uuid
  id : String
  result : JobResult

/-- The flows, their callers and the lookups so far. -/
structure Forest where
  flows : Uuid → Option FlowRow
  /-- For which flow job and which module a job was pushed. -/
  origin : Uuid → Option (Uuid × String)
  lookups : List Lookup

def rootOf (flows : Uuid → Option FlowRow) (id : Uuid) : Uuid :=
  ((flows id).bind FlowRow.flowInnermostRootJob).getD id

/-! ### Lookups -/

inductive NotFound where
  | rootJob (parent : Uuid) (id : String)
  | flowResult (parent : Uuid) (id : String)

/-- `get_result_by_id_from_running_flow_inner`, for at most `fuel` mappings. -/
def getResultByIdFromRunningFlowInner (flows : Uuid → Option FlowRow) (nodeId : String) :
    ℕ → Uuid → Option (Except NotFound JobResult)
  | 0, _ => none
  | fuel + 1, flowId =>
    match flows (rootOf flows flowId) with
    | none => some (.error (.rootJob flowId nodeId))
    | some row =>
      match row.flowLeafJobs.lookup nodeId, row.parentJob with
      | some result, _ => some (.ok result)
      | none, some parent => getResultByIdFromRunningFlowInner flows nodeId fuel
          (rootOf flows parent)
      | none, none => some (.error (.flowResult flowId nodeId))

def stepsResult (flow : Uuid) (status : FlowStatus) (id : String) : Option JobResult :=
  (getTransformContext flow "" status).stepsResults.reverse.lookup id

/-! ### The steps -/

def pushedModule (value : FlowValue) (status : FlowStatus) : Option FlowModule :=
  flowModuleAt value (placeOf (Step.fromI32AndLen status.step value.modules.length))

def isCall (m : FlowModule) : Bool :=
  match m.value with
  | .flow => true
  | _ => false

def isParallelLoop (m : FlowModule) : Bool :=
  match m.value with
  | .forloopFlow _ _ _ _ parallel _ => parallel.getD false
  | _ => false

def innermostRootJob (flow : Uuid) (row : FlowRow) (m : FlowModule) : Option Uuid :=
  if isCall m || isParallelLoop m then none else some (row.flowInnermostRootJob.getD flow)

/-- The flow that a job runs, if it runs one; `load` has what is stored elsewhere. -/
def innerFlow (load : JobPayload → FlowValue) (payload : JobPayload) : Option FlowValue :=
  match payload with
  | .identity => none
  | .runnable leaf => if isCall leaf then some (load payload) else none
  | .flowNode _ _ => some (load payload)
  | .rawFlow value _ => some value

def childRow (flow : Uuid) (row : FlowRow) (m : FlowModule) (id : Uuid) (value : FlowValue) :
    FlowRow where
  value := value
  parentJob := some flow
  flowInnermostRootJob := innermostRootJob flow row m
  flowLeafJobs := []
  run := .start value
  seen := [.new value]
  call := if isCall m then id else row.call
  iterations := if isParallelLoop m then id :: row.iterations else row.iterations

def FlowRow.next (row : FlowRow) (run : RunState) : FlowRow :=
  { row with run := run, seen := row.seen ++ [run.db.status] }

variable (s : Forest)

def Forest.setFlow (flow : Uuid) (row : FlowRow) : Forest :=
  { s with flows := fun id => if id = flow then some row else s.flows id }

def Forest.fresh (jobs : List QueuedJob) : Bool :=
  decide (jobs.map QueuedJob.id).Nodup &&
    jobs.all fun job => (s.flows job.id).isNone && (s.origin job.id).isNone &&
    decide (job.id ≠ nilUuid)

def Forest.addJobs (flow : Uuid) (row : FlowRow) (m : FlowModule) (load : JobPayload → FlowValue)
    (jobs : List QueuedJob) : Forest :=
  { s with
    flows := fun id => match jobs.find? fun job => job.id == id with
      | some job => (innerFlow load job.payload).map (childRow flow row m id)
      | none => s.flows id
    origin := fun id => match jobs.find? fun job => job.id == id with
      | some job => some (flow, job.flowStepId)
      | none => s.origin id }

def leafEntry (w : World) (value : FlowValue) (old cur : FlowStatus) (r : Report) :
    Option (String × JobResult) :=
  match updateStatus w value old cur r with
  | .ok (.committed c) =>
    if isFailureStep old || old.moduleStep.isPreprocessorStep then none
    else c.transition.newStatus.bind fun m => (jobResult m).map fun result => (m.id, result)
  | _ => none

def Forest.setLeaf (root : Uuid) (entry : Option (String × JobResult)) : Forest :=
  match entry with
  | none => s
  | some e => { s with
      flows := fun id => if id = root then
          (s.flows id).map fun row => { row with flowLeafJobs := e :: row.flowLeafJobs }
        else s.flows id }

/-- What may happen to a tree of flows. -/
inductive Action where
  | start (id : Uuid) (value : FlowValue)
  | pull (flow : Uuid)
  | push (flow : Uuid) (w : World) (load : JobPayload → FlowValue)
  | report (flow : Uuid) (w : World) (n : ℕ) (r : Report)
  | again (flow : Uuid) (w : World) (n : ℕ)
  | request (flow : Uuid) (q : ResumeRequest) (info : FlowInfo)
  | stepsResult (flow : Uuid) (n : ℕ) (id : String)
  | resultById (flow : Uuid) (id : String) (fuel : ℕ)

def Forest.logged (flow : Uuid) (id : String) (result : JobResult) : Forest :=
  { s with lookups := ⟨flow, id, result⟩ :: s.lookups }

def Forest.handled (flow : Uuid) (row : FlowRow) (w : World) (old : FlowStatus) (r : Report)
    (run : RunState) : Forest :=
  (s.setFlow flow (row.next run)).setLeaf (row.flowInnermostRootJob.getD flow)
    (leafEntry w row.value old row.run.db.status r)

/-- One action, if it is possible. -/
def step : Action → Option Forest
  | .start id value =>
    if (s.flows id).isNone ∧ (s.origin id).isNone ∧ id ≠ nilUuid then
      some (s.setFlow id ⟨value, none, none, [], .start value, [.new value], id, []⟩)
    else none
  | .pull flow => (s.flows flow).bind fun row =>
    (runStep row.value row.run .pull).map fun run => s.setFlow flow (row.next run)
  | .push flow w load => (s.flows flow).bind fun row =>
    (runStep row.value row.run (.push w)).bind fun run =>
      let jobs := run.db.queued.drop row.run.db.queued.length
      match pushedModule row.value run.db.status with
      | some m => if s.fresh jobs
          then some ((s.addJobs flow row m load jobs).setFlow flow (row.next run)) else none
      | none => if jobs.isEmpty then some (s.setFlow flow (row.next run)) else none
  | .report flow w n r => (s.flows flow).bind fun row => row.seen[n]?.bind fun old =>
    (runStep row.value row.run (.report w old r)).map fun run => s.handled flow row w old r run
  | .again flow w n => (s.flows flow).bind fun row => row.seen[n]?.bind fun old =>
    match row.run.ctrl with
    | .retrying r _ => (runStep row.value row.run (.again w old)).map fun run =>
        s.handled flow row w old r run
    | _ => none
  | .request flow q info => (s.flows flow).bind fun row =>
    (runStep row.value row.run (.request q info)).map fun run => s.setFlow flow (row.next run)
  | .stepsResult flow n id => (s.flows flow).bind fun row => row.seen[n]?.bind fun status =>
    (stepsResult flow status id).map fun result => s.logged flow id result
  | .resultById flow id fuel => (s.flows flow).bind fun _ =>
    match getResultByIdFromRunningFlowInner s.flows id fuel flow with
    | some (.ok result) => some (s.logged flow id result)
    | _ => some s

def Forest.empty : Forest := ⟨fun _ => none, fun _ => none, []⟩

/-! ### The invariant -/

structure Kin (row row' : FlowRow) : Prop where
  value : row'.value = row.value
  parentJob : row'.parentJob = row.parentJob
  root : row'.flowInnermostRootJob = row.flowInnermostRootJob
  call : row'.call = row.call
  iterations : row'.iterations = row.iterations

structure Extends (s s' : Forest) : Prop where
  origin : ∀ {job x}, s.origin job = some x → s'.origin job = some x
  flows : ∀ {id row}, s.flows id = some row → ∃ row', s'.flows id = some row' ∧ Kin row row'

/-- The job was pushed for a module `id` by a flow that shares the mapping of `root`. -/
def Pushed (job root : Uuid) (id : String) : Prop :=
  ∃ G g, s.origin job = some (G, id) ∧ s.flows G = some g ∧ g.flowInnermostRootJob.getD G = root

/-- **The job is one of the flow's own definition**: it was pushed for a module `id` by a flow of
the same call, inside no iteration of a parallel loop that `flow` is not in. -/
def InScope (flow : Uuid) (id : String) (job : Uuid) : Prop :=
  ∃ f G g, s.flows flow = some f ∧ s.origin job = some (G, id) ∧ s.flows G = some g ∧
    g.call = f.call ∧ g.iterations <:+ f.iterations

/-- A lookup yields jobs of its scope only. -/
def Scoped (l : Lookup) : Prop := ∀ job ∈ jobsOf l.result, job = nilUuid ∨ InScope s l.flow l.id job

structure RowInv (s : Forest) (F : Uuid) (f : FlowRow) : Prop where
  handlers : LeafHandlers f.value
  current : f.run.db.status ∈ f.seen
  owned : ∀ status ∈ f.seen, Owned (fun job id => s.origin job = some (F, id)) f.value status
  root : ∃ r, s.flows (f.flowInnermostRootJob.getD F) = some r ∧ r.flowInnermostRootJob = none ∧
    r.call = f.call ∧ r.iterations = f.iterations
  leafs : ∀ e ∈ f.flowLeafJobs, ∀ job ∈ jobsOf e.2, job = nilUuid ∨ Pushed s job F e.1
  parent : ∀ P, f.parentJob = some P → f.call = F ∨
    ∃ p, s.flows P = some p ∧ p.call = f.call ∧ p.iterations <:+ f.iterations

structure Inv (s : Forest) : Prop where
  rows : ∀ {F f}, s.flows F = some f → RowInv s F f
  lookups : ∀ l ∈ s.lookups, Scoped s l

/-- The report is about the module that the handler finds under the step counter. -/
def OnTime (flow : Uuid) (n : ℕ) (r : Report) : Prop :=
  ∀ row old m, s.flows flow = some row → row.seen[n]? = some old → moduleStatus old = .ok m →
    r.jobIdForStatus = nilUuid ∨ s.origin r.jobIdForStatus = some (flow, m.id)

def Stays (flows : Uuid → Option FlowRow) (id : String) : ℕ → Uuid → Prop
  | 0, _ => True
  | fuel + 1, flow => ∀ row, flows (rootOf flows flow) = some row →
      row.flowLeafJobs.lookup id = none →
    ∀ parent, row.parentJob = some parent → row.call ≠ rootOf flows flow ∧
      Stays flows id fuel (rootOf flows parent)

def isWaitingForEvents : FlowStatusModule → Bool
  | .waitingForEvents _ _ _ => true
  | _ => false

def Meeting : Action → Prop
  | .start _ value => LeafHandlers value
  | .push flow w load => ∀ row run, s.flows flow = some row → runStep row.value row.run (.push w) =
      some run →
    ∀ job ∈ run.db.queued.drop row.run.db.queued.length, ∀ value, innerFlow load job.payload =
      some value → LeafHandlers value
  | .report flow _ n r => OnTime s flow n r
  | .again flow _ n => ∀ row r tries, s.flows flow = some row → row.run.ctrl = .retrying r tries →
    OnTime s flow n r
  | .stepsResult flow n id => ∀ row status, s.flows flow = some row → row.seen[n]? = some status →
    ∀ m ∈ status.modules, m.id = id → isWaitingForEvents m = false
  | .resultById flow id fuel => Stays s.flows id fuel flow
  | _ => True

variable {s s' : Forest} {F : Uuid} {f row : FlowRow}

lemma Kin.refl (row : FlowRow) : Kin row row := ⟨rfl, rfl, rfl, rfl, rfl⟩

variable {id : String} {w : World} {value : FlowValue} {r : Report} {n : ℕ} {job : QueuedJob}
  {result : JobResult}

lemma Pushed.extend {job root : Uuid} (h : Pushed s job root id) (hext : Extends s s') :
    Pushed s' job root id := by
  obtain ⟨G, g, horig, hg, hroot⟩ := h
  obtain ⟨g', hg', hkin⟩ := hext.flows hg
  exact ⟨G, g', hext.origin horig, hg', by rw [hkin.root, hroot]⟩

lemma Scoped.extend {l} (h : Scoped s l) (hext : Extends s s') : Scoped s' l := by
  refine fun job hjob => (h job hjob).imp_right fun ⟨f, G, g, hf, horig, hg, hcall, hiter⟩ => ?_
  obtain ⟨f', hf', hkin⟩ := hext.flows hf
  obtain ⟨g', hg', hkin'⟩ := hext.flows hg
  refine ⟨f', G, g', hf', hext.origin horig, hg', ?_, ?_⟩
  · rw [hkin.call, hkin'.call, hcall]
  · rw [hkin.iterations, hkin'.iterations]
    exact hiter

lemma RowInv.extend (h : RowInv s F f) (hext : Extends s s') : RowInv s' F f := by
  refine ⟨h.handlers, h.current, fun status hst => (h.owned status hst).mono fun _ _ =>
    hext.origin, ?_,
    fun e he job hjob => (h.leafs e he job hjob).imp_right fun hp => hp.extend hext, fun P hP => ?_⟩
  · obtain ⟨r, hr, hroot, hcall, hiter⟩ := h.root
    obtain ⟨r', hr', hkin⟩ := hext.flows hr
    exact ⟨r', hr', by rw [hkin.root, hroot], by rw [hkin.call, hcall], by
      rw [hkin.iterations, hiter]⟩
  · refine (h.parent P hP).imp_right fun ⟨p, hp, hcall, hiter⟩ => ?_
    obtain ⟨p', hp', hkin⟩ := hext.flows hp
    exact ⟨p', hp', by rw [hkin.call, hcall], by rw [hkin.iterations]; exact hiter⟩

/-- The invariant after a step that adds jobs and flows: what is to be shown of the rows that are
new or changed. -/
lemma Inv.extend (h : Inv s) (hext : Extends s s') (hlookups : ∀ l ∈ s'.lookups, l ∈ s.lookups)
    (hrows : ∀ {F f}, s'.flows F = some f → s.flows F = some f ∨ RowInv s' F f) : Inv s' :=
  ⟨fun hf => (hrows hf).elim (fun hold => (h.rows hold).extend hext) id,
    fun l hl => (h.lookups l (hlookups l hl)).extend hext⟩

/-! ### A flow runs on -/

lemma extends_setFlow (hF : s.flows F = some row) (hkin : Kin row f) :
    Extends s (s.setFlow F f) := by
  refine ⟨fun h => h, fun {id x} hx => ?_⟩
  by_cases hid : id = F
  · subst hid
    cases hF.symm.trans hx
    exact ⟨f, if_pos rfl, hkin⟩
  · exact ⟨x, (if_neg hid).trans hx, .refl x⟩

lemma RowInv.next {run} (h : RowInv s F row)
    (howned : Owned (fun job id => s.origin job = some (F, id)) row.value run.db.status) :
    RowInv s F (row.next run) := by
  refine ⟨h.handlers, mem_append_right _ (mem_singleton_self _), fun status hst => ?_, h.root,
    h.leafs, h.parent⟩
  rcases mem_append.mp hst with hold | hnew
  · exact h.owned status hold
  · cases mem_singleton.mp hnew
    exact howned

lemma Inv.next {run} (h : Inv s) (hF : s.flows F = some row)
    (howned : Owned (fun job id => s.origin job = some (F, id)) row.value run.db.status) :
    Inv (s.setFlow F (row.next run)) := by
  have hext : Extends s (s.setFlow F (row.next run)) := extends_setFlow hF ⟨rfl, rfl, rfl, rfl, rfl⟩
  refine h.extend hext (fun l hl => hl) fun {G g} hg => ?_
  by_cases hG : G = F
  · subst hG
    rw [show (s.setFlow G (row.next run)).flows G = some (row.next run) from if_pos rfl] at hg
    cases hg
    exact .inr (((h.rows hF).next howned).extend hext)
  · exact .inl ((if_neg hG).symm.trans hg)

/-! ### A report -/

lemma extends_setLeaf (s : Forest) (root : Uuid) (entry : Option (String × JobResult)) :
    Extends s (s.setLeaf root entry) := by
  cases entry with
  | none => exact ⟨fun h => h, fun {_ x} hx => ⟨x, hx, .refl x⟩⟩
  | some e =>
    refine ⟨fun h => h, fun {id x} hx => ?_⟩
    by_cases hid : id = root
    · refine ⟨{ x with flowLeafJobs := e :: x.flowLeafJobs }, ?_, rfl, rfl, rfl, rfl, rfl⟩
      exact (if_pos hid).trans (by rw [hx]; rfl)
    · exact ⟨x, (if_neg hid).trans hx, .refl x⟩

lemma Inv.setLeaf {root entry} (h : Inv s)
    (hent : ∀ e, entry = some e → ∀ job ∈ jobsOf e.2, job = nilUuid ∨ Pushed s job root e.1) :
    Inv (s.setLeaf root entry) := by
  have hext := extends_setLeaf s root entry
  cases entry with
  | none => exact h
  | some e =>
    refine h.extend hext (fun l hl => hl) fun {G g} hg => ?_
    by_cases hG : G = root
    · subst hG
      obtain ⟨x, hx, rfl⟩ := map_eq_some_iff.mp ((if_pos rfl).symm.trans hg)
      have hinv := (h.rows hx).extend hext
      refine .inr ⟨hinv.handlers, hinv.current, hinv.owned, hinv.root, fun e' he' job hjob => ?_,
        hinv.parent⟩
      rcases mem_cons.mp he' with rfl | he'
      · exact (hent e' rfl job hjob).imp_right fun hp => hp.extend hext
      · exact hinv.leafs e' he' job hjob
    · exact .inl ((if_neg hG).symm.trans hg)

/-- **A report adds an entry of the flow's own jobs to the mapping it shares.** -/
theorem Inv.handled {tries : ℕ} {old} (h : Inv s) (hF : s.flows F = some row)
    (hold : row.seen[n]? = some old) (htime : OnTime s F n r) :
    Inv (s.handled F row w old r (reported w row.value old r tries row.run)) := by
  have hrow := h.rows hF
  have hcur := hrow.owned _ hrow.current
  have howned := hrow.owned old (mem_of_getElem? hold)
  have ht := fun m => htime row old m hF hold
  have hnext : Inv (s.setFlow F (row.next (reported w row.value old r tries row.run))) :=
    h.next hF (hcur.handles howned (handleReport_handles w row.value old r tries row.run.db) ht)
  refine hnext.setLeaf fun e he job hjob => ?_
  unfold leafEntry at he
  split at he
  · rename_i c hup
    split_ifs at he
    obtain ⟨m, hm, he⟩ := bind_eq_some_iff.mp he
    obtain ⟨result, hres, rfl⟩ := map_eq_some_iff.mp he
    refine ((hcur.commit howned hup ht).2 m hm result hres job hjob).imp_right fun horig => ?_
    exact ⟨F, _, horig, if_pos rfl, rfl⟩
  · cases he

lemma inv_again (h : Inv s)
    (htime : ∀ row r tries, s.flows F = some row → row.run.ctrl = .retrying r tries →
    OnTime s F n r) (hs : step s (.again F w n) = some s') : Inv s' := by
  obtain ⟨row, hF, hs⟩ := bind_eq_some_iff.mp hs
  obtain ⟨old, hold, hs⟩ := bind_eq_some_iff.mp hs
  cases hctrl : row.run.ctrl with
  | retrying r tries =>
    rw [hctrl] at hs
    obtain ⟨run, hrun, rfl⟩ := map_eq_some_iff.mp hs
    cases runStep_steps hrun with
    | again hctrl' =>
      cases hctrl.symm.trans hctrl'
      exact h.handled hF hold (htime row r tries hF hctrl)
  | _ =>
    simp [hctrl] at hs

/-! ### A push -/

lemma inv_start {id : Uuid} (h : Inv s) (hleaf : LeafHandlers value)
    (hs : step s (.start id value) = some s') : Inv s' := by
  obtain ⟨⟨hnone, -, -⟩, heq⟩ := ite_none_right_eq_some.mp hs
  cases heq
  rw [isNone_iff_eq_none] at hnone
  have hext : Extends s (s.setFlow id ⟨value, none, none, [], .start value, [.new value], id,
      []⟩) := by
    refine ⟨fun hx => hx, fun {G g} hg => ⟨g, ?_, .refl g⟩⟩
    refine (if_neg fun hG => ?_).trans hg
    simp [hG, hnone] at hg
  refine h.extend hext (fun l hl => hl) fun {G g} hg => ?_
  by_cases hG : G = id
  · subst hG
    cases (if_pos rfl).symm.trans hg
    refine .inr ⟨hleaf, mem_singleton_self _, fun status hst => ?_, ⟨_, if_pos rfl, rfl, rfl, rfl⟩,
      nofun, nofun⟩
    cases mem_singleton.mp hst
    exact owned_new value
  · exact .inl ((if_neg hG).symm.trans hg)

section AddJobs

variable {m : FlowModule} {load : JobPayload → FlowValue} {jobs : List QueuedJob}

section

variable (h : s.fresh jobs = true)
include h

lemma fresh_of_mem (hjob : job ∈ jobs) : s.flows job.id = none ∧ s.origin job.id = none := by
  have hall := all_eq_true.mp (Bool.and_eq_true_iff.mp h).2 job hjob
  simp only [Bool.and_eq_true, isNone_iff_eq_none] at hall
  exact hall.1

lemma find_of_mem (hjob : job ∈ jobs) : jobs.find? (fun j => j.id == job.id) = some job := by
  have hnd : (jobs.map QueuedJob.id).Nodup := of_decide_eq_true (Bool.and_eq_true_iff.mp h).1
  cases hfind : jobs.find? (fun j => j.id == job.id) with
  | none =>
    have := find?_eq_none.mp hfind job hjob
    simp at this
  | some j =>
    have hid : j.id = job.id := by simpa using find?_some hfind
    rw [inj_on_of_nodup_map hnd (mem_of_find?_eq_some hfind) hjob hid]

lemma find_of_flow (hF : s.flows F = some row) : jobs.find? (fun j => j.id == F) = none := by
  refine find?_eq_none.mpr fun job hjob hid => ?_
  rw [← (beq_iff_eq.mp hid), (fresh_of_mem h hjob).1] at hF
  cases hF

lemma addJobs_flows {G g} (hG : s.flows G = some g) :
    (s.addJobs F row m load jobs).flows G = some g := by
  unfold Forest.addJobs
  dsimp only
  rw [find_of_flow h hG]
  exact hG

lemma extends_addJobs : Extends s (s.addJobs F row m load jobs) := by
  refine ⟨fun {job x} hx => ?_, fun {G g} hG => ⟨g, addJobs_flows h hG, .refl g⟩⟩
  unfold Forest.addJobs
  dsimp only
  cases hfind : jobs.find? (fun j => j.id == job) with
  | none => exact hx
  | some j =>
    have hid : j.id = job := by simpa using find?_some hfind
    rw [← hid, (fresh_of_mem h (mem_of_find?_eq_some hfind)).2] at hx
    cases hx

end

/-- **A flow that is pushed**: it shares the mapping of the flow that pushes it, or has one of its
own. -/
theorem rowInv_child {id : Uuid} (h : RowInv s F row) (hF : s.flows F = some row)
    (hid : s.flows id = some (childRow F row m id value)) (hleaf : LeafHandlers value) :
    RowInv s id (childRow F row m id value) := by
  refine ⟨hleaf, mem_singleton_self _, fun status hst => ?_, ?_, nofun,
    fun P hP => ?_⟩
  · cases mem_singleton.mp hst
    exact owned_new value
  · unfold childRow innermostRootJob
    cases hcall : isCall m with
    | true => exact ⟨_, hid, by simp [childRow, innermostRootJob, hcall], by
        simp [childRow, hcall], rfl⟩
    | false =>
      cases hloop : isParallelLoop m with
      | true => exact ⟨_, hid, by simp [childRow, innermostRootJob, hloop], by
          simp [childRow, hcall], by
          simp [childRow, hloop]⟩
      | false =>
        obtain ⟨r, hr, hroot, hrcall, hriter⟩ := h.root
        exact ⟨r, by simpa using hr, hroot, hrcall, hriter⟩
  · cases hP
    unfold childRow
    dsimp only
    cases hcall : isCall m with
    | true => exact .inl rfl
    | false =>
      refine .inr ⟨row, hF, rfl, ?_⟩
      split_ifs
      · exact suffix_cons id row.iterations
      · exact suffix_refl _

lemma Inv.addJobs (h : Inv s) (hF : s.flows F = some row) (hfresh : s.fresh jobs = true)
    (hleaf : ∀ job ∈ jobs, ∀ value, innerFlow load job.payload = some value → LeafHandlers value) :
    Inv (s.addJobs F row m load jobs) := by
  have hext := @extends_addJobs s F row m load jobs hfresh
  refine h.extend hext (fun l hl => hl) fun {G g} hG => ?_
  have hG' := hG
  unfold Forest.addJobs at hG'
  dsimp only at hG'
  cases hfind : jobs.find? (fun j => j.id == G) with
  | none =>
    rw [hfind] at hG'
    exact .inl hG'
  | some job =>
    rw [hfind] at hG'
    obtain ⟨value, hval, rfl⟩ := map_eq_some_iff.mp hG'
    exact .inr (rowInv_child ((h.rows hF).extend hext) (addJobs_flows hfresh hF) hG
      (hleaf job (mem_of_find?_eq_some hfind) value hval))

end AddJobs

lemma inv_push {load} (h : Inv s) (hleaf : Meeting s (.push F w load))
    (hs : step s (.push F w load) = some s') : Inv s' := by
  obtain ⟨row, hF, hs⟩ := bind_eq_some_iff.mp hs
  obtain ⟨run, hrun, hs⟩ := bind_eq_some_iff.mp hs
  have hrow := h.rows hF
  -- the status after the push names the new jobs, once their origin is known
  have howned : ∀ t, Inv t → t.flows F = some row →
      (∀ job ∈ run.db.queued.drop row.run.db.queued.length,
        t.origin job.id = some (F, job.flowStepId)) →
      Owned (fun job id => t.origin job = some (F, id)) row.value run.db.status := by
    intro t ht hF' hnew
    have hcur := (ht.rows hF').owned _ (ht.rows hF').current
    cases runStep_steps hrun with
    | push hctrl => exact hcur.pushes hrow.handlers (pushNextFlowJob_pushes _ _) hnew
  cases hm : pushedModule row.value run.db.status with
  | none =>
    rw [hm] at hs
    obtain ⟨hemp, heq⟩ := ite_none_right_eq_some.mp hs
    cases heq
    rw [List.isEmpty_iff] at hemp
    refine h.next hF (howned s h hF fun job hjob => ?_)
    simp [hemp] at hjob
  | some m =>
    rw [hm] at hs
    obtain ⟨hfresh, heq⟩ := ite_none_right_eq_some.mp hs
    cases heq
    have hadd := @Inv.addJobs s F row m load _ h hF hfresh (hleaf row run hF hrun)
    have hF' := @addJobs_flows s F row m load _ hfresh F row hF
    refine hadd.next hF' (howned _ hadd hF' fun job hjob => ?_)
    unfold Forest.addJobs
    dsimp only
    rw [find_of_mem hfresh hjob]

/-! ### Lookups -/

lemma Inv.logged (h : Inv s) (hscope : Scoped s ⟨F, id, result⟩) : Inv (s.logged F id result) := by
  have hext : Extends s (s.logged F id result) := ⟨fun hx => hx, fun {_ x} hx => ⟨x, hx, .refl x⟩⟩
  refine ⟨fun hf => (h.rows hf).extend hext, fun l hl => ?_⟩
  rcases mem_cons.mp hl with rfl | hl
  · exact hscope.extend hext
  · exact (h.lookups l hl).extend hext

/-- **What the status of a flow has for a module are jobs of the module.** -/
theorem stepsResult_scoped {status} (h : Inv s) (hF : s.flows F = some row)
    (hst : status ∈ row.seen) (hwaits : ∀ m ∈ status.modules, m.id = id → isWaitingForEvents m =
      false) (hres : stepsResult F status id = some result) : Scoped s ⟨F, id, result⟩ := by
  have hmem := mem_reverse.mp (mem_of_lookup hres)
  obtain ⟨m, hm, heq⟩ := mem_filterMap.mp hmem
  obtain ⟨r, hr, heq⟩ := map_eq_some_iff.mp heq
  cases heq
  obtain ⟨i, hi⟩ := getElem?_of_mem hm
  have howned := ((h.rows hF).owned status hst).jobs
    (show statusAt status (.module i) = some m from hi)
  intro job hjob
  have hjobs : job ∈ resultJobs m := by
    have hno := hwaits m hm rfl
    cases m with
    | waitingForEvents _ _ _ => cases hno
    | _ =>
      simp only [resultJobs, hr, map_some, getD_some]
      exact hjob
  exact (howned job hjobs).imp_right fun horig => ⟨row, F, row, hF, horig, hF, rfl, suffix_refl _⟩

/-- **What the mappings have for a module are jobs of the module**, if the lookup stays within the
call. -/
theorem resultById_scoped (h : Inv s) :
    ∀ {fuel : ℕ} {F} {row}, s.flows F = some row → Stays s.flows id fuel F →
      getResultByIdFromRunningFlowInner s.flows id fuel F = some (.ok result) →
      Scoped s ⟨F, id, result⟩
  | 0, _, _, _, _, hres => by cases hres
  | fuel + 1, F, row, hF, hstays, hres => by
    have hrow := h.rows hF
    obtain ⟨r, hr, -, hcall, hiter⟩ := hrow.root
    have hroot : rootOf s.flows F = row.flowInnermostRootJob.getD F := by
      unfold rootOf
      rw [hF]
      rfl
    rw [← hroot] at hr
    unfold getResultByIdFromRunningFlowInner at hres
    rw [hr] at hres
    dsimp only at hres
    cases hleaf : r.flowLeafJobs.lookup id with
    | some result' =>
      rw [hleaf] at hres
      cases hres
      intro job hjob
      refine ((h.rows hr).leafs _ (mem_of_lookup hleaf) job hjob).imp_right fun ⟨G, g, horig, hg,
        hGroot⟩ => ?_
      obtain ⟨r', hr', -, hcall', hiter'⟩ := (h.rows hg).root
      rw [hGroot] at hr'
      cases hr.symm.trans hr'
      exact ⟨row, G, g, hF, horig, hg, by rw [← hcall', hcall], by rw [← hiter', hiter]⟩
    | none =>
      rw [hleaf] at hres
      cases hparent : r.parentJob with
      | none =>
        simp [hparent] at hres
      | some P =>
        rw [hparent] at hres
        obtain ⟨hne, hstays'⟩ := hstays r hr hleaf P hparent
        obtain ⟨p, hp, hpcall, hpiter⟩ := ((h.rows hr).parent P hparent).resolve_left hne
        obtain ⟨q, hq, -, hqcall, hqiter⟩ := (h.rows hp).root
        have hProot : rootOf s.flows P = p.flowInnermostRootJob.getD P := by
          unfold rootOf
          rw [hp]
          rfl
        rw [← hProot] at hq
        have hscope := resultById_scoped h hq hstays' hres
        intro job hjob
        refine (hscope job hjob).imp_right fun ⟨q', G, g, hq', horig, hg, hgcall, hgiter⟩ => ?_
        cases hq.symm.trans hq'
        refine ⟨row, G, g, hF, horig, hg, ?_, ?_⟩
        · rw [hgcall, hqcall, hpcall, hcall]
        · rw [hqiter] at hgiter
          exact (hgiter.trans hpiter).trans (hiter ▸ suffix_refl _)

/-! ### Whole runs -/

lemma inv_step {a} (h : Inv s) (hmeet : Meeting s a) (hs : step s a = some s') : Inv s' := by
  cases a with
  | start id value => exact inv_start h hmeet hs
  | pull flow =>
    obtain ⟨row, hF, hs⟩ := bind_eq_some_iff.mp hs
    obtain ⟨run, hrun, rfl⟩ := map_eq_some_iff.mp hs
    cases runStep_steps hrun with
    | pull hctrl => exact h.next hF ((h.rows hF).owned _ (h.rows hF).current)
  | push flow w load => exact inv_push h hmeet hs
  | report flow w n r =>
    obtain ⟨row, hF, hs⟩ := bind_eq_some_iff.mp hs
    obtain ⟨old, hold, hs⟩ := bind_eq_some_iff.mp hs
    obtain ⟨run, hrun, rfl⟩ := map_eq_some_iff.mp hs
    cases runStep_steps hrun with
    | report hctrl => exact h.handled hF hold hmeet
  | again flow w n => exact inv_again h hmeet hs
  | request flow q info =>
    obtain ⟨row, hF, hs⟩ := bind_eq_some_iff.mp hs
    obtain ⟨run, hrun, rfl⟩ := map_eq_some_iff.mp hs
    cases runStep_steps hrun with
    | request hnew => exact h.next hF ((h.rows hF).owned _ (h.rows hF).current)
  | stepsResult flow n id =>
    obtain ⟨row, hF, hs⟩ := bind_eq_some_iff.mp hs
    obtain ⟨status, hst, hs⟩ := bind_eq_some_iff.mp hs
    obtain ⟨result, hres, rfl⟩ := map_eq_some_iff.mp hs
    exact h.logged (stepsResult_scoped h hF (mem_of_getElem? hst) (hmeet row status hF hst) hres)
  | resultById flow id fuel =>
    obtain ⟨row, hF, hs⟩ := bind_eq_some_iff.mp hs
    split at hs
    · rename_i result hres
      cases hs
      exact h.logged (resultById_scoped h hF hmeet hres)
    · cases hs
      exact h

/-- **A lookup of `results.k` yields jobs of the module `k` of the flow's own definition**, in every
run whose reports are on time: none of a parallel iteration that the flow is not in, none of its
caller if the lookup stays in the call. -/
theorem lookups_scoped {actions : List Action} (hmeets : Meets step Meeting actions .empty)
    (h : run step actions .empty = some s) : ∀ l ∈ s.lookups, Scoped s l :=
  (run_invariant inv_step ⟨fun hf => (by cases hf), fun _ hl => (by cases hl)⟩ hmeets h).lookups

def callingFlow : FlowValue where
  modules := [{ id := "a", value := .script }, { id := "b", value := .flow }]

def calledFlow : FlowValue where
  modules := [{ id := "c", value := .script }, { id := "a", value := .script }]

def drawing (id : Uuid) : World := { World.plain (.plain 1) with newUuid := fun _ => id }

def called : List Action :=
  [.start 1 callingFlow, .pull 1, .push 1 (drawing 11) fun _ => calledFlow,
   .report 1 (drawing 11) 2 { jobIdForStatus := 11, success := true, result := .null },
   .push 1 (drawing 12) fun _ => calledFlow]

theorem own_result_scoped : ∃ s, run step (called ++ [.resultById 1 "a" 2]) .empty = some s ∧
    s.lookups ≠ [] ∧
      ∀ l ∈ s.lookups, Scoped s l := by
  refine ⟨_, rfl, cons_ne_nil _ _, @lookups_scoped _ (called ++ [.resultById 1 "a" 2]) ?_ rfl⟩
  refine meets_cons (by rintro m (hm | hm) <;> cases hm) rfl
    (meets_cons trivial rfl (meets_cons ?_ rfl (meets_cons ?_ rfl
    (meets_cons ?_ rfl (meets_cons ?_ rfl trivial)))))
  · intro row run hrow hrun job hjob value hval
    cases hrow
    cases hrun
    rcases mem_singleton.mp hjob with rfl
    cases hval
  · intro row old m hrow hold hm
    cases hrow
    cases hold
    cases hm
    exact .inr rfl
  · intro row run hrow hrun job hjob value hval
    cases hrow
    cases hrun
    rcases mem_singleton.mp hjob with rfl
    cases hval
    rintro m (hm | hm) <;> cases hm
  · intro row hrow hleaf
    cases hrow
    cases hleaf

/-- The called flow looks up its module `a`, which has not run yet. -/
theorem calling_flow_result :
    ∃ s, run step (called ++ [.resultById 12 "a" 2]) .empty = some s ∧ ∃ l ∈ s.lookups,
    ¬Scoped s l := by
  refine ⟨_, rfl, _, mem_cons_self, fun h => ?_⟩
  rcases h 11 (by decide) with hnil | ⟨f, G, g, hf, horig, hg, hcall, -⟩
  · revert hnil
    decide
  · cases horig
    cases hf
    cases hg
    revert hcall
    decide

end Windmill.Flow.Scope
