import Windmill.Flow.Approval
import Windmill.Lib.Run

/-! # Approvals through the API

`resume_suspended_job_internal` (`windmill-api/src/jobs.rs`) handles an approval or a disapproval
that is addressed to a job. It reads the queue row and the status of the flow (`FlowInfo`), and in a
transaction of its own inserts a row into `resume_job` and updates the `suspend` counter of the
flow; other requests and the worker may act in between. -/

namespace Windmill.Flow.Resume

open Value Status Reads Flow.Suspend Push Approval Lib.Run List Option

/-- What the job of a request is: a step of a flow, a flow, or a workflow-as-code job that waits for
itself. -/
inductive Target where
  | step
  | flowLevel
  | wac
deriving DecidableEq

/-- A request to resume or cancel a flow. -/
structure ResumeRequest where
  jobId : Uuid
  resumeId : ℕ
  value : Json := .null
  approver : Option String := none
  approved : Bool
  target : Target := .step
  validSecret : Bool := true

variable (q : ResumeRequest)

def ResumeRequest.rowId : Uuid := q.jobId ^^^ BitVec.ofNat 128 q.resumeId

/-- `FlowInfo`: what a request reads of the flow. -/
structure FlowInfo where
  flowStatus : FlowStatus
  suspend : ℤ

def getFlowInfoForResume (db : FlowDb) : FlowInfo := ⟨db.status, db.suspend⟩

def ResumeRequest.row : ResumeRow := ⟨q.rowId, q.jobId, q.resumeId, q.value, q.approver, q.approved⟩

def insertResumeJob (rows : List ResumeRow) : List ResumeRow := rows ++ [q.row]

def waitsFor (status : FlowStatus) (job : Uuid) : Bool :=
  match status.currentStep with
  | some (.waitingForEvents _ _ b) => b == job
  | _ => false

variable (info : FlowInfo)

/-- `resume_immediately_if_relevant`: the counter that is written, computed from what was read. -/
def resumeImmediatelyIfRelevant (job : Uuid) : Option ℤ :=
  if 0 < info.suspend && waitsFor info.flowStatus job then some (info.suspend - 1) else none

def resumeImmediatelyForFlowLevel : Option ℤ :=
  if 0 < info.suspend then some (info.suspend - 1) else none

def newSuspend (suspend : ℤ) : ℤ :=
  if q.approved then
    match q.target with
    | .wac => if 0 < info.suspend then max (suspend - 1) 0 else suspend
    | .flowLevel => (resumeImmediatelyForFlowLevel info).getD suspend
    | .step => (resumeImmediatelyIfRelevant info q.jobId).getD suspend
  else 0

def alreadySent (rows : List ResumeRow) : Bool := rows.any fun r => r.id == q.rowId

/-- The writes of the transaction of a request that has read `info`. -/
def acceptRequest (db : FlowDb) : FlowDb :=
  { db with
    resumeJobs := insertResumeJob q db.resumeJobs
    suspend := newSuspend q info db.suspend }

/-- The transaction of a request that has read `info`. The row id is a primary key. -/
def commitRequest (db : FlowDb) : Except Error FlowDb :=
  if alreadySent q db.resumeJobs then .error ⟨"resume request already sent"⟩
  else .ok (acceptRequest q info db)

/-- `resume_suspended_job_internal`, from its read to its commit without interruption. -/
def resumeSuspendedJob (db : FlowDb) : Except Error FlowDb :=
  if q.validSecret then commitRequest q (getFlowInfoForResume db) db
  else .error ⟨"Invalid signature"⟩

/-- Requests handled one after the other; one that fails changes nothing. -/
def handleRequests (db : FlowDb) : List ResumeRequest → FlowDb
  | [] => db
  | q :: qs => match resumeSuspendedJob q db with
    | .ok db' => handleRequests db' qs
    | .error _ => handleRequests db qs

/-- The queue's condition for pulling a suspended flow. -/
def wakesUp (db : FlowDb) (timedOut : Bool) : Bool :=
  db.suspendUntil && (decide (db.suspend ≤ 0) || timedOut)

/-! ### Requests for other steps -/

/-- The requests that are accepted: their secret verifies and their id is not taken yet. -/
def accepted : List ResumeRow → List ResumeRequest → List ResumeRequest
  | _, [] => []
  | rows, q :: qs =>
    if q.validSecret && !alreadySent q rows then
      q :: accepted (insertResumeJob q rows) qs
    else accepted rows qs

variable {job : Uuid} {db : FlowDb} {flowEnv : Option Args} {lastResult : Json}

lemma resumeImmediatelyIfRelevant_waiting {status} {suspend : ℤ} (h : waitsFor status job = true) :
    resumeImmediatelyIfRelevant ⟨status, suspend⟩ job
      = if 0 < suspend then some (suspend - 1) else none := by
  simp [resumeImmediatelyIfRelevant, h]

variable {q : ResumeRequest}

lemma newSuspend_other (ht : q.target = .step) (h : waitsFor db.status q.jobId = false) :
    newSuspend q (getFlowInfoForResume db) db.suspend = if q.approved then db.suspend else 0 := by
  unfold newSuspend
  cases q.approved with
  | false => rfl
  | true =>
    rw [ht]
    have hn : resumeImmediatelyIfRelevant (getFlowInfoForResume db) q.jobId = none := by
      simp [resumeImmediatelyIfRelevant, getFlowInfoForResume, h]
    simp only [if_true, hn, getD_none]

lemma resumeSuspendedJob_ok (h : (q.validSecret && !alreadySent q db.resumeJobs) = true) :
    resumeSuspendedJob q db = .ok (acceptRequest q (getFlowInfoForResume db) db) := by
  simp only [Bool.and_eq_true, Bool.not_eq_true_eq_eq_false] at h
  simp only [resumeSuspendedJob, commitRequest, h.1, h.2, if_true, Bool.false_eq_true, if_false]

lemma resumeSuspendedJob_error (h : (q.validSecret && !alreadySent q db.resumeJobs) = false) :
    ∃ e, resumeSuspendedJob q db = .error e := by
  unfold resumeSuspendedJob commitRequest
  cases hv : q.validSecret with
  | false => exact ⟨_, rfl⟩
  | true =>
    rw [hv] at h
    simp only [Bool.true_and, Bool.not_eq_false_eq_eq_true] at h
    rw [h]
    exact ⟨_, rfl⟩

/-- The effect of requests for other steps on the row of the flow: the counter is kept until a
cancel is accepted. -/
lemma handleRequests_other : ∀ {qs db},
    (∀ q ∈ qs, q.target = .step ∧ waitsFor db.status q.jobId = false) →
    (handleRequests db qs).status = db.status ∧
      (handleRequests db qs).suspendUntil = db.suspendUntil ∧ (handleRequests db qs).suspend =
        if (accepted db.resumeJobs qs).all fun q => q.approved then db.suspend else 0
  | [], db, _ => ⟨rfl, rfl, rfl⟩
  | q :: qs, db, h => by
    obtain ⟨ht, hq⟩ := h q (by simp)
    have hrest : ∀ q' ∈ qs, q'.target = .step ∧ waitsFor db.status q'.jobId = false :=
      fun q' hq' => h q' (mem_cons_of_mem q hq')
    cases hacc : (q.validSecret && !alreadySent q db.resumeJobs) with
    | false =>
      obtain ⟨e, he⟩ := resumeSuspendedJob_error hacc
      simp only [handleRequests, he, accepted, hacc, Bool.false_eq_true, if_false]
      exact handleRequests_other hrest
    | true =>
      simp only [handleRequests, resumeSuspendedJob_ok hacc, accepted, hacc, if_true]
      obtain ⟨h1, h2, h3⟩ := @handleRequests_other qs
        (acceptRequest q (getFlowInfoForResume db) db) hrest
      refine ⟨h1, h2, h3.trans ?_⟩
      simp only [acceptRequest, newSuspend_other ht hq, all_cons]
      by_cases hap : q.approved = true <;> simp [hap]

/-- **Requests for other steps leave a parked flow alone exactly when** the flow was to be woken
anyway, or none of those accepted is a cancel. -/
theorem other_requests_keep_suspend_iff {db : FlowDb} {id : String} {count : ℕ} {b : Uuid}
    {qs : List ResumeRequest}
    (hparked : db.status.currentStep = some (.waitingForEvents id count b))
    (hother : ∀ q ∈ qs, q.target = .step ∧ q.jobId ≠ b) :
    ((handleRequests db qs).suspend = db.suspend ∧
        ∀ timedOut, wakesUp (handleRequests db qs) timedOut = wakesUp db timedOut) ↔
      db.suspend = 0 ∨ ∀ q ∈ accepted db.resumeJobs qs, q.approved = true := by
  have hwaits : ∀ q ∈ qs, q.target = .step ∧ waitsFor db.status q.jobId = false := by
    intro q hq
    obtain ⟨ht, hne⟩ := hother q hq
    refine ⟨ht, ?_⟩
    simp only [waitsFor, hparked, beq_eq_false_iff_ne]
    exact hne.symm
  obtain ⟨-, huntil, hsus⟩ := handleRequests_other hwaits
  have hwake : (handleRequests db qs).suspend = db.suspend →
      ∀ timedOut, wakesUp (handleRequests db qs) timedOut = wakesUp db timedOut := by
    intro h timedOut
    simp only [wakesUp, h, huntil]
  rw [and_iff_left_of_imp hwake, hsus]
  by_cases hall : ((accepted db.resumeJobs qs).all fun q => q.approved) = true
  · rw [if_pos hall]
    exact ⟨fun _ => .inr (all_eq_true.mp hall), fun _ => rfl⟩
  rw [if_neg hall]
  constructor
  · exact fun h => .inl h.symm
  · rintro (h | h)
    · exact h.symm
    · exact absurd (all_eq_true.mpr h) hall

def parkedFlow : FlowDb where
  status :=
    { step := 2
      modules := [.success ⟨"a", 5, none, none, none, none, [], [], false⟩,
        .success ⟨"b", 6, none, none, none, none, [], [], false⟩, .waitingForEvents "c" 2 6]
      failureModule := ⟨none, .waitingForPriorSteps "failure"⟩
      preprocessorModule := none
      retry := .default
      approvalConditions := none
      restartedFrom := none }
  suspend := 2
  suspendUntil := true
  resumeJobs := []
  iteratorData := none
  queued := []

theorem other_approval_keeps_suspend :
    ((handleRequests parkedFlow [{ jobId := 5, resumeId := 1, approved := true }]).suspend
        = parkedFlow.suspend ∧ ∀ timedOut,
          wakesUp (handleRequests parkedFlow [{ jobId := 5, resumeId := 1, approved := true }])
          timedOut
            = wakesUp parkedFlow timedOut) ↔
      parkedFlow.suspend = 0 ∨ ∀ q ∈ accepted parkedFlow.resumeJobs
        [{ jobId := 5, resumeId := 1, approved := true }], q.approved = true :=
  other_requests_keep_suspend_iff rfl (by simp)

/-- A cancel of the first step's approval wakes the flow that waits on its second step. -/
theorem other_cancel_wakes :
    (handleRequests parkedFlow [{ jobId := 5, resumeId := 1, approved := false }]).suspend
        ≠ parkedFlow.suspend ∧
      wakesUp (handleRequests parkedFlow [{ jobId := 5, resumeId := 1, approved := false }]) false
        = true ∧ wakesUp parkedFlow false = false := by
  decide

/-! ### Approvals around the park -/

section Interleaving

variable (w : World) (flow : FlowValue) (flowEnv : Option Args) (lastResult : Json)

def parkFlow (db : FlowDb) : Option FlowDb :=
  let step := Step.fromI32AndLen db.status.step flow.modules.length
  match suspendGate w flow flowEnv db.status (statusModuleAt step db.status) lastResult
      db.resumeJobs with
  | .ok (status, .park suspend) => some { db with status, suspend, suspendUntil := true }
  | _ => none

/-- The flow, and the requests that have read it and have not committed. -/
structure ApiState where
  db : FlowDb
  inFlight : List (ResumeRequest × FlowInfo)

/-- A transaction of the approval API or the worker. -/
inductive ApiStep where
  | read (q : ResumeRequest)
  | commit (k : ℕ)
  | park

/-- One statement of a transaction, if it is possible. -/
def apiStep (s : ApiState) : ApiStep → Option ApiState
  | .read q => if q.validSecret then some ⟨s.db, s.inFlight ++ [(q, getFlowInfoForResume s.db)]⟩
  else none
  | .commit k =>
    match s.inFlight[k]? with
    | none => none
    | some (q, info) => match commitRequest q info s.db with
      | .ok db => some ⟨db, s.inFlight.eraseIdx k⟩
      | .error _ => some ⟨s.db, s.inFlight.eraseIdx k⟩
  | .park => (parkFlow w flow flowEnv lastResult s.db).map fun db => ⟨db, s.inFlight⟩

end Interleaving

def stepApprovals (job : Uuid) (rows : List ResumeRow) : List ResumeRow :=
  rows.filter fun r => r.job == job && r.approved

/-- The counter of a flow that waits for the given job is the number of events still missing. -/
def Counted (job : Uuid) (db : FlowDb) : Prop :=
  ∀ id count, db.status.currentStep = some (.waitingForEvents id count job) →
    db.suspend = max ((count : ℤ) - (stepApprovals job db.resumeJobs).length) 0

def Approves (job : Uuid) (q : ResumeRequest) : Prop :=
  q.approved = true ∧ q.target = .step ∧ q.jobId = job

/-- A transaction acts on what the flow is at that moment: it would have written the same counter,
had it read the flow just now. -/
def Fresh (s : ApiState) : ApiStep → Prop
  | .commit k => ∀ q info, s.inFlight[k]? = some (q, info) →
    resumeImmediatelyIfRelevant info q.jobId
      = resumeImmediatelyIfRelevant (getFlowInfoForResume s.db) q.jobId
  | _ => True

/-- What holds in every state of a run: the counter is right, and the flow and the requests are as
assumed. -/
structure ApiInv (flowId job : Uuid) (s : ApiState) : Prop where
  counted : Counted job s.db
  inFlight : ∀ qi ∈ s.inFlight, Approves job qi.1
  rows : ∀ r ∈ s.db.resumeJobs, r.job ≠ flowId ∧ (r.job = job → r.approved = true)

lemma stepApprovals_insert (h : Approves job q) (rows : List ResumeRow) :
    (stepApprovals job (insertResumeJob q rows)).length = (stepApprovals job rows).length + 1 := by
  obtain ⟨hap, -, hjob⟩ := h
  simp [stepApprovals, insertResumeJob, ResumeRequest.row, hap, hjob]

lemma gateRows_eq_stepApprovals {flowId rows}
    (h : ∀ r ∈ rows, r.job ≠ flowId ∧ (r.job = job → r.approved = true)) :
    gateRows job flowId rows = stepApprovals job rows := by
  refine filter_congr fun r hr => ?_
  obtain ⟨hflow, happ⟩ := h r hr
  by_cases hj : r.job = job
  · simp [beq_iff_eq.mpr hj, happ hj]
  · simp [beq_eq_false_iff_ne.mpr hj, beq_eq_false_iff_ne.mpr hflow]

lemma counted_acceptRequest {info} (hq : Approves job q) (hcnt : Counted job db)
    (hfresh : resumeImmediatelyIfRelevant info q.jobId
      = resumeImmediatelyIfRelevant (getFlowInfoForResume db) q.jobId) :
      Counted job (acceptRequest q info db) := by
  intro id count hcur
  have hsus := hcnt id count hcur
  have hwaits : waitsFor db.status job = true := by
    simp only [waitsFor, show db.status.currentStep = _ from hcur, beq_self_eq_true]
  obtain ⟨hap, ht, hjob⟩ := hq
  rw [hjob] at hfresh
  simp only [acceptRequest, newSuspend, hap, ht, if_true, hjob, hfresh,
    stepApprovals_insert ⟨hap, ht, hjob⟩, getFlowInfoForResume,
    resumeImmediatelyIfRelevant_waiting hwaits]
  by_cases hpos : 0 < db.suspend
  · rw [if_pos hpos, getD_some]
    omega
  · rw [if_neg hpos, getD_none]
    omega

lemma counted_parkFlow {w flow db'} (hrows : ∀ r ∈ db.resumeJobs, r.job ≠ w.flowJob.id ∧
    (r.job = job → r.approved = true)) (h : parkFlow w flow flowEnv lastResult db = some db') :
    Counted job db' ∧ db'.resumeJobs = db.resumeJobs := by
  unfold parkFlow at h
  dsimp only at h
  split at h
  · rename_i status n hgate
    cases h
    refine ⟨fun id count hcur => ?_, rfl⟩
    obtain ⟨s, last, -, hstep, hdec⟩ := suspendGate_park hgate
    have hinj := some.inj (hstep.symm.trans hcur)
    obtain ⟨-, hcnt, rfl⟩ := FlowStatusModule.waitingForEvents.inj hinj
    obtain ⟨hn, hlt, -, -⟩ := gateDecision_park hdec
    rw [gateRows_eq_stepApprovals hrows] at hn hlt
    dsimp only
    omega
  · cases h

lemma apiInv_step {w flow s s' a} (hjob : job ≠ w.flowJob.id) (hI : ApiInv w.flowJob.id job s)
    (hC : Fresh s a ∧ ∀ q, a = .read q → Approves job q)
    (h : apiStep w flow flowEnv lastResult s a = some s') : ApiInv w.flowJob.id job s' := by
  cases a with
  | read q =>
    simp only [apiStep] at h
    split_ifs at h
    cases h
    refine ⟨hI.counted, fun qi hqi => ?_, hI.rows⟩
    rcases mem_append.mp hqi with hqi | hqi
    · exact hI.inFlight qi hqi
    · rw [mem_singleton.mp hqi]
      exact hC.2 q rfl
  | commit k =>
    simp only [apiStep] at h
    cases hk : s.inFlight[k]? with
    | none => simp [hk] at h
    | some qi =>
      obtain ⟨q, info⟩ := qi
      have hq : Approves job q := hI.inFlight (q, info) (mem_of_getElem? hk)
      have hrest : ∀ qi ∈ s.inFlight.eraseIdx k, Approves job qi.1 :=
        fun qi hqi => hI.inFlight qi (mem_of_mem_eraseIdx hqi)
      rw [hk] at h
      unfold commitRequest at h
      dsimp only at h
      cases hsent : alreadySent q s.db.resumeJobs with
      | true =>
        rw [hsent] at h
        cases h
        exact ⟨hI.counted, hrest, hI.rows⟩
      | false =>
        rw [hsent] at h
        cases h
        refine ⟨counted_acceptRequest hq hI.counted (hC.1 q info hk), hrest, fun r hr => ?_⟩
        rcases mem_append.mp hr with hr | hr
        · exact hI.rows r hr
        · rw [mem_singleton.mp hr]
          exact ⟨fun h => hjob (hq.2.2.symm.trans h), fun _ => hq.1⟩
  | park =>
    obtain ⟨db', hpark, rfl⟩ := map_eq_some_iff.mp h
    obtain ⟨hcnt, hrows⟩ := counted_parkFlow hI.rows hpark
    exact ⟨hcnt, hI.inFlight, fun r hr => hI.rows r (hrows ▸ hr)⟩

/-- **The counter of a parked flow agrees with its approvals** in every state that is reached by
approvals of the step and the park, in any order, as long as no transaction acts on a stale read. -/
theorem suspend_counts_approvals {w : World} {flow : FlowValue} {flowEnv : Option Args}
    {lastResult : Json} {job : Uuid} {db : FlowDb} {as : List ApiStep} {s : ApiState}
    (hjob : job ≠ w.flowJob.id) (hcounted : Counted job db)
    (hrows : ∀ r ∈ db.resumeJobs, r.job ≠ w.flowJob.id ∧ (r.job = job → r.approved = true))
    (hsteps : Meets (apiStep w flow flowEnv lastResult)
      (fun s a => Fresh s a ∧ ∀ q, a = .read q → Approves job q) as ⟨db, []⟩)
    (hrun : run (apiStep w flow flowEnv lastResult) as ⟨db, []⟩ = some s) :
    ∀ id count, s.db.status.currentStep = some (.waitingForEvents id count job) →
      s.db.suspend = max ((count : ℤ) - (stepApprovals job s.db.resumeJobs).length) 0 := by
  have hstart : ApiInv w.flowJob.id job ⟨db, []⟩ := ⟨hcounted, by simp, hrows⟩
  exact (run_invariant (apiInv_step hjob) hstart hsteps hrun).counted

def sequentialApprovals : List ApiStep :=
  [.park, .read { jobId := 5, resumeId := 1, approved := true }, .commit 0,
    .read { jobId := 5, resumeId := 2, approved := true }, .commit 0]

theorem suspend_counts_sequential_approvals : ∃ s,
    run (apiStep (.plain (.plain 1)) (gatedFlow 2) none .null) sequentialApprovals
    ⟨gatedDb 2, []⟩ = some s ∧
    ∀ id count, s.db.status.currentStep = some (.waitingForEvents id count 5) →
      s.db.suspend = max ((count : ℤ) - (stepApprovals 5 s.db.resumeJobs).length) 0 := by
  refine ⟨_, rfl, @suspend_counts_approvals (.plain (.plain 1)) (gatedFlow 2) none .null 5
    (gatedDb 2)
    sequentialApprovals _ (by decide) nofun (by simp [gatedDb]) ?_ rfl⟩
  have hread : ∀ (s : ApiState) (n : ℕ),
      Fresh s (.read { jobId := 5, resumeId := n, approved := true }) ∧
        ∀ q, ApiStep.read { jobId := 5, resumeId := n, approved := true } = .read q →
        Approves 5 q :=
    fun s n => ⟨trivial, fun q h => by cases h; exact ⟨rfl, rfl, rfl⟩⟩
  refine meets_cons ⟨trivial, nofun⟩ rfl (meets_cons (hread _ 1) rfl ?_)
  refine meets_cons ⟨fun q info h => by cases h; rfl, nofun⟩ rfl ?_
  refine meets_cons (hread _ 2) rfl ?_
  exact meets_cons ⟨fun q info h => by cases h; rfl, nofun⟩ rfl trivial

/-- Two approvals that both read the flow before either commits are counted as one, and an approval
that reads the flow before the park and commits after it is not counted at all. -/
theorem suspend_loses_approvals : (∃ s, run (apiStep (.plain (.plain 1)) (gatedFlow 2) none .null)
        [.park, .read { jobId := 5, resumeId := 1, approved := true },
          .read { jobId := 5, resumeId := 2, approved := true }, .commit 0, .commit 0]
        ⟨gatedDb 2, []⟩ = some s ∧ s.inFlight = [] ∧
      s.db.status.currentStep = some (.waitingForEvents "b" 2 5) ∧
      (stepApprovals 5 s.db.resumeJobs).length = 2 ∧ s.db.suspend = 1) ∧
    (∃ s, run (apiStep (.plain (.plain 1)) (gatedFlow 2) none .null)
        [.read { jobId := 5, resumeId := 1, approved := true }, .park, .commit 0]
        ⟨gatedDb 2, []⟩ = some s ∧ s.inFlight = [] ∧
      s.db.status.currentStep = some (.waitingForEvents "b" 2 5) ∧
      (stepApprovals 5 s.db.resumeJobs).length = 1 ∧ s.db.suspend = 2) :=
  ⟨⟨_, rfl, rfl, rfl, rfl, rfl⟩, ⟨_, rfl, rfl, rfl, rfl, rfl⟩⟩

end Windmill.Flow.Resume
