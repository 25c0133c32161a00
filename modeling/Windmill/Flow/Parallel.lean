import Windmill.Flow.Chain
import Windmill.Lib.Run

/-! # Parallel modules: counted by their children, joined once

A parallel for-loop or branch-all pushes all its children at once (`parallel_pushed`). The handler
of each child reads the status of the flow and then counts the child in one transaction on the
stored status; the child that brings the counter to the number of children makes the transition of
the module. `parallelStep` interleaves the children, their handlers and the releases of held-back
children. -/

namespace Windmill.Flow.Parallel

open Value Status Reads Completion Lib.Except Lib.Positions List

/-! ### Counting the children -/

def reportedSuccess (reports : List Report) (job : Uuid) : Option Bool :=
  (reports.find? fun r => r.jobIdForStatus == job).map Report.success

variable {p : InProgress} {reports : List Report} {n : ℕ}

lemma reportedSuccess_append {r} (h : ∀ r' ∈ reports, r'.jobIdForStatus ≠ r.jobIdForStatus) :
    reportedSuccess (reports ++ [r])
      = Function.update (reportedSuccess reports) r.jobIdForStatus (some r.success) := by
  funext job
  unfold reportedSuccess
  by_cases hj : job = r.jobIdForStatus
  · subst hj
    have hnone : reports.find? (fun r' => r'.jobIdForStatus == r.jobIdForStatus) = none :=
      find?_eq_none.mpr fun r' hr' => by simpa using h r' hr'
    simp [hnone]
  · rw [Function.update_of_ne hj]
    simp [beq_eq_false_iff_ne.mpr (Ne.symm hj)]

lemma reportedSuccess_mem {job : Uuid} (h : job ∈ reports.map Report.jobIdForStatus) :
    ∃ r ∈ reports, r.jobIdForStatus = job ∧ reportedSuccess reports job = some r.success := by
  obtain ⟨r, hr, hjob⟩ := mem_map.mp h
  cases hf : reports.find? fun r => r.jobIdForStatus == job with
  | none =>
    have := find?_eq_none.mp hf r hr
    simp [hjob] at this
  | some r' =>
    refine ⟨r', mem_of_find?_eq_some hf, ?_, by simp [reportedSuccess, hf]⟩
    simpa using find?_some hf

def counterValue (p : InProgress) : Counter → Option ℕ
  | .iterator => p.iterator.map FlowIterator.index
  | .branchall => p.branchall.map BranchAllStatus.branch

/-- The status of a parallel module with the given children, of which some have been reported. -/
structure Counts (jobs : List Uuid) (counter : Counter) (reports : List Report) (p : InProgress) :
    Prop where
  parallel : p.parallel = true
  flowJobs : p.flowJobs = some jobs
  counting : parallelCounter p = .ok (counter, jobs.length)
  kind : counter = .iterator → p.branchall = none
  count : counterValue p counter = some reports.length
  success : p.flowJobsSuccess = some (jobs.map (reportedSuccess reports))

lemma parallelCounter_iterator :
    parallelCounter p = .ok (.iterator, n) ↔ ∃ it, p.iterator = some it ∧ it.len = n := by
  unfold parallelCounter
  cases p.iterator with
  | none => cases p.branchall <;> simp
  | some it => simp

lemma parallelCounter_branchall : parallelCounter p = .ok (.branchall, n) ↔
      p.iterator = none ∧ ∃ b, p.branchall = some b ∧ b.len = n := by
  unfold parallelCounter
  cases p.iterator with
  | none => cases p.branchall <;> simp
  | some it => simp

section Children

variable {jobs : List Uuid} {counter : Counter} {reports : List Report} {r : Report}
  {p : InProgress} {m : FlowModule}

lemma counts_bump (hp : Counts jobs counter reports p) (hjobs : jobs.Nodup)
    (hr : r.jobIdForStatus ∈ jobs) (hnew : ∀ r' ∈ reports, r'.jobIdForStatus ≠ r.jobIdForStatus) :
    ∃ p', bumpCounter (recordChild p (findFlowJobIndex jobs r.jobIdForStatus) r.success
        r.flowJobDuration) counter = some (p', reports.length + 1) ∧ Counts jobs counter
        (reports ++ [r]) p' := by
  obtain ⟨k, hk, hget⟩ := findIdx?_of_mem hr
  have hlt : k < (jobs.map (reportedSuccess reports)).length := by
    rw [length_map]
    exact (List.getElem?_eq_some_iff.mp hget).1
  have hwr : jsonbSetArr (jobs.map (reportedSuccess reports)) (k : ℤ) (some r.success)
      = jobs.map (reportedSuccess (reports ++ [r])) := by
    rw [jsonbSetArr_natCast hlt, map_set_of_nodup hjobs hget, reportedSuccess_append hnew]
  have hcnt := hp.count
  have hrec : recordChild p (findFlowJobIndex jobs r.jobIdForStatus) r.success r.flowJobDuration
      = { p with
          flowJobsSuccess := some (jobs.map (reportedSuccess (reports ++ [r])))
          flowJobsDuration := p.flowJobsDuration.map fun d => d.jsonbSet k r.flowJobDuration } := by
    unfold findFlowJobIndex
    rw [hk]
    simp only [recordChild, hp.success, Option.map_some, hwr]
  rw [hrec]
  cases counter with
  | iterator =>
    obtain ⟨it, hit, hlen⟩ := parallelCounter_iterator.mp hp.counting
    simp only [counterValue, hit, Option.map_some, Option.some.injEq] at hcnt
    refine ⟨_, by simp only [bumpCounter, hit, Option.map_some, hcnt]; rfl, ?_⟩
    exact ⟨hp.parallel, hp.flowJobs, parallelCounter_iterator.mpr ⟨_, rfl, hlen⟩,
      hp.kind, by simp [counterValue], rfl⟩
  | branchall =>
    obtain ⟨hit, b, hb, hlen⟩ := parallelCounter_branchall.mp hp.counting
    simp only [counterValue, hb, Option.map_some, Option.some.injEq] at hcnt
    refine ⟨_, by simp only [bumpCounter, hb, Option.map_some, hcnt]; rfl, ?_⟩
    exact ⟨hp.parallel, hp.flowJobs, parallelCounter_branchall.mpr ⟨hit, _, rfl, hlen⟩,
      (fun h => by cases h), by simp [counterValue], rfl⟩

/-- The flow is at its step `i`, a parallel module of which some children have been reported. -/
structure AtModule (i : ℕ) (jobs : List Uuid) (counter : Counter) (reports : List Report)
    (status : FlowStatus) : Prop where
  step : status.step = i
  module : ∃ p, status.modules[i]? = some (.inProgress p) ∧ Counts jobs counter reports p

variable {w : World} {flow : FlowValue} {old cur : FlowStatus} {i : ℕ} {before : List Report}
  {early : EarlyStop}

lemma bumpParallel_atModule (hcur : AtModule i jobs counter reports cur)
    (hjobs : jobs.Nodup) (hr : r.jobIdForStatus ∈ jobs)
    (hnew : ∀ r' ∈ reports, r'.jobIdForStatus ≠ r.jobIdForStatus) :
    ∃ stored, bumpParallel cur i counter (findFlowJobIndex jobs r.jobIdForStatus) r.success
        r.flowJobDuration = .ok (stored, reports.length + 1) ∧ AtModule i jobs counter
        (reports ++ [r]) stored := by
  obtain ⟨p, hp, hcnt⟩ := hcur.module
  obtain ⟨p', hbump, hcnt'⟩ := counts_bump hcnt hjobs hr hnew
  refine ⟨_, by simp only [bumpParallel, moduleAt_natCast, hp, hbump]; rfl, ?_, p', ?_, hcnt'⟩
  · rw [FlowStatus.modifyModule_step, hcur.step]
  · simp [FlowStatus.modifyModule, FlowStatus.moduleIndex_natCast, hp]

/-! ### The handler of a child -/

lemma AtModule.moduleStep {status} (h : AtModule i jobs counter reports status) :
    status.moduleStep = .step i status.modules.length := by
  obtain ⟨p, hp, -⟩ := h.module
  unfold FlowStatus.moduleStep
  rw [h.step]
  exact fromI32AndLen_natCast (List.getElem?_eq_some_iff.mp hp).1

lemma earlyStop_parallel (hp : Counts jobs counter reports p) (r : Report) :
    ∃ e, earlyStop w flow old (.inProgress p) r = .ok e ∧ e.stopEarly = false ∧
    e.errMsg = none := by
  have hpar : ∀ m, (loopInfo m (.inProgress p)).parallelLoop = true ∨
      (isParallelBranchall (.inProgress p) = true ∧ isBranchAll (.inProgress p) = true) := by
    intro m
    cases counter with
    | iterator =>
      obtain ⟨it, hit, -⟩ := parallelCounter_iterator.mp hp.counting
      exact .inl (by simp [loopInfo, hit, hp.parallel])
    | branchall =>
      obtain ⟨-, b, hb, -⟩ := parallelCounter_branchall.mp hp.counting
      exact .inr (by simp [isParallelBranchall, isBranchAll, hb, hp.parallel])
  have hno : ∀ m, (r.stopEarlyOverride.isSome && !((m.map FlowModule.isFlow).getD false)
      && !(loopInfo m (.inProgress p)).parallelLoop && !isParallelBranchall (.inProgress p))
        = false := by
    intro m
    rcases hpar m with h | ⟨h, -⟩ <;> simp [h]
  unfold earlyStop
  dsimp only
  rw [hno]
  by_cases hstep : (isFailureStep old || old.moduleStep.isPreprocessorStep) = true
  · rw [if_pos hstep]
    exact ⟨_, rfl, rfl, rfl⟩
  rw [if_neg hstep]
  cases hm : currentModule flow old with
  | none => exact ⟨_, rfl, rfl, rfl⟩
  | some m =>
    have hchk : (r.success && !isBranchAll (.inProgress p)
        && !(loopInfo (some m) (.inProgress p)).parallelLoop
        && !(m.skipIf.isSome && w.isIdentityJob r.jobIdForStatus)) = false := by
      rcases hpar (some m) with h | ⟨-, h⟩ <;> simp [h]
    dsimp only
    rw [hchk]
    exact ⟨_, rfl, rfl, rfl⟩

lemma updateStatus_parallel (hold : AtModule i jobs counter before old)
    (hcur : AtModule i jobs counter reports cur) (hjobs : jobs.Nodup)
    (hr : r.jobIdForStatus ∈ jobs) (hnew : ∀ r' ∈ reports, r'.jobIdForStatus ≠ r.jobIdForStatus) :
    ∃ p early stored, Counts jobs counter before p ∧
      early.stopEarly = false ∧ early.errMsg = none ∧ AtModule i jobs counter
      (reports ++ [r]) stored ∧
      updateStatus w flow old cur r = if reports.length + 1 = jobs.length then do
          let t := parallelJoin w flow old p jobs (enteringReport flow old r) early stored
          let nresult ← stepResult w (enteringReport flow old r) t.early t.nresult
            (t.newStatus.bind FlowStatusModule.flowJobs)
          return .committed ⟨commitTransition old t, t, nresult⟩
        else .ok (.nonLastParallelBranch stored
          (if (loopInfo (currentModule flow old) (.inProgress p)).parallelism.isSome then
            some (reports.length + 1) else none)) := by
  obtain ⟨p, hp, hcnt⟩ := hold.module
  obtain ⟨early, hearly, hstop, hmsg⟩ :=
    @earlyStop_parallel jobs counter before p w flow old hcnt (enteringReport flow old r)
  obtain ⟨stored, hbump, hstored⟩ := bumpParallel_atModule hcur hjobs hr hnew
  have hst : moduleStatus old = .ok (.inProgress p) := by
    simp only [moduleStatus, hold.moduleStep, hp]
  have hpos : recordPosition p.flowJobsSuccess jobs r.jobIdForStatus
      = findFlowJobIndex jobs r.jobIdForStatus := by
    simp only [recordPosition, hcnt.success, Option.isSome_some, if_true]
  refine ⟨p, early, stored, hcnt, hstop, hmsg, hstored, ?_⟩
  unfold updateStatus
  simp only [hst, hearly, Except.bind, bind, moduleTransition, stepCase, hcnt.parallel,
    hcnt.flowJobs, parallelCase, hcnt.counting, hold.step, enteringReport_jobIdForStatus,
    enteringReport_success, enteringReport_flowJobDuration, hpos, hbump]
  split_ifs <;> rfl

/-! ### The join -/

def loopSkipsFailures (m : FlowModule) : Bool :=
  match m.value with
  | .forloopFlow _ _ _ skipFailures _ _ => skipFailures.getD false
  | _ => false

def childSkipsFailure (m : FlowModule) (k : ℕ) : Bool :=
  match m.value with
  | .branchAll branches _ => ((branches[k]?).bind Branch.skipFailure).getD false
  | _ => false

/-- Every child that is not marked `skip_failure` is recorded as success or skipped. -/
def ChildrenOk (m : FlowModule) (jobs : List Uuid)
    (completed : Uuid → Option CompletedJob) : Prop :=
  ∀ k job, jobs[k]? = some job → childSkipsFailure m k = false →
    ∃ row, completed job = some row ∧ row.status.isSuccessOrSkipped = true

/-- The module is a parallel loop, or a parallel branch-all of `n` branches. -/
inductive ParallelModule (n : ℕ) (m : FlowModule) : Counter → Prop
  | loop {iterator : InputTransform} {modules : List FlowModule} {node : Option FlowNodeId}
      {skip : Option Bool} {parallelism : Option InputTransform}
      (hvalue : m.value = .forloopFlow iterator modules node skip (some true) parallelism) :
      ParallelModule n m .iterator
  | branches {branches : List Branch} {parallel : Option Bool}
      (hvalue : m.value = .branchAll branches parallel) (hlen : branches.length = n) :
      ParallelModule n m .branchall

section

variable (hm : ParallelModule jobs.length m counter)
include hm

lemma mem_jobsFiltered {job : Uuid} (hp : Counts jobs counter reports p) :
    job ∈ jobsFiltered (some m) p.branchall jobs ↔ ∃ k, jobs[k]? = some job ∧
    childSkipsFailure m k = false := by
  cases hm with
  | loop hvalue =>
    rw [hp.kind rfl]
    simp only [jobsFiltered, childSkipsFailure, hvalue, and_true]
    exact mem_iff_getElem?
  | @branches branches parallel hvalue hlen =>
    obtain ⟨-, b, hb, -⟩ := parallelCounter_branchall.mp hp.counting
    simp only [jobsFiltered, hb, Option.bind_some, FlowModule.getBranchesSkipFailures, hvalue,
      Except.toOption, mem_filterMap, childSkipsFailure]
    constructor
    · rintro ⟨⟨skip, job'⟩, hmem, hskip⟩
      split_ifs at hskip with h
      cases hskip
      obtain ⟨k, hk⟩ := mem_iff_getElem?.mp hmem
      obtain ⟨h1, h2⟩ := getElem?_zip_eq_some.mp hk
      refine ⟨k, h2, ?_⟩
      rw [getElem?_map] at h1
      obtain ⟨branch, hbr, hs⟩ := Option.map_eq_some_iff.mp h1
      rw [hbr, Option.bind_some, hs]
      simpa using h
    · rintro ⟨k, hk, hskip⟩
      have hlt : k < branches.length := by
        rw [hlen]
        exact (List.getElem?_eq_some_iff.mp hk).1
      refine ⟨(false, job), mem_iff_getElem?.mpr ⟨k, getElem?_zip_eq_some.mpr ⟨?_, hk⟩⟩, by simp⟩
      rw [getElem?_eq_getElem hlt, Option.bind_some] at hskip
      rw [getElem?_map, getElem?_eq_getElem hlt, Option.map_some, hskip]

lemma allCompletedOk_iff {w : World}
    (hp : Counts jobs counter reports p) (hrows : ∀ job ∈ jobs, (w.completed job).isSome = true) :
    allCompletedOk w (jobsFiltered (some m) p.branchall jobs) = true ↔
    ChildrenOk m jobs w.completed := by
  unfold allCompletedOk ChildrenOk
  rw [all_eq_true]
  constructor
  · intro hall k job hk hskip
    obtain ⟨row, hrow⟩ := Option.isSome_iff_exists.mp (hrows job (mem_of_getElem? hk))
    have := hall job ((mem_jobsFiltered hm hp).mpr ⟨k, hk, hskip⟩)
    rw [hrow] at this
    exact ⟨row, hrow, this⟩
  · intro hok job hmem
    obtain ⟨k, hk, hskip⟩ := (mem_jobsFiltered hm hp).mp hmem
    obtain ⟨row, hrow, hgood⟩ := hok k job hk hskip
    rw [hrow]
    exact hgood

lemma loopInfo_eq (hp : Counts jobs counter reports p) :
    (loopInfo (some m) (.inProgress p)).skipLoopFailures = loopSkipsFailures m ∧
      (loopInfo (some m) (.inProgress p)).parallelism = m.forloopParallelism := by
  cases hm with
  | loop hvalue =>
    obtain ⟨it, hit, -⟩ := parallelCounter_iterator.mp hp.counting
    simp [loopInfo, hit, FlowModule.getValueWithSkipFailures, hvalue, loopSkipsFailures,
      FlowModule.forloopParallelism, Except.toOption]
  | branches hvalue hlen =>
    obtain ⟨hit, -⟩ := parallelCounter_branchall.mp hp.counting
    simp [loopInfo, hit, loopSkipsFailures, FlowModule.forloopParallelism, hvalue]

end

lemma recordSuccess_self (hjobs : jobs.Nodup) (hr : r.jobIdForStatus ∈ jobs)
    (hsucc : reportedSuccess reports r.jobIdForStatus = some r.success) :
    recordSuccess (some (jobs.map (reportedSuccess reports))) jobs r.jobIdForStatus r.success
      = some (jobs.map (reportedSuccess reports)) := by
  obtain ⟨k, hk, hget⟩ := findIdx?_of_mem hr
  have hset : (jobs.map (reportedSuccess reports)).set k (some r.success)
      = jobs.map (reportedSuccess reports) := by
    rw [map_set_of_nodup hjobs hget, ← hsucc, Function.update_eq_self]
  unfold recordSuccess findFlowJobIndex
  rw [hk]
  simp only [Option.map_some, hset, ite_self]

/-- The final status of a parallel module whose children have all been reported. -/
structure FinalStatus (m : FlowModule) (jobs : List Uuid) (completed : Uuid → Option CompletedJob)
    (reports : List Report) (t : Transition) (final : FlowStatusModule) : Prop where
  written : t.newStatus = some final
  ended : final.isSuccess = true ∨ final.isFailure = true
  flowJobs : final.flowJobs = some jobs
  successes : final.flowJobsSuccess = some (jobs.map (reportedSuccess reports))
  success_iff : final.isSuccess = true ↔
    t.early.isError = false ∧ (loopSkipsFailures m = true ∨ ChildrenOk m jobs completed)

lemma parallelJoin_final {stored} (hmod : currentModule flow old = some m)
    (hm : ParallelModule jobs.length m counter) (hold : old.step = i)
    (hp : Counts jobs counter before p) (hstored : AtModule i jobs counter reports stored)
    (hjobs : jobs.Nodup) (hr : r.jobIdForStatus ∈ jobs)
    (hsucc : reportedSuccess reports r.jobIdForStatus = some r.success)
    (hrows : ∀ job ∈ jobs, (w.completed job).isSome = true) :
    ∃ final, FinalStatus m jobs w.completed reports
      (parallelJoin w flow old p jobs r early stored) final := by
  obtain ⟨q, hq, hcnt⟩ := hstored.module
  have hread : moduleAt stored old.step = some (.inProgress q) := by rw [hold, moduleAt_natCast, hq]
  have hrec : recordSuccess ((some (FlowStatusModule.inProgress q)).bind
      FlowStatusModule.flowJobsSuccess) jobs r.jobIdForStatus r.success
        = some (jobs.map (reportedSuccess reports)) := by
    simp only [Option.bind_some, FlowStatusModule.flowJobsSuccess, hcnt.success,
      recordSuccess_self hjobs hr hsucc]
  unfold parallelJoin
  simp only [hread, hrec, hmod, (loopInfo_eq hm hp).1]
  by_cases hok : (!(stopAfterAllIters w (some m) old (.inProgress p) early).1.isError &&
      (loopSkipsFailures m || allCompletedOk w (jobsFiltered (some m) p.branchall jobs))) = true
  · refine ⟨_, by simp only [hok, if_true]; rfl, .inl rfl, rfl, rfl, fun _ => ?_, fun _ => rfl⟩
    simpa [allCompletedOk_iff hm hp hrows] using hok
  · refine ⟨_, by simp only [hok]; rfl, .inr rfl, rfl, rfl, fun h => ?_, fun h => ?_⟩
    · cases h
    · refine absurd ?_ hok
      simpa [allCompletedOk_iff hm hp hrows] using h

lemma stepResult_isOk {nresult} (hrows : ∀ job ∈ jobs, (w.completed job).isSome = true) :
    ∃ v, stepResult w r early nresult (some jobs) = .ok v := by
  obtain ⟨rs, hrs⟩ := jobResults_ok hrows
  unfold stepResult
  split
  · exact ⟨_, rfl⟩
  · cases nresult with
    | some n => exact ⟨n, rfl⟩
    | none => exact ⟨.arr rs, by simp only [retrieveFlowJobsResults, hrs]; rfl⟩

section Handler

lemma AtModule.currentModule (h : AtModule i jobs counter before old)
    (hflow : flow.modules[i]? = some m) : currentModule flow old = some m := by
  simp only [Completion.currentModule, h.moduleStep, hflow]

variable (hold : AtModule i jobs counter before old) (hcur : AtModule i jobs counter reports cur)
  (hflow : flow.modules[i]? = some m) (hm : ParallelModule jobs.length m counter)
  (hjobs : jobs.Nodup)
  (hr : r.jobIdForStatus ∈ jobs) (hnew : ∀ r' ∈ reports, r'.jobIdForStatus ≠ r.jobIdForStatus)

include hold hcur hflow hm hjobs hr hnew

/-- **A child that is not the last one to be counted** only counts, and releases a held-back child
if the loop limits its parallelism. -/
theorem updateStatus_nonLast (hlast : reports.length + 1 ≠ jobs.length) :
    ∃ stored, AtModule i jobs counter (reports ++ [r]) stored ∧
      updateStatus w flow old cur r = .ok (.nonLastParallelBranch stored
        (if m.forloopParallelism.isSome then some (reports.length + 1) else none)) := by
  obtain ⟨p, early, stored, hp, -, -, hstored, hup⟩ :=
    @updateStatus_parallel jobs counter reports r w flow old cur i before hold hcur hjobs hr hnew
  have hmod := hold.currentModule hflow
  refine ⟨stored, hstored, ?_⟩
  rw [hup, if_neg hlast, hmod, (loopInfo_eq hm hp).2]

/-- **The last child to be counted** writes the final status of the module. -/
theorem updateStatus_last (hlast : reports.length + 1 = jobs.length)
    (hrows : ∀ job ∈ jobs, (w.completed job).isSome = true) :
    ∃ c final, updateStatus w flow old cur r = .ok (.committed c) ∧
      FinalStatus m jobs w.completed (reports ++ [r]) c.transition final := by
  obtain ⟨p, early, stored, hp, -, -, hstored, hup⟩ :=
    @updateStatus_parallel jobs counter reports r w flow old cur i before hold hcur hjobs hr hnew
  have hmod := hold.currentModule hflow
  have hsucc : reportedSuccess (reports ++ [r]) r.jobIdForStatus = some r.success := by
    rw [reportedSuccess_append hnew, Function.update_self]
  obtain ⟨final, hfin⟩ := @parallelJoin_final jobs counter (reports ++ [r])
    (enteringReport flow old r)
    p m w flow old i before early stored hmod hm hold.step hp hstored hjobs (by simpa using hr)
    (by simpa using hsucc) hrows
  rw [if_pos hlast] at hup
  generalize parallelJoin w flow old p jobs (enteringReport flow old r) early stored = t at hup hfin
  obtain ⟨v, hv⟩ := @stepResult_isOk jobs (enteringReport flow old r) w t.early t.nresult hrows
  refine ⟨⟨commitTransition old t, t, v⟩, final, hup.trans (bind_eq_ok.mpr ⟨v, ?_, rfl⟩), hfin⟩
  rw [hfin.written, Option.bind_some, hfin.flowJobs, hv]

end Handler

end Children

end Windmill.Flow.Parallel
