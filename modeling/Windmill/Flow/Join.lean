import Windmill.Flow.Parallel

/-! # The join of a parallel module

A push of a parallel module starts the interleaving `parallelStep` in a state where no child is
counted (`parallel_pushed`), `JoinInv` is kept by every step, and with it the module is joined
exactly once, by the handler of the child that is counted last. -/

namespace Windmill.Flow.Join

open Value Status Reads Completion Flow.Suspend Transform Push Chain Parallel Lib.Except
  Lib.Run List

/-! ### The push of a parallel module -/

/-- A push that has started the parallel module `m`, the step `i` of the flow. -/
structure Launched (w : World) (flow : FlowValue) (flowEnv : Option Args) (db db' : FlowDb) (i : ℕ)
    (m : FlowModule) (counter : Counter) (children : List QueuedJob) : Prop where
  queued : db'.queued = db.queued ++ children
  pos : 0 < children.length
  module : flow.modules[i]? = some m
  kind : ParallelModule children.length m counter
  atModule : AtModule i (children.map QueuedJob.id) counter [] db'.status
  suspended : ∃ status start result, start.module = m ∧ ∀ k child, children[k]? = some child →
    jobSuspend w flowEnv status start result k = .ok child.suspend

variable {w : World} {job : Uuid} {k i : ℕ} {r : Report} {flowEnv : Option Args} {counter : Counter}

variable {db db' : FlowDb} {m : FlowModule} {flow : FlowValue} {p : InProgress}

lemma newStatusModule_parallel {id module statusModule m payload next uuids table}
    (hnext : Yields module statusModule payload next)
    (hlen : uuids.length = payload.payloads.length) (hm : newStatusModule w id next uuids =
      .ok (m, table)) (hp : m = .inProgress p) (hpar : p.parallel = true) :
    ∃ counter, 0 < uuids.length ∧ ParallelModule uuids.length module counter ∧ Counts uuids counter
    [] p := by
  have hnone : uuids.map (reportedSuccess []) = replicate uuids.length none := by
    rw [show reportedSuccess [] = fun _ => none from rfl, map_const']
  cases hnext with
  | job => obtain ⟨u, -, h⟩ := bind_eq_ok.mp hm; cases pure_eq_ok.mp h; cases hp
  | branch | iteration | branchStep =>
    obtain ⟨u, -, h⟩ := bind_eq_ok.mp hm; cases pure_eq_ok.mp h; cases hp; cases hpar
  | @allIterations payloads itered _ _ _ _ _ hval hpays hpos =>
    cases hm
    cases hp
    have hpos' : 0 < uuids.length := by
      rw [hlen]
      exact length_pos_iff.mpr (isEmpty_eq_false_iff.mp hpos)
    refine ⟨.iterator, hpos', .loop hval, rfl, rfl, ?_, fun _ => rfl, rfl, by rw [hnone]⟩
    exact parallelCounter_iterator.mpr ⟨_, rfl, hpays.symm.trans hlen.symm⟩
  | @allBranches payloads branches _ hval hpays hpos =>
    cases hm
    cases hp
    have hpos' : 0 < uuids.length := by
      rw [hlen]
      exact length_pos_iff.mpr (isEmpty_eq_false_iff.mp hpos)
    have hbrs : branches.length = uuids.length := hpays.symm.trans hlen.symm
    refine ⟨.branchall, hpos', .branches hval hbrs, rfl, rfl, ?_, nofun, rfl, by rw [hnone]⟩
    exact parallelCounter_branchall.mpr ⟨rfl, _, rfl, hbrs⟩

/-- **The children of a parallel module are as many as its stored length says**, and none of them
is counted yet. -/
theorem parallel_pushed {lastResult} {n : ℕ}
    (hpush : pushNextFlowJob w flow flowEnv lastResult db = (db', .ok (.done none)))
    (hlen : db.status.modules.length = flow.modules.length) (hstep : db'.status.moduleStep =
      .step i n) (hp : moduleStatus db'.status = .ok (.inProgress p)) (hpar : p.parallel = true) :
    ∃ m counter children, Launched w flow flowEnv db db' i m counter children ∧
      Counts (children.map QueuedJob.id) counter [] p := by
  obtain ⟨hstepi, -, hlt⟩ := fromI32AndLen_eq_step.mp hstep
  have hmod : db'.status.modules[i]? = some (.inProgress p) := by
    simp only [moduleStatus, hstep] at hp
    split at hp
    · rename_i hget
      cases hp
      exact hget
    · cases hp
  have hpushes := @pushNextFlowJob_pushes w flow flowEnv lastResult db
  rw [hpush] at hpushes
  cases hpushes with
  | parked _ hgate =>
    -- a parked flow waits under its step counter
    obtain ⟨s, last, -, hcur, -⟩ := suspendGate_park hgate
    rw [FlowStatus.currentStep, hstepi, if_neg (by omega), Int.toNat_natCast, hmod] at hcur
    cases hcur
  | @started status status' result messages approvers start _ _ _ hgate hch hstart =>
    have htr := suspendGate_tracks rfl hgate
    have hlen' : status'.modules.length = flow.modules.length := by
      rw [← hlen, ← htr.length]
      cases hch with
      | module => rfl
      | retry => simp [retryStatus]
      | failureModule => unfold failureStatus; split_ifs <;> rfl
    have hin : ∀ j n', start.step = .step j n' → j < flow.modules.length ∧ flow.modules[j]? =
        some start.module := by
      intro j n' hj
      have hat : flow.getFlowModuleAtStep start.step = .ok start.module := by
        cases hch with
        | module hmod _ => exact hmod
        | retry hmod _ _ => exact hmod
        | failureModule => cases hj
      rw [hj] at hat
      simp only [FlowValue.getFlowModuleAtStep] at hat
      split at hat
      · rename_i m hget
        cases hat
        exact ⟨(List.getElem?_eq_some_iff.mp hget).1, hget⟩
      · cases hat
    obtain ⟨skipped, -, ⟨-, -, -, hagain⟩ | ⟨payload, next, htrans, hcom, -⟩⟩ :=
      startModule_ok hstart
    · cases hagain
    obtain ⟨jobs, m, table, hjobs, hm, rfl⟩ := commitJobs_ok hcom
    obtain ⟨hcount, hsus⟩ := pushJobs_ok hjobs
    obtain ⟨⟨n', hn'⟩, hstep', hget⟩ := writePushed_step hlen' (fun j n' h => (hin j n' h).1) hstep
    have hpm : m = .inProgress p := Option.some.inj (hget.symm.trans hmod)
    obtain ⟨counter, hpos, hkind, hcnt⟩ := newStatusModule_parallel
      (computeNextFlowTransform_yields htrans) (by rw [length_map, hcount]) hm hpm hpar
    rw [length_map] at hpos hkind
    refine ⟨start.module, counter, jobs,
      ⟨rfl, hpos, (hin i n' hn').2, hkind, ⟨hstep', p, hmod, hcnt⟩, ?_⟩, hcnt⟩
    refine ⟨status', start, result, rfl, fun k child hk => ?_⟩
    have := (hsus k child hk).2
    rwa [Nat.zero_add] at this

/-! ### The interleaving -/

inductive HandlerEnd where
  | nonLastParallelBranch
  | joined (c : Committed)
  | failed (e : Error)

def HandlerEnd.isJoined : HandlerEnd → Bool
  | .joined _ => true
  | _ => false

/-- A parallel module under way. `releases` holds the counters of the handlers that have committed
and still have a held-back child to release, `released` the children that were let go, in their
order. -/
structure ParallelState where
  status : FlowStatus
  queued : List QueuedJob
  completed : Uuid → Option CompletedJob
  reading : List (Report × FlowStatus)
  releases : List ℕ
  released : List Uuid
  ended : List (Report × HandlerEnd)

def held (queued : List QueuedJob) (suspend : ℕ) : List Uuid :=
  (queued.filter fun j => decide (j.suspend = suspend)).map QueuedJob.id

def ParallelState.start (status : FlowStatus) (children : List QueuedJob) : ParallelState where
  status := status
  queued := children
  completed _ := none
  reading := []
  releases := []
  released := held children 0
  ended := []

def ParallelState.jobs (s : ParallelState) : List Uuid := s.queued.map QueuedJob.id

def ParallelState.reports (s : ParallelState) : List Report := s.ended.map Prod.fst

def ParallelState.handled (s : ParallelState) : List Uuid :=
  (s.reading.map Prod.fst ++ s.reports).map Report.jobIdForStatus

/-- What may happen to a parallel module. -/
inductive ParallelStep where
  | complete (job : Uuid) (row : CompletedJob)
  | read (r : Report)
  | commit (k : ℕ) (w : World)
  | release (k : ℕ)

/-- One step, if it is possible. -/
def parallelStep (flow : FlowValue) (s : ParallelState) : ParallelStep → Option ParallelState
  | .complete job row =>
    if job ∈ s.jobs ∧ (s.completed job).isNone then
      some { s with completed := Function.update s.completed job (some row) }
    else none
  | .read r =>
    -- every child is reported once, after its row is written
    if r.jobIdForStatus ∈ s.jobs ∧ (s.completed r.jobIdForStatus).isSome ∧
        r.jobIdForStatus ∉ s.handled then
      some { s with reading := s.reading ++ [(r, s.status)] }
    else none
  | .commit k w =>
    match s.reading[k]? with
    | none => none
    | some (r, old) =>
      let s := { s with reading := s.reading.eraseIdx k }
      match updateStatus { w with completed := s.completed } flow old s.status r with
      | .error e => some { s with ended := s.ended ++ [(r, .failed e)] }
      | .ok (.nonLastParallelBranch status release) =>
        some { s with
          status, releases := s.releases ++ release.toList
          ended := s.ended ++ [(r, .nonLastParallelBranch)] }
      | .ok (.committed c) => some { s with status := c.status, ended :=
          s.ended ++ [(r, .joined c)] }
  | .release k =>
    match s.releases[k]? with
    | none => none
    | some n =>
      some { s with
        queued := releaseChild s.queued (some n), releases := s.releases.eraseIdx k
        released := s.released ++ held s.queued n }

structure JoinInv (i : ℕ) (m : FlowModule) (counter : Counter) (jobs : List Uuid)
  (s : ParallelState) :
    Prop where
  jobs_eq : s.jobs = jobs
  nodup : s.handled.Nodup
  known : ∀ job ∈ s.handled, job ∈ jobs ∧ (s.completed job).isSome = true
  reading : ∀ ro ∈ s.reading, ∃ before, AtModule i jobs counter before ro.2
  progress :
    (AtModule i jobs counter s.reports s.status ∧ s.ended.length < jobs.length ∧
        ∀ e ∈ s.ended, e.2 = .nonLastParallelBranch) ∨
      (s.ended.length = jobs.length ∧ ∃ before r c final, s.ended = before ++ [(r, .joined c)] ∧
        (∀ e ∈ before, e.2 = .nonLastParallelBranch) ∧
        FinalStatus m jobs s.completed s.reports c.transition final)

section Invariant

variable {flow : FlowValue} {i : ℕ} {m : FlowModule} {counter : Counter} {jobs : List Uuid}
  {s s' : ParallelState}

lemma releaseChild_ids (queued : List QueuedJob) (release : Option ℕ) :
    (releaseChild queued release).map QueuedJob.id = queued.map QueuedJob.id := by
  cases release with
  | none => rfl
  | some n =>
    simp only [releaseChild, map_map]
    refine map_congr_left fun j _ => ?_
    simp only [Function.comp_apply]
    split_ifs <;> rfl

lemma handled_commit {old} (hk : s.reading[k]? = some (r, old)) :
    (((s.reading.eraseIdx k).map Prod.fst ++ (s.reports ++ [r])).map Report.jobIdForStatus).Perm
    s.handled := by
  obtain ⟨hlt, hget⟩ := List.getElem?_eq_some_iff.mp hk
  have hperm := getElem_cons_eraseIdx_perm hlt
  rw [hget] at hperm
  refine List.Perm.map _ ?_
  have h1 : ((s.reading.eraseIdx k).map Prod.fst ++ (s.reports ++ [r])).Perm
      (r :: ((s.reading.eraseIdx k).map Prod.fst ++ s.reports)) := by
    rw [← append_assoc]
    exact perm_append_singleton _ _
  exact h1.trans ((hperm.map Prod.fst).append_right s.reports)

section

variable (hI : JoinInv i m counter jobs s)
include hI

lemma JoinInv.length_le : s.reading.length + s.ended.length ≤ jobs.length := by
  have h := (subperm_of_subset hI.nodup fun job hjob => (hI.known job hjob).1).length_le
  simpa [ParallelState.handled, ParallelState.reports] using h

lemma JoinInv.nodup_reports : (s.reports.map Report.jobIdForStatus).Nodup := by
  have h := hI.nodup
  unfold ParallelState.handled at h
  rw [map_append] at h
  exact h.of_append_right

lemma JoinInv.covers (hall : s.ended.length = jobs.length) (hjob : job ∈ jobs) :
    job ∈ s.reports.map Report.jobIdForStatus := by
  have hsub : s.reports.map Report.jobIdForStatus ⊆ jobs := fun j hj =>
    (hI.known j (by unfold ParallelState.handled; rw [map_append]; simp [hj])).1
  have hperm := (subperm_of_subset hI.nodup_reports hsub).perm_of_length_le
    (by simp [ParallelState.reports, hall])
  exact hperm.mem_iff.mpr hjob

lemma JoinInv.handled_of_ended (hall : s.ended.length = jobs.length) (hjob : job ∈ jobs) :
    job ∈ s.handled := by
  unfold ParallelState.handled
  rw [map_append]
  exact mem_append_right _ (hI.covers hall hjob)

lemma joinInv_complete {row} (h : parallelStep flow s (.complete job row) = some s') :
    JoinInv i m counter jobs s' := by
  simp only [parallelStep] at h
  split_ifs at h with hguard
  cases h
  obtain ⟨hjob, hnone⟩ := hguard
  refine ⟨hI.jobs_eq, hI.nodup, fun job' hjob' => ⟨(hI.known job' hjob').1, ?_⟩, hI.reading, ?_⟩
  · by_cases heq : job' = job
    · subst heq
      simp
    · simpa [Function.update_of_ne heq] using (hI.known job' hjob').2
  · refine hI.progress.imp id fun hjoin => ?_
    -- after the join every child has its row already
    have hmem := hI.handled_of_ended hjoin.1 (hI.jobs_eq ▸ hjob)
    have hsome := (hI.known job hmem).2
    simp [Option.isNone_iff_eq_none.mp hnone] at hsome

lemma joinInv_read (h : parallelStep flow s (.read r) = some s') : JoinInv i m counter jobs s' := by
  simp only [parallelStep] at h
  split_ifs at h with hguard
  cases h
  obtain ⟨hjob, hrow, hnew⟩ := hguard
  rw [hI.jobs_eq] at hjob
  rcases hI.progress with hrun | hjoin
  · have hperm : (((s.reading ++ [(r, s.status)]).map Prod.fst ++ s.reports).map
        Report.jobIdForStatus).Perm (r.jobIdForStatus :: s.handled) := by
      unfold ParallelState.handled
      simp only [map_append, map_cons, map_nil, append_assoc]
      exact perm_middle
    refine ⟨hI.jobs_eq, hperm.nodup_iff.mpr (nodup_cons.mpr ⟨hnew, hI.nodup⟩),
      fun job hmem => ?_, fun ro hro => ?_, .inl hrun⟩
    · rcases mem_cons.mp (hperm.mem_iff.mp hmem) with rfl | hmem
      · exact ⟨hjob, hrow⟩
      · exact hI.known job hmem
    · rcases mem_append.mp hro with hro | hro
      · exact hI.reading ro hro
      · rw [mem_singleton.mp hro]
        exact ⟨_, hrun.1⟩
  · exact absurd (hI.handled_of_ended hjoin.1 hjob) hnew

lemma joinInv_release (h : parallelStep flow s (.release k) = some s') :
    JoinInv i m counter jobs s' := by
  simp only [parallelStep] at h
  split at h
  · cases h
  · rename_i n _
    cases h
    exact ⟨(releaseChild_ids s.queued (some n)).trans hI.jobs_eq, hI.nodup, hI.known, hI.reading,
      hI.progress⟩

lemma JoinInv.committing {old} (hk : s.reading[k]? = some (r, old)) :
    AtModule i jobs counter s.reports s.status ∧ s.ended.length < jobs.length ∧
    (∀ e ∈ s.ended, e.2 = .nonLastParallelBranch) ∧ r.jobIdForStatus ∈ jobs ∧ ∀ r' ∈ s.reports,
    r'.jobIdForStatus ≠ r.jobIdForStatus := by
  have hmem := mem_of_getElem? hk
  have hr : r.jobIdForStatus ∈ (s.reading.map Prod.fst).map Report.jobIdForStatus :=
    mem_map_of_mem (mem_map_of_mem hmem)
  have hlen := hI.length_le
  have hpos := length_pos_of_mem hmem
  have hdisj := hI.nodup
  unfold ParallelState.handled at hdisj
  rw [map_append] at hdisj
  refine ⟨?_, by omega, ?_, (hI.known r.jobIdForStatus ?_).1, fun r' hr' heq => ?_⟩
  · rcases hI.progress with hrun | hjoin
    · exact hrun.1
    · omega
  · rcases hI.progress with hrun | hjoin
    · exact hrun.2.2
    · omega
  · unfold ParallelState.handled
    rw [map_append]
    exact mem_append_left _ hr
  · exact disjoint_of_nodup_append hdisj hr (heq ▸ mem_map_of_mem hr')

end

section

variable {a : ParallelStep} (hflow : flow.modules[i]? = some m)
  (hm : ParallelModule jobs.length m counter) (hjobs : jobs.Nodup) (hI : JoinInv i m counter jobs s)
include hflow hm hjobs hI

/-- **What a transaction does**: it counts its child, or it is the join. -/
theorem commit_cases (h : parallelStep flow s (.commit k w) = some s') :
    ∃ r old, s.reading[k]? = some (r, old) ∧
      ((s.ended.length + 1 < jobs.length ∧ ∃ stored, AtModule i jobs counter
      (s.reports ++ [r]) stored ∧ s' = { s with
            status := stored, reading := s.reading.eraseIdx k
            releases := s.releases ++ (if m.forloopParallelism.isSome then some (s.ended.length + 1)
              else none).toList
            ended := s.ended ++ [(r, .nonLastParallelBranch)] }) ∨
        (s.ended.length + 1 = jobs.length ∧ ∃ c final,
          FinalStatus m jobs s.completed (s.reports ++ [r]) c.transition final ∧
          s' = { s with
            status := c.status, reading := s.reading.eraseIdx k
            ended := s.ended ++ [(r, .joined c)] })) := by
  simp only [parallelStep] at h
  cases hk : s.reading[k]? with
  | none => simp [hk] at h
  | some ro =>
    obtain ⟨r, old⟩ := ro
    rw [hk] at h
    dsimp only at h
    obtain ⟨hcur, hlt, -, hr, hnew⟩ := hI.committing hk
    obtain ⟨before, hold⟩ := hI.reading _ (mem_of_getElem? hk)
    have hcnt : s.reports.length = s.ended.length := length_map _
    refine ⟨r, old, rfl, ?_⟩
    by_cases hlast : s.reports.length + 1 = jobs.length
    · -- all children are handled, so the rows of all of them are there
      have hperm := handled_commit hk
      have hnd := hperm.nodup_iff.mpr hI.nodup
      have hknown := fun job hjob => hI.known job (hperm.mem_iff.mp hjob)
      rw [map_append] at hnd hknown
      have hcover := (subperm_of_subset hnd.of_append_right fun job hjob =>
        (hknown job (mem_append_right _ hjob)).1).perm_of_length_le (by simp [hlast])
      have hrows : ∀ job ∈ jobs, (s.completed job).isSome = true := fun job hjob =>
        (hknown job (mem_append_right _ (hcover.mem_iff.mpr hjob))).2
      obtain ⟨c, final, hup, hfin⟩ := @updateStatus_last jobs counter s.reports r m
        { w with completed := s.completed } flow old s.status i before hold hcur hflow hm
        hjobs hr hnew
        hlast hrows
      rw [hup] at h
      cases h
      exact .inr ⟨by omega, c, final, hfin, rfl⟩
    · obtain ⟨stored, hstored, hup⟩ := @updateStatus_nonLast jobs counter s.reports r m
        { w with completed := s.completed } flow old s.status i before hold hcur hflow hm
        hjobs hr hnew
        hlast
      rw [hup] at h
      cases h
      exact .inl ⟨by omega, stored, hstored, by rw [hcnt]⟩

lemma joinInv_commit (h : parallelStep flow s (.commit k w) = some s') :
    JoinInv i m counter jobs s' := by
  obtain ⟨r, old, hk, hcase⟩ := commit_cases hflow hm hjobs hI h
  have hread : ∀ ro ∈ s.reading.eraseIdx k, ∃ before, AtModule i jobs counter before ro.2 :=
    fun ro hro => hI.reading ro (mem_of_mem_eraseIdx hro)
  have hrep : ∀ e, (s.ended ++ [(r, e)]).map Prod.fst = s.reports ++ [r] := fun e => by
    rw [map_append]; rfl
  have hhandle : ∀ e, (((s.reading.eraseIdx k).map Prod.fst ++
      (s.ended ++ [(r, e)]).map Prod.fst).map Report.jobIdForStatus).Perm s.handled := fun e => by
    rw [hrep]
    exact handled_commit hk
  have hnonLast := (hI.committing hk).2.2.1
  rcases hcase with ⟨hlt, stored, hstored, rfl⟩ | ⟨hlast, c, final, hfin, rfl⟩
  · refine ⟨hI.jobs_eq, ?_, ?_, hread, .inl ⟨?_, ?_, fun e he => ?_⟩⟩
    · exact (hhandle _).nodup_iff.mpr hI.nodup
    · exact fun job hjob => hI.known job ((hhandle _).mem_iff.mp hjob)
    · simp only [ParallelState.reports, hrep]
      exact hstored
    · rw [length_append, length_singleton]
      exact hlt
    · rcases mem_append.mp he with he | he
      · exact hnonLast e he
      · rw [mem_singleton.mp he]
  · refine ⟨hI.jobs_eq, ?_, ?_, hread, .inr ⟨?_, s.ended, r, c, final, rfl, hnonLast, ?_⟩⟩
    · exact (hhandle _).nodup_iff.mpr hI.nodup
    · exact fun job hjob => hI.known job ((hhandle _).mem_iff.mp hjob)
    · rw [length_append, length_singleton, hlast]
    · simp only [ParallelState.reports, hrep]
      exact hfin

/-- **Every step keeps the invariant.** -/
theorem joinInv_step (h : parallelStep flow s a = some s') : JoinInv i m counter jobs s' := by
  cases a with
  | complete job row => exact joinInv_complete hI h
  | read r => exact joinInv_read hI h
  | commit k w => exact joinInv_commit hflow hm hjobs hI h
  | release k => exact joinInv_release hI h

end

end Invariant

/-! ### Joined exactly once -/

/-- The module is joined by one handler when all children are counted and by none before, the others
return `NonLastParallelBranch`, and the final status holds what each child reported and is a success
when it should be. -/
structure JoinedOnce (m : FlowModule) (jobs : List Uuid) (s : ParallelState) : Prop where
  none_fails : ∀ e ∈ s.ended, ∀ err, e.2 ≠ .failed err
  once : (s.ended.filter fun e => e.2.isJoined).length = if s.ended.length = jobs.length
    then 1 else 0
  final : ∀ r c, (r, .joined c) ∈ s.ended → ∃ final successes,
    c.transition.newStatus = some final ∧ (final.isSuccess = true ∨ final.isFailure = true) ∧
      final.flowJobsSuccess = some successes ∧ successes.length = jobs.length ∧
      (∀ (k : ℕ) (job : Uuid), jobs[k]? = some job →
        ∃ r' ∈ s.reports, r'.jobIdForStatus = job ∧ successes[k]? = some (some r'.success)) ∧
      (final.isSuccess = true ↔ c.transition.early.isError = false ∧
        (loopSkipsFailures m = true ∨ ChildrenOk m jobs s.completed))

lemma filter_isJoined_of_nonLast {l : List (Report × HandlerEnd)}
    (h : ∀ e ∈ l, e.2 = .nonLastParallelBranch) : l.filter (fun e => e.2.isJoined) = [] :=
  filter_eq_nil_iff.mpr fun e he => by rw [h e he]; simp [HandlerEnd.isJoined]

lemma joinedOnce_of_joinInv {jobs : List Uuid}
    {s : ParallelState} (hI : JoinInv i m counter jobs s) : JoinedOnce m jobs s := by
  rcases hI.progress with ⟨-, hlt, hnonLast⟩ | ⟨hall, before, r, c, final, hended, hnonLast, hfin⟩
  · refine ⟨fun e he err h => ?_, ?_, fun r c hmem => ?_⟩
    · simp [hnonLast e he] at h
    · rw [filter_isJoined_of_nonLast hnonLast, if_neg (by omega), length_nil]
    · cases hnonLast _ hmem
  refine ⟨fun e he err h => ?_, ?_, fun r' c' hmem => ?_⟩
  · rw [hended] at he
    rcases mem_append.mp he with he | he
    · simp [hnonLast e he] at h
    · simp [mem_singleton.mp he] at h
  · rw [if_pos hall, hended, filter_append, filter_isJoined_of_nonLast hnonLast]
    rfl
  · rw [hended] at hmem
    rcases mem_append.mp hmem with hmem | hmem
    · cases hnonLast _ hmem
    · cases mem_singleton.mp hmem
      refine ⟨final, _, hfin.written, hfin.ended, hfin.successes, length_map _, fun k job hk => ?_,
        hfin.success_iff⟩
      obtain ⟨r', hr', hjob, hsucc⟩ := reportedSuccess_mem (hI.covers hall (mem_of_getElem? hk))
      exact ⟨r', hr', hjob, by rw [getElem?_map, hk, Option.map_some, hsucc]⟩

lemma joinInv_start {children} (h : Launched w flow flowEnv db db' i m counter children) :
    JoinInv i m counter (children.map QueuedJob.id) (.start db'.status children) where
  jobs_eq := rfl
  nodup := nodup_nil
  known job hjob := by cases hjob
  reading ro hro := by cases hro
  progress := .inl ⟨h.atModule, by simpa [ParallelState.start] using h.pos, fun e he => by cases he⟩

/-- **A parallel module of the flow is joined exactly once**, by the child that is counted last, in
every interleaving of its children and their handlers. -/
theorem parallel_module_joined_once {w : World} {flow : FlowValue} {flowEnv : Option Args}
    {lastResult : Option Json} {db db' : FlowDb} {i n : ℕ} {p : InProgress}
    (hpush : pushNextFlowJob w flow flowEnv lastResult db = (db', .ok (.done none)))
    (hlen : db.status.modules.length = flow.modules.length)
    (hp : moduleStatus db'.status = .ok (.inProgress p))
    (hpar : p.parallel = true) (hfresh : (p.flowJobs.getD []).Nodup)
    (hstep : db'.status.moduleStep = .step i n) :
    ∃ m children, flow.modules[i]? = some m ∧ db'.queued = db.queued ++ children ∧
      p.flowJobs = some (children.map QueuedJob.id) ∧
      (∃ counter, parallelCounter p = .ok (counter, children.length)) ∧
      ∀ as s, run (parallelStep flow) as (.start db'.status children) = some s →
        JoinedOnce m (children.map QueuedJob.id) s := by
  obtain ⟨m, counter, children, hlaunch, hcnt⟩ := parallel_pushed hpush hlen hstep hp hpar
  have hnd : (children.map QueuedJob.id).Nodup := by
    rw [hcnt.flowJobs] at hfresh
    exact hfresh
  have hkind : ParallelModule (children.map QueuedJob.id).length m counter := by
    rw [length_map]
    exact hlaunch.kind
  refine ⟨m, children, hlaunch.module, hlaunch.queued, hcnt.flowJobs, ⟨counter, ?_⟩,
    fun as s hrun => ?_⟩
  · rw [hcnt.counting, length_map]
  · exact joinedOnce_of_joinInv
      (run_preserves (joinInv_step hlaunch.module hkind hnd) (joinInv_start hlaunch) hrun)

def parallelLoop : FlowModule where
  id := "a"
  value := .forloopFlow (.static (.arr [.num "1", .num "2"])) [{ id := "b", value := .script }] none
    none (some true) none

def loopFlow : FlowValue where
  modules := [parallelLoop]

def launchedDb : FlowDb :=
  (pushNextFlowJob (.plain (.plain 1)) loopFlow none none (freshDb loopFlow)).1

def launchedLoop : InProgress where
  id := "a"
  job := 1
  iterator := some ⟨0, none, some 2⟩
  flowJobs := some [1000, 1001]
  flowJobsSuccess := some [none, none]
  flowJobsDuration := some ⟨[none, none], [none, none]⟩
  branchChosen := none
  branchall := none
  parallel := true
  whileLoop := false

theorem parallel_loop_joined_once : moduleStatus launchedDb.status = .ok
    (.inProgress launchedLoop) ∧
      ∃ m children, loopFlow.modules[0]? = some m ∧ launchedDb.queued = (freshDb loopFlow).queued ++
      children ∧
        launchedLoop.flowJobs = some (children.map QueuedJob.id) ∧
        (∃ counter, parallelCounter launchedLoop = .ok (counter, children.length)) ∧
    ∀ as s, run (parallelStep loopFlow) as (.start launchedDb.status children) = some s →
    JoinedOnce m (children.map QueuedJob.id) s :=
  ⟨rfl, @parallel_module_joined_once (.plain (.plain 1)) loopFlow none none (freshDb loopFlow)
    launchedDb 0 1 launchedLoop rfl rfl rfl rfl (by decide) rfl⟩

def handledByLoop : FlowValue where
  modules := [{ id := "c", value := .script }]
  failureModule := some parallelLoop

def failedDb : FlowDb :=
  { freshDb handledByLoop with
    status := { FlowStatus.new handledByLoop with
      modules := [.failure ⟨"c", 6, none, none, none, none, []⟩] } }

def childrenEnd (first second : Uuid) : List ParallelStep :=
  [.complete first ⟨.success, .null⟩,
    .read { jobIdForStatus := first, success := true, result := .null },
    .commit 0 (.plain (.plain 1)), .complete second ⟨.success, .null⟩,
    .read { jobIdForStatus := second, success := true, result := .null },
    .commit 0 (.plain (.plain 1))]

/-- The handlers of the children count below `modules`, where a failure module is not: all of them
fail and the loop is never joined. -/
theorem failure_loop_never_joined :
    ∃ db' p s, pushNextFlowJob (.plain (.plain 1)) handledByLoop none (some .null) failedDb =
    (db', .ok (.done none)) ∧ moduleStatus db'.status = .ok (.inProgress p) ∧ p.parallel = true ∧
    db'.queued.map QueuedJob.id = [1000, 1001] ∧ run (parallelStep handledByLoop)
    (childrenEnd 1000 1001) (.start db'.status db'.queued) = some s ∧ s.ended.length = 2 ∧
    (s.ended.filter fun e => e.2.isJoined).length = 0 :=
  ⟨_, _, _, rfl, rfl, rfl, rfl, rfl, rfl, rfl⟩

end Windmill.Flow.Join
