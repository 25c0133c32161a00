import Windmill.Flow.Join
import Windmill.Lib.Throttle

/-! # Parallel loops of limited parallelism

A parallel for-loop with a `parallelism` pushes all its iterations and holds all but the first ones
back with a positive `suspend`. The handler that counts the `k`-th iteration releases, after its
transaction, the iteration whose `suspend` is `k`. The queue is a throttle by tickets
(`Lib.Throttle`) as long as the tickets are the ones meant, which the `u16` arithmetic of the push
limits. -/

namespace Windmill.Flow.Throttle

open Value Status Reads Completion Transform Push Chain Parallel Join Lib.Except Lib.Positions
  Lib.Run List
open Lib.Throttle

def active (s : ParallelState) : List QueuedJob :=
  s.queued.filter fun j => decide (j.suspend = 0) &&
    !decide (j.id ∈ s.reports.map Report.jobIdForStatus)

def OnlyReleased (s : ParallelState) : ParallelStep → Prop
  | .complete job _ => ∀ child ∈ s.queued, child.id = job → child.suspend = 0
  | _ => True

/-- The throttle works: at most `p` iterations are active, exactly as many as can be when no handler
has a release to make, and every iteration is released once before the join. -/
structure Throttled (p n : ℕ) (s : ParallelState) : Prop where
  limit : (active s).length ≤ p
  busy : s.releases = [] → (active s).length = min p (n - s.ended.length)
  once : s.released.Nodup
  all : s.ended.length = n → s.released.Perm s.jobs

/-! ### The tickets in the queue -/

/-- The `suspend` of the children are the tickets they wait for. -/
structure ThrottleInv (p n : ℕ) (s : ParallelState) : Prop where
  suspends : s.queued.map QueuedJob.suspend =
    (List.range n).map (waiting p s.ended.length s.releases)
  nodup : s.releases.Nodup
  due : ∀ k ∈ s.releases, 1 ≤ k ∧ k ≤ s.ended.length
  completed : ∀ child ∈ s.queued, (s.completed child.id).isSome = true → child.suspend = 0
  released : s.released.Perm (held s.queued 0)

lemma releaseChild_suspends (queued : List QueuedJob) (k : ℕ) :
    (releaseChild queued (some k)).map QueuedJob.suspend
    = (queued.map QueuedJob.suspend).map fun x => if x = k then 0 else x := by
  simp only [releaseChild, map_map]
  refine map_congr_left fun j _ => ?_
  simp only [Function.comp_apply]
  split_ifs <;> rfl

variable {k : ℕ}

lemma held_releaseChild (hk : k ≠ 0) : ∀ queued, (held (releaseChild queued (some k)) 0).Perm
      (held queued 0 ++ held queued k)
  | [] => List.Perm.refl _
  | j :: queued => by
    have ih := held_releaseChild hk queued
    simp only [held, releaseChild, map_cons, filter_cons] at ih ⊢
    by_cases hj : j.suspend = k
    · simp only [hj, if_true, hk, decide_true, decide_false, Bool.false_eq_true, if_false, map_cons]
      exact (ih.cons j.id).trans perm_middle.symm
    by_cases h0 : j.suspend = 0
    · simp only [h0, if_false, decide_true, if_true, Ne.symm hk, decide_false,
        Bool.false_eq_true, map_cons, cons_append]
      exact ih.cons j.id
    · simp only [hj, h0, if_false, decide_false, Bool.false_eq_true]
      exact ih

section Steps

variable {flow : FlowValue} {i p : ℕ} {m : FlowModule} {counter : Counter} {jobs : List Uuid}
  {s s' : ParallelState}

lemma throttleInv_release (hT : ThrottleInv p jobs.length s)
    (h : parallelStep flow s (.release k) = some s') : ThrottleInv p jobs.length s' := by
  simp only [parallelStep] at h
  cases hk : s.releases[k]? with
  | none => simp [hk] at h
  | some n =>
    rw [hk] at h
    cases h
    have hn := (hT.due n (mem_of_getElem? hk)).1
    refine ⟨?_, hT.nodup.sublist (eraseIdx_sublist _ _),
      fun k' hk' => hT.due k' (mem_of_mem_eraseIdx hk'), fun child hch hrow => ?_, ?_⟩
    · rw [releaseChild_suspends, hT.suspends, map_map]
      refine map_congr_left fun j _ => ?_
      exact (waiting_release hT.nodup hT.due hk j).symm
    · obtain ⟨j, hj, rfl⟩ := mem_map.mp hch
      split_ifs at hrow ⊢
      · rfl
      · exact hT.completed j hj hrow
    · exact (hT.released.append_right _).trans (held_releaseChild (by omega) s.queued).symm

lemma throttleInv_commit {w : World} (hflow : flow.modules[i]? = some m)
    (hm : ParallelModule jobs.length m counter) (hjobs : jobs.Nodup) (hp : 1 ≤ p)
    (hlim : m.forloopParallelism.isSome = true) (hI : JoinInv i m counter jobs s)
    (hT : ThrottleInv p jobs.length s) (h : parallelStep flow s (.commit k w) = some s') :
    ThrottleInv p jobs.length s' := by
  obtain ⟨r, old, -, ⟨hlt, stored, -, rfl⟩ | ⟨hlast, c, final, -, rfl⟩⟩ :=
    commit_cases hflow hm hjobs hI h
  · rw [if_pos hlim]
    have hlen : (s.ended ++ [(r, HandlerEnd.nonLastParallelBranch)]).length =
        s.ended.length + 1 := by simp
    refine ⟨?_, ?_, fun k' hk' => ?_, hT.completed, hT.released⟩
    · rw [hT.suspends, hlen]
      exact map_congr_left fun j _ => (waiting_complete j).symm
    · refine nodup_append.mpr ⟨hT.nodup, nodup_singleton _, fun a ha b hb heq => ?_⟩
      have h1 := (hT.due a ha).2
      have h2 : b = s.ended.length + 1 := mem_singleton.mp hb
      omega
    · rw [hlen]
      rcases mem_append.mp hk' with hk' | hk'
      · have := hT.due k' hk'
        omega
      · rw [mem_singleton.mp hk']
        omega
  · have hlen : (s.ended ++ [(r, HandlerEnd.joined c)]).length = s.ended.length + 1 := by simp
    refine ⟨?_, hT.nodup, fun k' hk' => ?_, hT.completed, hT.released⟩
    · rw [hT.suspends, hlen]
      refine map_congr_left fun j hj => (waiting_last hp ?_).symm
      have := mem_range.mp hj
      omega
    · dsimp only
      have := hT.due k' hk'
      omega

/-- **Every step keeps the tickets.** -/
theorem throttleInv_step {a} (hflow : flow.modules[i]? = some m)
    (hm : ParallelModule jobs.length m counter) (hjobs : jobs.Nodup) (hp : 1 ≤ p)
    (hlim : m.forloopParallelism.isSome = true) (hI : JoinInv i m counter jobs s)
    (hT : ThrottleInv p jobs.length s) (ha : OnlyReleased s a)
    (h : parallelStep flow s a = some s') : ThrottleInv p jobs.length s' := by
  cases a with
  | complete job row =>
    simp only [parallelStep] at h
    split_ifs at h
    cases h
    refine ⟨hT.suspends, hT.nodup, hT.due, fun child hch hrow => ?_, hT.released⟩
    by_cases heq : child.id = job
    · exact ha child hch heq
    · dsimp only at hrow
      rw [Function.update_of_ne heq] at hrow
      exact hT.completed child hch hrow
  | read r =>
    simp only [parallelStep] at h
    split_ifs at h
    cases h
    exact ⟨hT.suspends, hT.nodup, hT.due, hT.completed, hT.released⟩
  | commit k w => exact throttleInv_commit hflow hm hjobs hp hlim hI hT h
  | release k => exact throttleInv_release hT h

/-! ### The throttle works -/

lemma length_released (hT : ThrottleInv p jobs.length s) :
    (s.queued.filter fun j => decide (j.suspend = 0)).length = ((range jobs.length).filter fun j =>
        decide (Released p s.ended.length s.releases j)).length := by
  have h0 : 0 ∉ s.releases := fun h => absurd (hT.due 0 h).1 (by decide)
  have hmap : ((s.queued.map QueuedJob.suspend).filter fun x => decide (x = 0)).length
      = (s.queued.filter fun j => decide (j.suspend = 0)).length := by
    rw [filter_map, length_map]
    rfl
  rw [← hmap, hT.suspends, filter_map, length_map]
  congr 1
  refine filter_congr fun j _ => ?_
  exact decide_eq_decide.mpr (waiting_eq_zero_iff h0)

lemma length_active (hjobs : jobs.Nodup) (hI : JoinInv i m counter jobs s)
    (hT : ThrottleInv p jobs.length s) : (s.queued.filter fun j => decide (j.suspend = 0)).length =
    (active s).length + s.ended.length := by
  have hids : (s.queued.map QueuedJob.id).Nodup :=
    (show s.queued.map QueuedJob.id = jobs from hI.jobs_eq) ▸ hjobs
  have hhandle : ∀ job ∈ s.reports.map Report.jobIdForStatus, job ∈ s.handled := fun job hjob => by
    unfold ParallelState.handled
    rw [map_append]
    exact mem_append_right _ hjob
  have hsub : s.reports.map Report.jobIdForStatus ⊆ s.queued.map QueuedJob.id := fun job hjob => by
    have := (hI.known job (hhandle job hjob)).1
    rwa [← hI.jobs_eq] at this
  have hcnt := length_filter_mem hids hI.nodup_reports hsub
  rw [length_filter_split fun j hj hcount => ?_, hcnt, length_map, ParallelState.reports,
    length_map]
  · rfl
  · exact decide_eq_true (hT.completed j hj
      (hI.known j.id (hhandle j.id (of_decide_eq_true hcount))).2)

lemma throttled_of_inv (hjobs : jobs.Nodup) (hI : JoinInv i m counter jobs s)
    (hT : ThrottleInv p jobs.length s) : Throttled p jobs.length s := by
  have hsplit := length_active hjobs hI hT
  rw [length_released hT] at hsplit
  have hids : (s.queued.map QueuedJob.id).Nodup :=
    (show s.queued.map QueuedJob.id = jobs from hI.jobs_eq) ▸ hjobs
  refine ⟨?_, fun hnone => ?_, ?_, fun hall => ?_⟩
  · have := @length_released_le jobs.length p s.ended.length s.releases
    omega
  · rw [hnone, length_released_eq] at hsplit
    omega
  · exact hT.released.nodup_iff.mpr (hids.sublist (filter_sublist.map QueuedJob.id))
  · refine hT.released.trans ?_
    have hall' : s.queued.filter (fun j => decide (j.suspend = 0)) = s.queued := by
      refine filter_eq_self.mpr fun j hj => decide_eq_true (hT.completed j hj ?_)
      have hjob : j.id ∈ jobs := hI.jobs_eq ▸ mem_map_of_mem hj
      exact (hI.known j.id (hI.handled_of_ended hall hjob)).2
    unfold held
    rw [hall']
    exact List.Perm.refl _

end Steps

/-! ### The tickets that the push writes -/

lemma jsonU16_lt {j : Json} (h : jsonU16 j = some k) : k < u16Size := by
  unfold jsonU16 at h
  split at h
  · split at h
    · split_ifs at h with hlt
      cases h
      exact hlt
    · cases h
  · cases h

variable {w : World} {flowEnv : Option Args} {status : FlowStatus} {transform : InputTransform}
  {children : List QueuedJob} {p : ℕ}

lemma evaluateInputTransform_lt {ctx}
    (h : evaluateInputTransform w transform ctx jsonU16 0 = .ok k) : k < u16Size := by
  unfold evaluateInputTransform at h
  split at h
  · split at h
    · rename_i hj
      cases h
      exact jsonU16_lt hj
    · cases h
  · split at h
    · cases h
    · split at h
      · rename_i hj
        cases h
        exact jsonU16_lt hj
      · cases h
  · cases h
    decide

lemma launched_suspends {flow db db'} {i : ℕ} {m counter}
    (h : Launched w flow flowEnv db db' i m counter children)
    (hlim : m.forloopParallelism = some transform) :
    ∃ parallelism ctx, evaluateInputTransform w transform ctx jsonU16 0 = .ok parallelism ∧
      children.map QueuedJob.suspend = (range children.length).map
      (parallelismSuspend parallelism) := by
  obtain ⟨status, start, result, hstart, hsus⟩ := h.suspended
  have hjob : ∀ k child, children[k]? = some child → ∃ parallelism,
      evaluateInputTransform w transform ⟨w.flowJob.args, flowEnv, result, none,
        some (getTransformContext w.flowJob.id start.previousId status), none⟩ jsonU16 0
          = .ok parallelism ∧ child.suspend = parallelismSuspend parallelism k := by
    intro k child hk
    have hs := hsus k child hk
    simp only [jobSuspend, hstart, hlim] at hs
    obtain ⟨parallelism, heval, hs⟩ := bind_eq_ok.mp hs
    exact ⟨parallelism, heval, (pure_eq_ok.mp hs).symm⟩
  obtain ⟨parallelism, heval, -⟩ := hjob 0 _ (getElem?_eq_getElem h.pos)
  refine ⟨parallelism, _, heval, ext_getElem (by simp) fun k h1 h2 => ?_⟩
  obtain ⟨parallelism', heval', hs⟩ := hjob k _ (getElem?_eq_getElem (by simpa using h1))
  rw [heval] at heval'
  cases heval'
  simpa using hs

lemma parallelismSuspend_eq_ticket (hk : k < u16Size) : parallelismSuspend p k = ticket p k := by
  unfold parallelismSuspend ticket
  rw [Nat.mod_eq_of_lt hk]
  split_ifs <;> omega

lemma throttleInv_start (hsus : children.map QueuedJob.suspend
      = (range children.length).map (parallelismSuspend p)) (hn : children.length ≤ u16Size) :
    ThrottleInv p (children.map QueuedJob.id).length (.start status children) := by
  refine ⟨?_, nodup_nil, nofun, nofun,
    List.Perm.refl _⟩
  show children.map QueuedJob.suspend = _
  rw [hsus, length_map]
  refine map_congr_left fun k hk => ?_
  have hlt := mem_range.mp hk
  rw [parallelismSuspend_eq_ticket (by omega)]
  exact (waiting_zero k).symm

lemma not_throttled_start (hp : 1 ≤ p) (hlt : p < u16Size) (hsus : children.map QueuedJob.suspend
      = (range children.length).map (parallelismSuspend p)) (hn : u16Size < children.length) :
    p < (active (.start status children)).length := by
  have hact : (active (.start status children)).length
      = ((range children.length).filter fun k => decide (parallelismSuspend p k = 0)).length := by
    have hmap : ((children.map QueuedJob.suspend).filter fun x => decide (x = 0)).length
        = (active (.start status children)).length := by
      rw [filter_map, length_map]
      congr 1
      refine filter_congr fun j _ => ?_
      simp [ParallelState.start, ParallelState.reports]
    rw [← hmap, hsus, filter_map, length_map]
    rfl
  have hnd : (range p ++ [u16Size]).Nodup := by
    refine nodup_append.mpr ⟨nodup_range, nodup_singleton _, fun a ha b hb heq => ?_⟩
    have h1 := mem_range.mp ha
    have h2 := mem_singleton.mp hb
    omega
  have hsub : range p ++ [u16Size] ⊆ (range children.length).filter fun k =>
      decide (parallelismSuspend p k = 0) := by
    intro k hk
    rw [mem_filter, mem_range, decide_eq_true_eq]
    rcases mem_append.mp hk with hk | hk
    · have hkp := mem_range.mp hk
      rw [parallelismSuspend_eq_ticket (by omega), ticket]
      omega
    · rw [mem_singleton.mp hk]
      refine ⟨hn, ?_⟩
      unfold parallelismSuspend
      rw [Nat.mod_self, if_neg (by omega)]
  have hle := (subperm_of_subset hnd hsub).length_le
  rw [length_append, length_range, length_singleton] at hle
  omega

/-- **The parallelism of a parallel for-loop is respected, in every interleaving, exactly when** it
has at most 65536 iterations. -/
theorem loop_throttled_iff {w : World} {flow : FlowValue} {flowEnv : Option Args}
    {lastResult : Option Json}
    {db db' : FlowDb} {i n : ℕ} {p : InProgress} {transform : InputTransform}
    (hpush : pushNextFlowJob w flow flowEnv lastResult db = (db', .ok (.done none)))
    (hlen : db.status.modules.length = flow.modules.length)
    (hp : moduleStatus db'.status = .ok (.inProgress p))
    (hpar : p.parallel = true) (hfresh : (p.flowJobs.getD []).Nodup)
    (hstep : db'.status.moduleStep = .step i n)
    (hlimit : (flow.modules[i]?).bind FlowModule.forloopParallelism = some transform) :
    ∃ children parallelism ctx, db'.queued = db.queued ++ children ∧
      evaluateInputTransform w transform ctx jsonU16 0 = .ok parallelism ∧ (1 ≤ parallelism →
        ((∀ as s, Meets (parallelStep flow) OnlyReleased as (.start db'.status children) →
            run (parallelStep flow) as (.start db'.status children) = some s →
            Throttled parallelism children.length s) ↔ children.length ≤ 65536)) := by
  obtain ⟨m, counter, children, hlaunch, hcnt⟩ := parallel_pushed hpush hlen hstep hp hpar
  have hlimit' : m.forloopParallelism = some transform := by
    rw [hlaunch.module] at hlimit
    exact hlimit
  obtain ⟨parallelism, ctx, heval, hsus⟩ := launched_suspends hlaunch hlimit'
  refine ⟨children, parallelism, ctx, hlaunch.queued, heval, fun hpos => ⟨fun hall => ?_, ?_⟩⟩
  · by_contra hn
    have hfirst := (hall [] _ trivial rfl).limit
    have := @not_throttled_start db'.status children parallelism hpos
      (evaluateInputTransform_lt heval) hsus (by unfold u16Size; omega)
    omega
  intro hn as s hmeets hrun
  have hnd : (children.map QueuedJob.id).Nodup := by
    rw [hcnt.flowJobs] at hfresh
    exact hfresh
  have hkind : ParallelModule (children.map QueuedJob.id).length m counter := by
    rw [length_map]
    exact hlaunch.kind
  have hinv := run_invariant
    (I := fun s => JoinInv i m counter (children.map QueuedJob.id) s ∧
      ThrottleInv parallelism (children.map QueuedJob.id).length s)
    (fun hI ha h => ⟨joinInv_step hlaunch.module hkind hnd hI.1 h,
      throttleInv_step hlaunch.module hkind hnd hpos (by rw [hlimit']; rfl) hI.1 hI.2 ha h⟩)
    ⟨joinInv_start hlaunch, throttleInv_start hsus hn⟩ hmeets hrun
  have := throttled_of_inv hnd hinv.1 hinv.2
  rwa [length_map] at this

/-! ### A loop of many iterations -/

def wideLoop (n : ℕ) : FlowModule where
  id := "a"
  value := .forloopFlow (.static (.arr (List.replicate n .null)))
    [{ id := "b", value := .script }] none none (some true) (some (.static (.num "1")))

def wideFlow (n : ℕ) : FlowValue where
  modules := [wideLoop n]

def wideDb (n : ℕ) : FlowDb :=
  (pushNextFlowJob (.plain (.plain 1)) (wideFlow n) none none (freshDb (wideFlow n))).1

def wideLaunched : InProgress where
  id := "a"
  job := 1
  iterator := some ⟨0, none, some 2⟩
  flowJobs := some [1000, 1001]
  flowJobsSuccess := some [none, none]
  flowJobsDuration := some ⟨[none, none], [none, none]⟩
  branchChosen := none
  branchall := none
  parallel := true
  whileLoop := false

theorem wide_loop_throttled_iff :
    ∃ children parallelism ctx, (wideDb 2).queued = (freshDb (wideFlow 2)).queued ++ children ∧
      evaluateInputTransform (.plain (.plain 1)) (.static (.num "1")) ctx jsonU16 0 =
      .ok parallelism ∧ (1 ≤ parallelism →
        ((∀ as s, Meets (parallelStep (wideFlow 2)) OnlyReleased as
        (.start (wideDb 2).status children) →
            run (parallelStep (wideFlow 2)) as (.start (wideDb 2).status children) = some s →
            Throttled parallelism children.length s) ↔ children.length ≤ 65536)) :=
  @loop_throttled_iff (.plain (.plain 1)) (wideFlow 2) none none (freshDb (wideFlow 2))
    (wideDb 2) 0 1 wideLaunched (.static (.num "1")) rfl rfl rfl rfl (by decide) rfl rfl

lemma pushJobs_isOk {start : Start} {result : Json} (hpush : ∀ i, w.pushJob start.module i = .ok ())
    (hsus : ∀ i, ∃ k, jobSuspend w flowEnv status start result i = .ok k) : ∀ payloads (i : ℕ),
      ∃ jobs, pushJobs w flowEnv status start result i payloads = .ok jobs
  | [], _ => ⟨[], rfl⟩
  | payload :: payloads, i => by
    obtain ⟨jobs, hjobs⟩ := pushJobs_isOk hpush hsus payloads (i + 1)
    obtain ⟨k, hk⟩ := hsus i
    refine ⟨⟨w.newUuid i, start.module.id, payload, k⟩ :: jobs, ?_⟩
    exact bind_eq_ok.mpr ⟨(), hpush i, bind_eq_ok.mpr ⟨k, hk, bind_eq_ok.mpr ⟨jobs, hjobs, rfl⟩⟩⟩

lemma wide_pushed (n : ℕ) : ∃ db', pushNextFlowJob (.plain (.plain 1)) (wideFlow (n + 1)) none none
      (freshDb (wideFlow (n + 1))) = (db', .ok (.done none)) ∧ db'.queued.length = n + 1 ∧
    db'.queued.map QueuedJob.suspend = (range db'.queued.length).map (parallelismSuspend 1) := by
  let w : World := .plain (.plain 1)
  let flow := wideFlow (n + 1)
  let start : Start := ⟨.step 0 1, wideLoop (n + 1), .waitingForPriorSteps "a", "", false, "a"⟩
  let input := startInput flow none (.obj []) [] [] start (freshDb flow)
  let payloads := forloopPayloads w input [{ id := "b", value := .script }] none
    (replicate (n + 1) Json.null).length
  have hlen : payloads.length = n + 1 := by
    have h := @length_filterMap_of_isSome ℕ JobPayload _ true
      (range (replicate (n + 1) Json.null).length) fun k _ =>
        show (payloadFromModules [{ id := "b", value := .script }] none input.flow.failureModule
          input.flow.sameWorker (toString input.status.step ++ "-" ++ toString k)
          (w.flowJob.runnablePath ++ "/forloop-" ++ toString k) true).isSome = true from rfl
    rw [if_pos rfl] at h
    exact h.trans (by rw [length_range, length_replicate])
  have hne : payloads.isEmpty = false := by
    rw [isEmpty_eq_false_iff, ← length_pos_iff]
    omega
  obtain ⟨jobs, hjobs⟩ := @pushJobs_isOk w none (freshDb flow).status start (.obj []) (fun _ => rfl)
    (fun i => ⟨parallelismSuspend 1 i, rfl⟩) payloads 0
  obtain ⟨hcnt, hsus⟩ := pushJobs_ok hjobs
  have htrans : computeNextFlowTransform w input start.module start.statusModule false
      = .ok (.continue (.parallelJobs payloads) (.allFlowJobs none
          (some ⟨0, some (replicate (n + 1) .null),
            some (replicate (n + 1) Json.null).length⟩))) := by
    show (if payloads.isEmpty then _ else _) = _
    rw [hne]
    rfl
  have hcom : ∃ db', commitJobs w input start (.parallelJobs payloads) (.allFlowJobs none
      (some ⟨0, some (replicate (n + 1) .null), some (replicate (n + 1) Json.null).length⟩))
        (freshDb flow) = .ok db' ∧ db'.queued = jobs :=
    ⟨_, bind_eq_ok.mpr ⟨jobs, hjobs, bind_eq_ok.mpr ⟨_, rfl, rfl⟩⟩, rfl⟩
  obtain ⟨db', hcom, hqueued⟩ := hcom
  have hstart : startModule w flow none (.obj []) [] [] start (freshDb flow) =
      .ok (db', .done none) :=
    bind_eq_ok.mpr ⟨false, rfl,
      bind_eq_ok.mpr ⟨(), rfl, bind_eq_ok.mpr ⟨_, htrans, bind_eq_ok.mpr ⟨db', hcom, rfl⟩⟩⟩⟩
  have hpush : pushNextFlowJob w flow none none (freshDb flow) = (db', .ok (.done none)) := by
    show pushModule w flow none (.step 0 1) (.waitingForPriorSteps "a") (.obj []) [] []
      (freshDb flow) = _
    rw [pushModule, show chooseModule w flow none (.step 0 1) (.waitingForPriorSteps "a") (.obj [])
      (freshDb flow).status = .ok ((freshDb flow).status, start) from rfl]
    dsimp only
    rw [hstart]
  refine ⟨db', hpush, by rw [hqueued, hcnt]; exact hlen, ?_⟩
  rw [hqueued]
  refine ext_getElem (by simp) fun k h1 h2 => ?_
  have hk : k < jobs.length := by simpa using h1
  have := (hsus k _ (getElem?_eq_getElem hk)).2
  rw [Nat.zero_add] at this
  rw [getElem_map, getElem_map, getElem_range]
  exact (Except.ok.inj this).symm

/-- A loop of 65537 iterations and parallelism one starts with two iterations active. -/
theorem wide_loop_overrun : ∃ db',
    pushNextFlowJob (.plain (.plain 1)) (wideFlow 65537) none none (freshDb (wideFlow 65537))
        = (db', .ok (.done none)) ∧
      (∀ ctx, evaluateInputTransform (.plain (.plain 1)) (.static (.num "1"))
        ctx jsonU16 0 = .ok 1) ∧
      db'.queued.length = 65537 ∧ 1 < (active (.start db'.status db'.queued)).length := by
  obtain ⟨db', hpush, hlen, hsus⟩ := wide_pushed 65536
  refine ⟨db', hpush, fun _ => rfl, hlen, ?_⟩
  exact not_throttled_start (by decide) (by decide) hsus (by rw [hlen]; decide)

end Windmill.Flow.Throttle
