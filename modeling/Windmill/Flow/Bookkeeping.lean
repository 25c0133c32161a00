import Windmill.Flow.Restart
import Windmill.Flow.Run

/-! # The bookkeeping of loops and branches

The status of a loop or of a branch-all lists its child jobs and keeps two records with one entry
for each of them, and a counter that says which child runs. `Kept` is what holds of one module
status throughout, `Books` of a whole status, and `Lands` says that the position at which a handler
writes is there in the stored status.

A handler writes below `modules` also when the step counter points at the failure module or at the
preprocessor, so these must not be loops. -/

namespace Windmill.Flow.Bookkeeping

open Value Status Reads Completion Flow.Suspend Transform Push Places Resume Restart Run Lib.Except
  Lib.Run List
open Option

/-! ### One module status -/

def Vectors (jobs : List Uuid) (success : Option (List (Option Bool)))
    (duration : Option FlowJobsDuration) : Prop :=
  ∃ l d, success = some l ∧ duration = some d ∧ l.length = jobs.length ∧
    d.startedAt.length = jobs.length ∧ d.durationMs.length = jobs.length

def knownLen (it : FlowIterator) : Option ℕ :=
  match it.iteredLen with
  | some n => some n
  | none => it.itered.map List.length

def IsLoop (m : FlowModule) (parallel : Bool) : Prop :=
  match m.value with
  | .forloopFlow _ _ _ _ p _ => p.getD false = parallel
  | .whileloopFlow _ _ _ => parallel = false
  | _ => False

def IsBranchAll (m : FlowModule) (parallel : Bool) (len : ℕ) : Prop :=
  ∃ branches p, m.value = .branchAll branches p ∧ p.getD true = parallel ∧ 1 ≤ len ∧
    len = branches.length

/-- The counter of a running module: in a sequential loop or branch-all it is at the last child. -/
structure Running (module : Option FlowModule) (p : InProgress) : Prop where
  repeated : p.flowJobs.isSome → p.iterator.isSome ∨ p.branchall.isSome
  loop : ∀ it, p.iterator = some it → ∃ m jobs, module = some m ∧ p.flowJobs = some jobs ∧
    IsLoop m p.parallel ∧ (p.parallel = false → it.index + 1 = jobs.length ∧
      (p.whileLoop = false → ∀ n, knownLen it = some n → it.index < n))
  branchall : ∀ b, p.branchall = some b → ∃ m jobs, module = some m ∧ p.flowJobs = some jobs ∧
    IsBranchAll m p.parallel b.len ∧ (p.parallel = false → b.branch + 1 = jobs.length)

/-- **What holds of the status of a module.** -/
structure Kept (module : Option FlowModule) (m : FlowStatusModule) : Prop where
  vectors : ∀ jobs, m.flowJobs = some jobs → Vectors jobs m.flowJobsSuccess m.flowJobsDuration
  running : ∀ p, m = .inProgress p → Running module p

section Vectors

variable {jobs : List Uuid} {success : Option (List (Option Bool))}
  {duration : Option FlowJobsDuration}

lemma vectors_new (jobs : List Uuid) : Vectors jobs (some (replicate jobs.length none))
    (some (.new jobs.length)) :=
  ⟨_, _, rfl, rfl, length_replicate, length_replicate, length_replicate⟩

lemma Vectors.push (h : Vectors jobs success duration) (job : Uuid) :
    Vectors (jobs ++ [job]) (success.map fun l => l ++ [none])
    (duration.map FlowJobsDuration.pushNone) := by
  obtain ⟨l, d, rfl, rfl, hl, hs, hd⟩ := h
  refine ⟨_, _, rfl, rfl, ?_, ?_, ?_⟩
  · simp only [length_append, length_singleton, hl]
  · simp only [FlowJobsDuration.pushNone, length_append, length_singleton, hs]
  · simp only [FlowJobsDuration.pushNone, length_append, length_singleton, hd]

lemma Vectors.record {i : ℕ} (h : Vectors jobs success duration) (hi : i < jobs.length)
    (b : Option Bool) (value : Option FlowJobDuration) :
    Vectors jobs (success.map fun l => jsonbSetArr l i b)
    (duration.map fun d => d.jsonbSet i value) := by
  obtain ⟨l, d, rfl, rfl, hl, hs, hd⟩ := h
  refine ⟨_, _, rfl, rfl, ?_, ?_, ?_⟩
  · show (jsonbSetArr l i b).length = jobs.length
    rw [jsonbSetArr_natCast (by omega), length_set, hl]
  · show (jsonbSetArr d.startedAt i _).length = jobs.length
    rw [jsonbSetArr_natCast (by omega), length_set, hs]
  · show (jsonbSetArr d.durationMs i _).length = jobs.length
    rw [jsonbSetArr_natCast (by omega), length_set, hd]

lemma length_duration_set (d : FlowJobsDuration) (position : Option ℕ)
    (value : Option FlowJobDuration) :
    (d.set position value).startedAt.length = d.startedAt.length ∧
      (d.set position value).durationMs.length = d.durationMs.length := by
  unfold FlowJobsDuration.set
  split
  · split_ifs
    · exact ⟨length_set, length_set⟩
    · exact ⟨rfl, rfl⟩
  · exact ⟨rfl, rfl⟩

lemma Vectors.set (h : Vectors jobs success duration) (jobs' : List Uuid) (job : Uuid) (b : Bool)
    (value : Option FlowJobDuration) : Vectors jobs (recordSuccess success jobs' job b)
    (duration.map fun d => d.set (findFlowJobIndex jobs' job) value) := by
  obtain ⟨l, d, rfl, rfl, hl, hs, hd⟩ := h
  obtain ⟨hset, hset'⟩ := length_duration_set d (findFlowJobIndex jobs' job) value
  refine ⟨_, _, rfl, rfl, ?_, hset.trans hs, hset'.trans hd⟩
  dsimp only
  split
  · split_ifs
    · rw [length_set, hl]
    · exact hl
  · exact hl

lemma Vectors.take (h : Vectors jobs success duration) (n : ℕ) :
    Vectors (jobs.take n) (success.map (·.take n)) (duration.map (·.truncate n)) := by
  obtain ⟨l, d, rfl, rfl, hl, hs, hd⟩ := h
  refine ⟨_, _, rfl, rfl, ?_, ?_, ?_⟩
  · rw [length_take, length_take, hl]
  · simp only [FlowJobsDuration.truncate, length_take, hs]
  · simp only [FlowJobsDuration.truncate, length_take, hd]

end Vectors

/-! ### Statuses that keep their books wherever they stand -/

variable {jobs : List Uuid}

section Kept

variable {module module' : Option FlowModule} {m : FlowStatusModule}

lemma kept_of_not_running (hno : ∀ p, m ≠ .inProgress p)
    (h : ∀ jobs, m.flowJobs = some jobs → Vectors jobs m.flowJobsSuccess m.flowJobsDuration) :
    Kept module m :=
  ⟨h, fun p hp => absurd hp (hno p)⟩

lemma kept_of_isUnstarted (h : m.isUnstarted = true) : Kept module m := by
  cases m with
  | waitingForPriorSteps id | waitingForEvents id count job | waitingForExecutor id job =>
    exact ⟨fun _ h => (by cases h), fun _ h => (by cases h)⟩
  | _ => cases h

lemma Kept.setFailedRetries (h : Kept module m) (jobs : List Uuid) :
    Kept module (m.setFailedRetries jobs) := by
  cases m with
  | success s | failure f => exact ⟨h.vectors, fun _ hp => by cases hp⟩
  | _ => exact h

lemma Kept.setApprovers (h : Kept module m) (approvers : List Approval) :
    Kept module (m.setApprovers approvers) := by
  cases m with
  | success s => exact ⟨h.vectors, fun _ hp => by cases hp⟩
  | _ => exact h

def isRepeated (m : FlowModule) : Bool :=
  match m.value with
  | .forloopFlow _ _ _ _ _ _ => true
  | .whileloopFlow _ _ _ => true
  | .branchAll _ _ => true
  | _ => false

variable {parallel : Bool} {d : FlowModule}

lemma IsLoop.isRepeated (h : IsLoop d parallel) : isRepeated d = true := by
  unfold IsLoop at h
  unfold Bookkeeping.isRepeated
  cases hv : d.value with
  | forloopFlow _ _ _ _ _ _ => rfl
  | whileloopFlow _ _ _ => rfl
  | _ => simp only [hv] at h

lemma IsBranchAll.isRepeated {len : ℕ} (h : IsBranchAll d parallel len) : isRepeated d = true := by
  obtain ⟨branches, p, hv, -⟩ := h
  unfold Bookkeeping.isRepeated
  rw [hv]

lemma Running.exists_module {p} (h : Running module p) (hjobs : p.flowJobs = some jobs) :
    ∃ d, module = some d ∧ isRepeated d = true := by
  rcases h.repeated (by rw [hjobs]; rfl) with hi | hb
  · obtain ⟨it, hit⟩ := isSome_iff_exists.mp hi
    obtain ⟨d, _, hd, -, hloop, -⟩ := h.loop it hit
    exact ⟨d, hd, hloop.isRepeated⟩
  · obtain ⟨b, hb⟩ := isSome_iff_exists.mp hb
    obtain ⟨d, _, hd, -, hall, -⟩ := h.branchall b hb
    exact ⟨d, hd, hall.isRepeated⟩

lemma Kept.of_plain (h : Kept module m) (hplain : ∀ d, module = some d → isRepeated d = false) :
    Kept module' m := by
  refine ⟨h.vectors, fun p hp => ?_⟩
  have hrun := h.running p hp
  refine ⟨hrun.repeated, fun it hit => ?_, fun b hb => ?_⟩
  · obtain ⟨d, _, hd, -, hloop, -⟩ := hrun.loop it hit
    exact absurd hloop.isRepeated (by rw [hplain d hd]; decide)
  · obtain ⟨d, _, hd, -, hall, -⟩ := hrun.branchall b hb
    exact absurd hall.isRepeated (by rw [hplain d hd]; decide)

end Kept

/-! ### The push -/

def NextKept (module : FlowModule) : NextStatus → Prop
  | .nextLoopIteration n =>
    IsLoop module false ∧ Vectors n.flowJobs n.flowJobsSuccess n.flowJobsDuration ∧
      n.index = n.flowJobs.length ∧ (n.whileLoop = false → n.index < n.iteredLen)
  | .nextBranchStep n =>
    IsBranchAll module false n.status.len ∧
      Vectors n.flowJobs n.flowJobsSuccess n.flowJobsDuration ∧ n.status.branch = n.flowJobs.length
  | .allFlowJobs branchall iterator =>
    (iterator.isSome ∨ branchall.isSome) ∧ (iterator.isSome → IsLoop module true) ∧
      ∀ b, branchall = some b → IsBranchAll module true b.len
  | _ => True

variable {modules : List FlowModule} {node : Option FlowNodeId} {skip parallel : Option Bool}
  {payload : ContinuePayload} {next : NextStatus} {db db' : FlowDb} {early : EarlyStop}
  {tries i : ℕ} {r : Report}
  {m status module : FlowStatusModule} {parallelism : Option InputTransform} {s : Life}
  {iterator : InputTransform}
  {definition : FlowModule} {stored : FlowStatus} {counter : Counter}

section Transform

variable {w : World} {i : TransformInput} {module : FlowModule} {statusModule : FlowStatusModule}

lemma nextWhileloopStatus_kept (hvalue : module.value = .whileloopFlow modules node skip)
    (h : Kept (some module) statusModule) :
    NextKept module (.nextLoopIteration (nextWhileloopStatus statusModule)) := by
  have hloop : IsLoop module false := by rw [IsLoop, hvalue]
  have hfresh : NextKept module (.nextLoopIteration
      ⟨0, [], 0, [], some [], some (.new 0), ⟨0, .num "0"⟩, true⟩) :=
    ⟨hloop, vectors_new [], rfl, nofun⟩
  unfold nextWhileloopStatus
  cases statusModule with
  | inProgress p =>
    dsimp only
    cases hjobs : p.flowJobs with
    | none => exact hfresh
    | some jobs => exact ⟨hloop, h.vectors jobs hjobs, rfl, nofun⟩
  | _ => exact hfresh

section

variable (hvalue : module.value = .forloopFlow iterator modules node skip parallel parallelism)
include hvalue

lemma nextForloopStatus_kept {n} (h : Kept (some module) statusModule)
    (hnext : nextForloopStatus w i iterator (parallel.getD false) statusModule =
      .ok (.nextIteration n)) : NextKept module (.nextLoopIteration n) := by
  have hloop : ∀ b, parallel.getD false = b → IsLoop module b := fun b hb => by
    rw [IsLoop, hvalue]
    exact hb
  unfold nextForloopStatus at hnext
  split_ifs at hnext
  · obtain ⟨itered, -, hnext⟩ := bind_eq_ok.mp hnext
    cases itered with
    | nil => cases pure_eq_ok.mp hnext
    | cons first rest =>
      split_ifs at hnext with hpar
      · cases pure_eq_ok.mp hnext
      · cases pure_eq_ok.mp hnext
        exact ⟨hloop false (Bool.not_eq_true _ ▸ hpar), vectors_new [], rfl, fun _ =>
          Nat.succ_pos rest.length⟩
  cases statusModule with
  | inProgress p =>
    dsimp only at hnext
    unfold continueForloop at hnext
    split at hnext
    · rename_i it jobs hpar hit hjobs
      obtain ⟨itered, -, hnext⟩ := bind_eq_ok.mp hnext
      split at hnext
      · rename_i next hget
        cases pure_eq_ok.mp hnext
        obtain ⟨m, jobs', hm, hjobs', hisLoop, hidx⟩ := (h.running p rfl).loop it hit
        cases hm
        cases hjobs.symm.trans hjobs'
        -- the status is that of a sequential loop, as the module is one
        have hseq : p.parallel = false := by
          rw [IsLoop, hvalue] at hisLoop
          exact hisLoop.symm.trans hpar
        exact ⟨hloop false hpar, h.vectors jobs hjobs, (hidx hseq).1, fun _ =>
          (List.getElem?_eq_some_iff.mp hget).1⟩
      · cases hnext
    · cases hnext
  | _ => cases hnext

lemma forloopTransform_kept (h : Kept (some module) statusModule)
    (hnext : forloopTransform w i iterator modules node (parallel.getD false) statusModule
      = .ok (.continue payload next)) : NextKept module next := by
  obtain ⟨loop, hloop, hnext⟩ := bind_eq_ok.mp hnext
  cases loop with
  | emptyIterator => cases pure_eq_ok.mp hnext
  | nextIteration n =>
    obtain ⟨rfl, -⟩ := nextLoopIteration_ok hnext
    exact nextForloopStatus_kept hvalue h hloop
  | parallelIteration itered =>
    dsimp only at hnext
    split_ifs at hnext
    · cases pure_eq_ok.mp hnext
    cases pure_eq_ok.mp hnext
    refine ⟨.inl rfl, fun _ => ?_, nofun⟩
    rw [IsLoop, hvalue]
    rcases nextForloopStatus_ok hloop with he | ⟨hpar, -⟩ | ⟨_, he, -⟩
    · cases he
    · exact hpar
    · cases he

end

lemma branchAllTransform_kept {branches} (hvalue : module.value = .branchAll branches parallel)
    (h : Kept (some module) statusModule)
    (hnext : branchAllTransform w i branches (parallel.getD true) statusModule
      = .ok (.continue payload next)) : NextKept module next := by
  have hall : ∀ b, branches.isEmpty = false → parallel.getD true = b →
      IsBranchAll module b branches.length := fun b hne hb =>
    ⟨branches, parallel, hvalue, hb, length_pos_iff.mpr (isEmpty_eq_false_iff.mp hne), rfl⟩
  unfold branchAllTransform at hnext
  split_ifs at hnext with hun hemp hpar
  · cases hnext
  · dsimp only at hnext
    split_ifs at hnext
    · cases hnext
    · cases hnext
      refine ⟨.inr rfl, nofun, fun b hb => ?_⟩
      cases hb
      exact hall true (Bool.not_eq_true _ ▸ hemp) hpar
  · obtain ⟨rfl, -⟩ := nextBranchStep_ok hnext
    exact ⟨hall false (Bool.not_eq_true _ ▸ hemp) (Bool.not_eq_true _ ▸ hpar), vectors_new [], rfl⟩
  · cases statusModule with
    | inProgress p =>
      dsimp only at hnext
      split at hnext
      · rename_i b jobs hpar hb hjobs
        obtain ⟨rfl, -⟩ := nextBranchStep_ok hnext
        obtain ⟨m, jobs', hm, hjobs', ⟨branches', p', hv, hp', hlen⟩, hbr⟩ :=
          (h.running p rfl).branchall b hb
        cases hm
        cases hjobs.symm.trans hjobs'
        cases hvalue.symm.trans hv
        exact ⟨⟨branches, parallel, hvalue, hpar, hlen⟩, h.vectors jobs hjobs,
          hbr (hp'.symm.trans hpar)⟩
      · cases hnext
    | _ => cases hnext

lemma computeNextFlowTransform_kept {skipped : Bool} (h : Kept (some module) statusModule)
    (hnext : computeNextFlowTransform w i module statusModule skipped =
      .ok (.continue payload next)) : NextKept module next := by
  unfold computeNextFlowTransform at hnext
  split_ifs at hnext
  · cases hnext
    trivial
  split at hnext
  · cases hnext
    trivial
  · cases hnext
  · rename_i hvalue
    obtain ⟨rfl, -⟩ := nextLoopIteration_ok hnext
    exact nextWhileloopStatus_kept hvalue h
  · rename_i hvalue
    exact forloopTransform_kept hvalue h hnext
  · obtain ⟨_, _, -, rfl⟩ := branchOneTransform_ok hnext
    trivial
  · rename_i hvalue
    exact branchAllTransform_kept hvalue h hnext
  · obtain ⟨-, -, hnext⟩ := bind_eq_ok.mp hnext
    cases pure_eq_ok.mp hnext
    trivial

lemma newStatusModule_kept {id uuids table} (h : NextKept module next)
    (hm : newStatusModule w id next uuids = .ok (m, table)) : Kept (some module) m := by
  cases next with
  | nextStep =>
    obtain ⟨uuid, -, hm⟩ := bind_eq_ok.mp hm
    cases pure_eq_ok.mp hm
    exact kept_of_isUnstarted rfl
  | branchChosen b =>
    obtain ⟨uuid, -, hm⟩ := bind_eq_ok.mp hm
    cases pure_eq_ok.mp hm
    refine ⟨nofun, fun p hp => ?_⟩
    cases hp
    exact ⟨nofun, nofun, nofun⟩
  | nextLoopIteration n =>
    obtain ⟨uuid, -, hm⟩ := bind_eq_ok.mp hm
    obtain ⟨hloop, hvec, hidx, hlt⟩ := h
    have hlen : n.index + 1 = (n.flowJobs ++ [uuid]).length := by
      rw [length_append, length_singleton, hidx]
    cases pure_eq_ok.mp hm
    refine ⟨fun jobs hj => ?_, fun p hp => ?_⟩
    · cases hj
      exact hvec.push uuid
    cases hp
    refine ⟨fun _ => .inl rfl, fun it hit => ?_, nofun⟩
    cases hit
    refine ⟨module, _, rfl, rfl, hloop, fun _ => ⟨hlen, fun hw k hk => ?_⟩⟩
    cases hk
    exact hlt hw
  | nextBranchStep n =>
    obtain ⟨uuid, -, hm⟩ := bind_eq_ok.mp hm
    obtain ⟨hall, hvec, hbr⟩ := h
    have hlen : n.status.branch + 1 = (n.flowJobs ++ [uuid]).length := by
      rw [length_append, length_singleton, hbr]
    cases pure_eq_ok.mp hm
    refine ⟨fun jobs hj => ?_, fun p hp => ?_⟩
    · cases hj
      exact hvec.push uuid
    · cases hp
      refine ⟨fun _ => .inr rfl, nofun, fun b hb => ?_⟩
      cases hb
      exact ⟨module, _, rfl, rfl, hall, fun _ => hlen⟩
  | allFlowJobs branchall iterator =>
    obtain ⟨hsome, hloop, hall⟩ := h
    cases hm
    refine ⟨fun jobs hj => ?_, fun p hp => ?_⟩
    · cases hj
      exact vectors_new uuids
    cases hp
    refine ⟨fun _ => ?_, fun it hit => ?_, fun b hb => ?_⟩
    · rw [isSome_map]
      exact hsome
    · obtain ⟨it', hit', -⟩ := map_eq_some_iff.mp hit
      exact ⟨module, uuids, rfl, rfl, hloop (by rw [hit']; rfl), nofun⟩
    · exact ⟨module, uuids, rfl, rfl, hall b hb, nofun⟩

end Transform

/-! ### A whole status -/

structure Books (flow : FlowValue) (s : FlowStatus) : Prop where
  step : -1 ≤ s.step
  length : flow.modules.length ≤ s.modules.length
  places : ∀ ⦃ℓ : Place⦄ ⦃m : FlowStatusModule⦄, statusAt s ℓ = some m →
    Kept (flowModuleAt flow ℓ) m

/-- Neither the failure module nor the preprocessor is a loop or a branch-all. -/
def PlainHandlers (flow : FlowValue) : Prop :=
  ∀ m, flow.failureModule = some m ∨ flow.preprocessorModule = some m → isRepeated m = false

section Books

variable {flow : FlowValue} {s s' : FlowStatus}

lemma books_new (flow : FlowValue) : Books flow (.new flow) := by
  have hshape := shape_new flow
  refine ⟨hshape.step, hshape.length, fun ℓ m hm => ?_⟩
  obtain ⟨id, rfl⟩ := statusAt_new hm
  exact kept_of_isUnstarted rfl

lemma Books.congr (h : Books flow s) (hat : ∀ ℓ, statusAt s' ℓ = statusAt s ℓ)
    (hstep : -1 ≤ s'.step) (hlen : s.modules.length ≤ s'.modules.length) : Books flow s' :=
  ⟨hstep, h.length.trans hlen, AtPlaces.congr h.places hat⟩

lemma Books.puts {ℓ : Place} (h : Books flow s) (hputs : Puts s s' ℓ m)
    (hm : Kept (flowModuleAt flow ℓ) m) (hstep : -1 ≤ s'.step)
    (hlen : s.modules.length ≤ s'.modules.length) : Books flow s' :=
  ⟨hstep, h.length.trans hlen, AtPlaces.puts h.places hputs hm⟩

lemma Books.modify {i : ℤ} {f} (h : Books flow s)
    (hf : ∀ m module, moduleAt s i = some m → Kept module m → Kept module (f m)) :
    Books flow (s.modifyModule i f) :=
  ⟨by simpa using h.step, by simpa using h.length, AtPlaces.modify h.places fun _ m hm => hf m _ hm⟩

lemma Books.failure (h : Books flow s) : Kept flow.failureModule s.failureModule.moduleStatus :=
  h.places (show statusAt s .failure = _ from rfl)

lemma Books.statusModule {m} (h : Books flow s) (hplain : PlainHandlers flow)
    (hm : flowModuleAt flow (placeOf (Step.fromI32AndLen s.step flow.modules.length)) = some m) :
    Kept (some m) (statusModuleAt (Step.fromI32AndLen s.step flow.modules.length) s) := by
  cases hstep : Step.fromI32AndLen s.step flow.modules.length with
  | step i n =>
    obtain ⟨-, -, hlt⟩ := fromI32AndLen_eq_step.mp hstep
    have hget := getElem?_eq_getElem (hlt.trans_le h.length)
    rw [hstep] at hm
    rw [← hm]
    have hat : statusAt s (.module i) =
        some ((s.modules[i]?).getD s.failureModule.moduleStatus) := by
      show s.modules[i]? = _
      rw [hget]
      rfl
    exact h.places hat
  | preprocessorStep =>
    rw [hstep] at hm
    show Kept (some m) (s.preprocessorModule.getD s.failureModule.moduleStatus)
    cases hp : s.preprocessorModule with
    | none => exact h.failure.of_plain fun d hd => hplain d (.inl hd)
    | some m' =>
      rw [← hm]
      exact h.places (show statusAt s .preprocessor = some m' from hp)
  | failureStep =>
    rw [hstep] at hm
    rw [← hm]
    exact h.failure

/-! ### A push keeps the books -/

variable {w : World} {flowEnv : Option Args}

variable {statusModule : FlowStatusModule} {result : Json} {start : Start}

lemma Books.passed {table gate} (h : Books flow s) (hgate : gate.isPark = false)
    (hpass : suspendGate w flow flowEnv s statusModule result table = .ok (s', gate)) :
    Books flow s' := by
  have htr := suspendGate_tracks hgate hpass
  exact ⟨htr.step ▸ h.step, htr.length ▸ h.length,
    AtPlaces.passed h.places (fun _ _ approvers hm => hm.setApprovers approvers) hgate hpass⟩

lemma Books.chosen {step : Step}
    (h : Books flow s) (hch : Chosen w flow flowEnv step statusModule result s s' start) :
    Books flow s' := by
  have hplaces := AtPlaces.chosen h.places (fun _ _ jobs hm => hm.setFailedRetries jobs) hch
  cases hch with
  | module _ _ => exact h
  | retry _ _ _ | failureModule _ _ _ _ _ =>
    exact ⟨by simpa using h.step, by simpa using h.length, hplaces⟩

lemma Books.emptied (h : Books flow s) (id : String) (branch : Option BranchChosen) :
    Books flow (emptyInnerFlows s id branch) := by
  obtain ⟨j, hputs, -⟩ := @puts_setModule s s.step h.step (.success
    { id, job := nilUuid
      flowJobs := if branch.isSome then none else some []
      flowJobsSuccess := if branch.isSome then none else some []
      flowJobsDuration := if branch.isSome then none else some (.new 0)
      branchChosen := branch, approvers := [], failedRetries := [], skipped := false })
  refine h.puts hputs (kept_of_not_running (fun _ hp => by cases hp) fun jobs hjobs => ?_) h.step
    (length_le_setModule _ _ _)
  cases branch with
  | some b => cases hjobs
  | none =>
    cases hjobs
    exact vectors_new []

lemma Books.started {m} (h : Books flow s) (hmod : flowModuleAt flow (placeOf start.step) = some
    start.module) (hm : Kept (some start.module) m) : Books flow (writePushed flow start m s) :=
  h.puts (puts_writePushed (fun i n hstep => by
    rw [hstep] at hmod
    exact (List.getElem?_eq_some_iff.mp hmod).1.trans_le h.length) m) (hmod ▸ hm) step_writePushed
    length_le_writePushed

lemma Books.pushes {lastResult res} (h : Books flow db.status) (hplain : PlainHandlers flow)
    (hpush : Pushes w flow flowEnv lastResult db
    (Step.fromI32AndLen db.status.step flow.modules.length)
      (statusModuleAt (Step.fromI32AndLen db.status.step flow.modules.length) db.status) db' res) :
    Books flow db'.status := by
  cases hpush with
  | failed e | ended update => exact h
  | parked _ hgate =>
    obtain ⟨_, _, _, _, hputs, hstep, -, -, hlen, -⟩ := puts_park hgate
    exact h.puts hputs (kept_of_isUnstarted rfl) (hstep ▸ h.step) hlen
  | refused _ hgate | stuck _ hgate e => exact h.passed rfl hgate
  | chosen _ hgate hch e => exact (h.passed rfl hgate).chosen hch
  | @started status status' _ _ _ start _ _ _ hgate hch hstart =>
    have hgated : Books flow status := h.passed rfl hgate
    have hchose : Books flow status' := hgated.chosen hch
    obtain ⟨hmod, hst⟩ := chosen_place hch
    have hkept : Kept (some start.module) start.statusModule := by
      rcases hst with ⟨id, hwaits⟩ | ⟨hstep, hst⟩ | hst
      · rw [hwaits]
        exact kept_of_isUnstarted rfl
      · rw [hst]
        rw [hstep] at hmod
        exact h.statusModule hplain hmod
      · rw [← hmod]
        exact hgated.places hst
    obtain ⟨skipped, -, ⟨branch, -, rfl, -⟩ | ⟨payload, next, hnext, hcom, -⟩⟩ :=
      startModule_ok hstart
    · exact hchose.emptied _ _
    · obtain ⟨jobs, m, table, -, hm, rfl⟩ := commitJobs_ok hcom
      exact hchose.started hmod
        (newStatusModule_kept (computeNextFlowTransform_kept hkept hnext) hm)

end Books

/-! ### A handler keeps the books -/

lemma recordPosition_lt {success job} (h : recordPosition success jobs job = some i) :
    i < jobs.length := by
  unfold recordPosition findFlowJobIndex at h
  split_ifs at h
  exact (findIdx?_eq_some_iff_getElem.mp h).1

section Handler

variable {w : World} {flow : FlowValue} {old cur : FlowStatus} {p q : InProgress}
  {module module' : Option FlowModule}

variable {n : ℕ}

lemma Kept.record {position} (h : Kept module (.inProgress q)) (hjobs : q.flowJobs = some jobs)
    (hi : ∀ i, position = some i → i < jobs.length) (success : Bool)
    (duration : Option FlowJobDuration) :
    Kept module (.inProgress (recordChild q position success duration)) := by
  cases position with
  | none => exact h
  | some i =>
    refine ⟨fun jobs' hjobs' => ?_, fun p hp => ?_⟩
    · cases hjobs.symm.trans hjobs'
      exact (h.vectors jobs hjobs).record (hi i rfl) _ _
    · cases hp
      have hrun := h.running q rfl
      exact ⟨hrun.repeated, hrun.loop, hrun.branchall⟩

lemma Kept.bump (h : Kept module (.inProgress p)) (hpar : p.parallel = true)
    (hbump : bumpCounter p counter = some (q, n)) : Kept module (.inProgress q) := by
  have hrun := h.running p rfl
  have hno : p.parallel ≠ false := by rw [hpar]; decide
  cases counter with
  | iterator =>
    obtain ⟨it, hit, he⟩ := map_eq_some_iff.mp hbump
    cases he
    obtain ⟨d, jobs, hd, hjobs, hloop, -⟩ := hrun.loop it hit
    refine ⟨h.vectors, fun p' hp' => ?_⟩
    cases hp'
    refine ⟨fun _ => .inl rfl, fun it' _ =>
      ⟨d, jobs, hd, hjobs, hloop, fun hseq => absurd hseq hno⟩, hrun.branchall⟩
  | branchall =>
    obtain ⟨b, hb, he⟩ := map_eq_some_iff.mp hbump
    cases he
    obtain ⟨d, jobs, hd, hjobs, hall, -⟩ := hrun.branchall b hb
    refine ⟨h.vectors, fun p' hp' => ?_⟩
    cases hp'
    refine ⟨fun _ => .inr rfl, hrun.loop, fun b' hb' => ?_⟩
    cases hb'
    exact ⟨d, jobs, hd, hjobs, hall, fun hseq => absurd hseq hno⟩

lemma Books.position (h : Books flow old) (hplain : PlainHandlers flow)
    (hm : moduleStatus old = .ok (.inProgress p)) (hjobs : p.flowJobs = some jobs) :
    ∃ i : ℕ, old.step = i ∧ old.modules[i]? = some (.inProgress p) := by
  have hat := statusAt_of_moduleStatus hm
  obtain ⟨d, hd, hrep⟩ := ((h.places hat).running p rfl).exists_module hjobs
  cases hstep : old.moduleStep with
  | step i n =>
    rw [hstep] at hat
    exact ⟨i, (fromI32AndLen_eq_step.mp hstep).1, hat⟩
  | preprocessorStep =>
    rw [hstep] at hd
    simp [hplain d (.inr hd)] at hrep
  | failureStep =>
    rw [hstep] at hd
    simp [hplain d (.inl hd)] at hrep

lemma running_of_tracks (h : Tracks old cur) (hp : old.modules[i]? = some (.inProgress p)) :
    ∃ q, cur.modules[i]? = some (.inProgress q) ∧ q.flowJobs = p.flowJobs ∧
    q.parallel = p.parallel := by
  have hlt : i < cur.modules.length := by
    rw [h.length]
    exact (List.getElem?_eq_some_iff.mp hp).1
  have hget := getElem?_eq_getElem hlt
  have hsame := h.modules hp hget
  generalize cur.modules[i] = m at hget hsame
  cases hsame with
  | refl => exact ⟨p, hget, rfl, rfl⟩
  | inProgress hj _ _ hpar _ => exact ⟨_, hget, hj, hpar⟩

lemma Books.bumped {position success duration} (h : Books flow cur)
    (hq : cur.modules[i]? = some (.inProgress q)) (hpar : q.parallel = true)
    (hjobs : q.flowJobs = some jobs) (hi : ∀ k, position = some k → k < jobs.length)
    (hbump : bumpParallel cur i counter position success duration = .ok (stored, n)) :
    Books flow stored := by
  unfold bumpParallel at hbump
  rw [moduleAt_natCast, hq] at hbump
  dsimp only at hbump
  cases hb : bumpCounter (recordChild q position success duration) counter with
  | none => simp [hb] at hbump
  | some qn =>
    rw [hb] at hbump
    cases hbump
    refine h.modify fun m d hm hkept => ?_
    rw [moduleAt_natCast, hq] at hm
    cases hm
    refine (hkept.record hjobs hi success duration).bump ?_ hb
    cases position <;> exact hpar

lemma Books.recorded (h : Books flow cur) (hq : cur.modules[i]? = some (.inProgress q))
    (hsame : q.flowJobs = p.flowJobs) : Books flow (setSuccessInFlowJobs cur i p r) := by
  unfold setSuccessInFlowJobs
  cases hjobs : p.flowJobs with
  | none => exact h
  | some jobs =>
    dsimp only
    cases hpos : recordPosition p.flowJobsSuccess jobs r.jobIdForStatus with
    | none => exact h
    | some k =>
      refine h.modify fun m d hm hkept => ?_
      rw [moduleAt_natCast, hq] at hm
      cases hm
      refine hkept.record (hsame.trans hjobs) (fun k' hk' => ?_) _ _
      cases hk'
      exact recordPosition_lt hpos

lemma parallelJoin_kept (hread : moduleAt stored old.step = some (.inProgress q))
    (hvec : Vectors jobs q.flowJobsSuccess q.flowJobsDuration)
    (hm : (parallelJoin w flow old p jobs r early stored).newStatus = some m) : Kept module m := by
  have hset := hvec.set jobs r.jobIdForStatus r.success r.flowJobDuration
  unfold parallelJoin at hm
  rw [hread] at hm
  dsimp only at hm
  split_ifs at hm
  all_goals
    cases hm
    refine kept_of_not_running (fun _ hp => by cases hp) fun jobs' hjobs' => ?_
    cases hjobs'
    exact hset

lemma kept_of_ends {t} (h : Ends w flow old cur status r early t) (hst : Kept module' status)
    (hm : t.newStatus = some m) : Kept module m := by
  obtain ⟨hjobs, hsucc, hdur⟩ := h.records m hm
  refine kept_of_not_running (fun p hp => ?_) fun jobs hj => ?_
  · cases hs : t.success with
    | true =>
      obtain ⟨-, _, hnew, -⟩ := h.ok hs
      cases hm.symm.trans hnew
      cases hp
    | false =>
      obtain ⟨-, _, hnew, -⟩ := h.failed hs
      cases hm.symm.trans hnew
      cases hp
  · have hjobs' := hjobs.symm.trans hj
    rw [hsucc, hdur, endSuccesses, endDurations, hjobs']
    exact (hst.vectors jobs hjobs').set jobs _ _ _

/-- What the handler writes before it ends the module keeps the books, and so does the status with
which it ends it. -/
def CaseKept (flow : FlowValue) : ModuleCase → Prop
  | .nonLastParallelBranch stored _ => Books flow stored
  | .transition t => Books flow t.stored ∧ ∀ m, t.newStatus = some m → ∀ module, Kept module m

section

variable (hold : Books flow old) (hcur : Books flow cur) (htr : Tracks old cur)
  (hplain : PlainHandlers flow)
include hold hcur htr hplain

variable {c : ModuleCase}

lemma Books.parallelCase (hm : moduleStatus old = .ok (.inProgress p)) (hpar : p.parallel = true)
    (hjobs : p.flowJobs = some jobs)
    (hc : parallelCase w flow old cur p jobs r early = .ok c) : CaseKept flow c := by
  obtain ⟨i, hi, hget⟩ := hold.position hplain hm hjobs
  obtain ⟨q, hq, hqjobs, hqpar⟩ := running_of_tracks htr hget
  obtain ⟨counter, len, stored, nindex, -, hbump, rfl⟩ := parallelCase_ok hc
  have hstored : Books flow stored := by
    rw [hi] at hbump
    exact hcur.bumped hq (hqpar.trans hpar) (hqjobs.trans hjobs) (fun k => recordPosition_lt) hbump
  by_cases hlast : nindex = len
  · rw [if_pos hlast]
    refine ⟨hstored, fun m hnew module => ?_⟩
    obtain ⟨q', hq', hqjobs', -⟩ := running_of_tracks (tracks_bumpParallel hbump) hq
    have hat : statusAt stored (.module i) = some (.inProgress q') := hq'
    refine parallelJoin_kept (q := q') ?_ ((hstored.places hat).vectors jobs ?_) hnew
    · rw [hi, moduleAt_natCast, hq']
    · exact hqjobs'.trans (hqjobs.trans hjobs)
  · rw [if_neg hlast]
    exact hstored

lemma Books.goesOn (hm : moduleStatus old = .ok (.inProgress p)) :
    Books flow (setSuccessInFlowJobs cur old.step p r) := by
  cases hjobs : p.flowJobs with
  | none =>
    rw [setSuccessInFlowJobs, hjobs]
    exact hcur
  | some jobs =>
    obtain ⟨i, hi, hget⟩ := hold.position hplain hm hjobs
    obtain ⟨q, hq, hqjobs, -⟩ := running_of_tracks htr hget
    rw [hi]
    exact hcur.recorded hq hqjobs

lemma Books.moduleTransition (hm : moduleStatus old = .ok status)
    (hc : moduleTransition w flow old cur status r early = .ok c) : CaseKept flow c := by
  unfold Completion.moduleTransition at hc
  cases hcase : stepCase flow old status r early with
  | parallel p jobs =>
    rw [hcase] at hc
    obtain ⟨rfl, hpar, hjobs⟩ := stepCase_parallel hcase
    exact hold.parallelCase hcur htr hplain hm hpar hjobs hc
  | goesOn p =>
    rw [hcase] at hc
    cases hc
    obtain ⟨rfl, -, -⟩ := stepCase_goesOn hcase
    exact ⟨hold.goesOn hcur htr hplain hm, fun m hnew => by cases hnew⟩
  | ends =>
    rw [hcase] at hc
    obtain ⟨t, hend, rfl⟩ := map_eq_ok.mp hc
    have hends := endCase_ok hend
    exact ⟨hends.stored ▸ hcur, fun m hnew module =>
      kept_of_ends hends (hold.places (statusAt_of_moduleStatus hm)) hnew⟩

lemma Books.commit {c} (hup : updateStatus w flow old cur r = .ok (.committed c)) :
    Books flow c.status := by
  obtain ⟨status, early, hm, -, ht, -, hst⟩ := updateStatus_committed hup
  obtain ⟨hstored, hnew⟩ : CaseKept flow (.transition c.transition) :=
    hold.moduleTransition hcur htr hplain hm ht
  have hstep : -1 ≤ (commitTransition old c.transition).step := by
    rw [commitTransition_step]
    split_ifs
    · have := hold.step
      omega
    · exact hstored.step
  rw [hst]
  cases hm' : c.transition.newStatus with
  | none => exact hstored.congr (statusAt_commitTransition hm') hstep length_le_commitTransition
  | some m =>
    obtain ⟨ℓ, hputs, -⟩ := @exists_puts_commitTransition old c.transition m hm'
    exact hstored.puts hputs (hnew m hm' _) hstep length_le_commitTransition

end

/-- **A report keeps the books.** -/
theorem Books.handles {ctrl : Ctrl} (hold : Books flow old)
    (hcur : Books flow db.status) (htr : Tracks old db.status) (hplain : PlainHandlers flow)
    (h : Handles w flow old r tries db db' ctrl) : Books flow db'.status := by
  refine h.invariant hcur (fun hup => ?_) fun hup => hold.commit hcur htr hplain hup
  obtain ⟨status, early, hm, hc⟩ := updateStatus_counted hup
  exact hold.moduleTransition hcur htr hplain hm hc

def Lands (old cur : FlowStatus) : Prop :=
  ∀ p jobs job i, moduleStatus old = .ok (.inProgress p) → p.flowJobs = some jobs →
    recordPosition p.flowJobsSuccess jobs job = some i →
    ∃ q l d, moduleAt cur old.step = some (.inProgress q) ∧ q.flowJobsSuccess = some l ∧
      q.flowJobsDuration = some d ∧ i < l.length ∧ i < d.startedAt.length ∧ i < d.durationMs.length

lemma Books.lands (hold : Books flow old) (hcur : Books flow cur) (htr : Tracks old cur)
    (hplain : PlainHandlers flow) : Lands old cur := by
  intro p jobs job k hm hjobs hpos
  obtain ⟨i, hi, hget⟩ := hold.position hplain hm hjobs
  obtain ⟨q, hq, hqjobs, -⟩ := running_of_tracks htr hget
  have hat : statusAt cur (.module i) = some (.inProgress q) := hq
  obtain ⟨l, d, hl, hd, hlen, hs, hm⟩ := (hcur.places hat).vectors jobs (hqjobs.trans hjobs)
  have hk := recordPosition_lt hpos
  exact ⟨q, l, d, by rw [hi, moduleAt_natCast, hq], hl, hd, by omega, by omega, by omega⟩

end Handler

/-! ### Restarts -/

/-- What a restart may carry over: the modules of the flow in their order, or on another version,
none that still runs before the restart step; and inside of a step, no other step has its id and a
branch-all has branches. -/
structure Carried (old : List FlowStatusModule) (flow : FlowValue) (restartStepId : String)
  (n : Option ℕ)
    (versionChange : Bool) : Prop where
  aligned : versionChange = false → (knownModules old flow).map (fun m => m.1.id) =
    flow.modules.map FlowModule.id
  ended : versionChange = true → ∀ d ∈ flow.modules.takeWhile (fun d => d.id ≠ restartStepId),
    ∀ p, oldModule old d.id ≠ some (.inProgress p)
  single : (inside n).isSome → (oldModule old restartStepId).isSome →
    (flow.modules.map FlowModule.id).count restartStepId ≤ 1
  branches : ∀ definition branches parallel, (inside n).isSome →
    (oldModule old restartStepId).isSome →
    definitionOf flow restartStepId = some definition →
    definition.value = .branchAll branches parallel → branches ≠ []

section Restarts

variable {old : List FlowStatusModule} {flow : FlowValue} {restartStepId : String} {n : Option ℕ}
  {r : Resolution}

def OldVectors (old : List FlowStatusModule) : Prop :=
  ∀ m ∈ old, ∀ jobs, m.flowJobs = some jobs → Vectors jobs m.flowJobsSuccess m.flowJobsDuration

lemma Books.oldVectors {s} (h : Books flow s) : OldVectors s.modules := by
  intro m hm
  obtain ⟨i, hi, rfl⟩ := mem_iff_getElem.mp hm
  have hat : statusAt s (.module i) = some s.modules[i] := getElem?_eq_getElem hi
  exact (h.places hat).vectors

variable {k : ℕ}

lemma truncatedModule_kept {iterator branchall} (hjobs : module.flowJobs = some jobs)
    (hk : k < jobs.length) (hvec : Vectors jobs module.flowJobsSuccess module.flowJobsDuration)
    (hsome : iterator.isSome ∨ branchall.isSome)
    (hloop : ∀ it, iterator = some it → IsLoop definition false ∧ it.index + 1 = k ∧
    knownLen it = none) (hall : ∀ b, branchall = some b → IsBranchAll definition false b.len ∧
      b.branch + 1 = k) : Kept (some definition) (truncatedModule module k iterator branchall) := by
  have hlen : (jobs.take k).length = k := by
    rw [length_take]
    omega
  unfold truncatedModule
  rw [hjobs]
  refine ⟨fun jobs' hjobs' => ?_, fun p hp => ?_⟩
  · cases hjobs'
    exact hvec.take k
  cases hp
  refine ⟨fun _ => hsome, fun it hit => ?_, fun b hb => ?_⟩
  · obtain ⟨hisLoop, hidx, hknown⟩ := hloop it hit
    refine ⟨definition, _, rfl, rfl, hisLoop, fun _ => ⟨hidx.trans hlen.symm, fun _ m hm => ?_⟩⟩
    simp [hknown] at hm
  · obtain ⟨hisAll, hbr⟩ := hall b hb
    exact ⟨definition, _, rfl, rfl, hisAll, fun _ => hbr.trans hlen.symm⟩

lemma createRestartedModule_kept (hk : 1 ≤ k) (hvec : ∀ jobs, module.flowJobs = some jobs →
    Vectors jobs module.flowJobsSuccess module.flowJobsDuration)
    (hbrs : ∀ branches parallel, definition.value = .branchAll branches parallel → branches ≠ [])
    (h : createRestartedModule module definition k restartStepId = .ok m) :
    Kept (some definition) m := by
  obtain ⟨hlt, -⟩ := createRestartedModule_ok h
  obtain ⟨jobs, hjobs, hlen⟩ : ∃ jobs, module.flowJobs = some jobs ∧ k < jobs.length := by
    unfold jobCount at hlt
    cases hjobs : module.flowJobs with
    | none => simp [hjobs] at hlt
    | some jobs => rw [hjobs] at hlt; exact ⟨jobs, rfl, hlt⟩
  have hpred : k - 1 + 1 = k := by omega
  unfold createRestartedModule at h
  cases hvalue : definition.value with
  | branchAll branches parallel =>
    rw [hvalue] at h
    dsimp only at h
    split_ifs at h with hpar hcnt
    cases h
    refine truncatedModule_kept hjobs hlen (hvec jobs hjobs) (.inr rfl) nofun
      fun b hb => ?_
    cases hb
    exact ⟨⟨branches, parallel, hvalue, Bool.not_eq_true _ ▸ hpar,
      length_pos_iff.mpr (hbrs branches parallel hvalue), rfl⟩, hpred⟩
  | forloopFlow iterator modules node skip parallel parallelism =>
    rw [hvalue] at h
    dsimp only at h
    split_ifs at h with hpar hcnt
    cases h
    refine truncatedModule_kept hjobs hlen (hvec jobs hjobs) (.inl rfl) (fun it hit => ?_)
      nofun
    cases hit
    have hseq : parallel.getD false = false := Bool.not_eq_true _ ▸ hpar
    refine ⟨?_, hpred, rfl⟩
    rw [IsLoop, hvalue]
    exact hseq
  | _ =>
    rw [hvalue] at h
    cases h

def KeptModules (flow : FlowValue) (modules : List FlowStatusModule) : Prop :=
  modules.length = flow.modules.length ∧ ∀ (i : ℕ) m, modules[i]? = some m → Kept flow.modules[i]? m

lemma split_kept {α : Type} {idOf : α → String}
    {before restarted : α → Except Error FlowStatusModule}
    {items as bs : List α} {x : α} {earlier later : List FlowStatusModule}
    (h : Split idOf before restarted restartStepId items as x bs earlier m later)
    (hids : items.map idOf = flow.modules.map FlowModule.id)
    (hkind : ∀ b ∈ items, idOf b = restartStepId → ∀ m', restarted b = .ok m' →
      (m'.isWaitingForPriorSteps ↔ ¬Inside old restartStepId n))
    (hcr : ∀ k oldM definition, inside n = some k → oldModule old restartStepId = some oldM →
      definitionOf flow restartStepId = some definition →
      createRestartedModule oldM definition k restartStepId = .ok m)
    (hvec : OldVectors old) (hearlier : ∀ e ∈ earlier, ∀ module, Kept module e)
    {versionChange : Bool} (hok : Carried old flow restartStepId n versionChange) :
    KeptModules flow (earlier ++ m :: later) := by
  have hwaits : ∀ {m'}, m'.isWaitingForPriorSteps = true → ∀ module,
      Kept module m' := by
    intro m' hw module
    cases m' with
    | waitingForPriorSteps id => exact kept_of_isUnstarted rfl
    | _ => cases hw
  obtain ⟨htake, hdrop, hget⟩ := h.entries
  obtain ⟨hpos, hfirst, -⟩ := h.position
  have hlater := h.later_iff hkind
  rw [hids] at hpos hfirst hlater
  obtain ⟨definition, hdef, hdefOf⟩ := definitionOf_eq hpos hfirst
  refine ⟨h.length.trans (by simpa using congrArg List.length hids), fun i m' hm' => ?_⟩
  rcases lt_trichotomy i as.length with hlt | rfl | hgt
  · refine hearlier m' ?_ _
    rw [← htake]
    exact mem_of_getElem? (by rwa [getElem?_take_of_lt hlt])
  · cases hget.symm.trans hm'
    have hx := hkind x (by rw [h.eq]; simp) h.found m h.atStep
    by_cases hin : Inside old restartStepId n
    · obtain ⟨k, hk⟩ := isSome_iff_exists.mp hin.1
      obtain ⟨oldM, hold⟩ := isSome_iff_exists.mp hin.2
      rw [hdef]
      exact createRestartedModule_kept (inside_eq_some hk).2 (hvec oldM (mem_of_find?_eq_some hold))
        (fun branches parallel => hok.branches definition branches parallel hin.1 hin.2 hdefOf)
        (hcr k oldM definition hk hold hdefOf)
    · exact hwaits (hx.mpr hin) _
  · refine hwaits (hlater.mpr (fun hin => hok.single hin.1 hin.2) m' ?_) _
    rw [← hdrop]
    refine mem_of_getElem? (i := i - (as.length + 1)) ?_
    rw [getElem?_drop, ← hm']
    congr 1
    omega

lemma resolveNewVersion_kept (h : resolveNewVersion old flow restartStepId n = .ok r)
    (hr : r.dependentModule = true) (hvec : OldVectors old)
    (hok : Carried old flow restartStepId n true) : KeptModules flow r.truncatedModules := by
  obtain ⟨as, x, bs, earlier, m, later, hsplit, -, hmods⟩ := foldlM_split _ rfl hr h
  have hearlier : ∀ e ∈ earlier, ∀ module, Kept module e := by
    intro e he module
    obtain ⟨d, hd, hde⟩ := (mem_of_forall₂ hsplit.atEarlier).2 e he
    cases hold : oldModule old d.id with
    | none =>
      rw [hold] at hde
      cases hde
      exact kept_of_isUnstarted rfl
    | some oldM =>
      rw [hold] at hde
      cases hde
      refine kept_of_not_running (fun p hp => ?_) (hvec oldM (mem_of_find?_eq_some hold))
      refine hok.ended rfl d ?_ p (hp ▸ hold)
      rw [hsplit.eq, takeWhile_eq hsplit.first hsplit.found]
      exact hd
  rw [hmods]
  exact split_kept hsplit rfl (fun b _ hid m' h' => restartedNewModule_waits hid h')
    hsplit.created_new hvec hearlier hok

lemma resolveSameVersion_kept (h : resolveSameVersion old flow restartStepId n = .ok r)
    (hr : r.dependentModule = true) (hvec : OldVectors old)
    (hok : Carried old flow restartStepId n false) : KeptModules flow r.truncatedModules := by
  obtain ⟨as, x, bs, earlier, m, later, hsplit, -, hmods⟩ := foldlM_split _ rfl hr h
  have hold := oldModule_of_first hsplit.eq hsplit.first hsplit.found
  have hearlier : ∀ e ∈ earlier, ∀ module, Kept module e := by
    intro e he module
    obtain ⟨a, ha, hae⟩ := (mem_of_forall₂ hsplit.atEarlier).2 e he
    obtain ⟨rfl, hsucc⟩ := transferModule_ok hae
    have hknown : a ∈ knownModules old flow := hsplit.eq ▸ mem_append_left _ ha
    obtain ⟨m', hm', hma⟩ := mem_filterMap.mp hknown
    obtain ⟨d, -, rfl⟩ := map_eq_some_iff.mp hma
    refine kept_of_not_running (fun p hp => ?_) (hvec m' hm')
    rw [hp] at hsucc
    cases hsucc
  rw [hmods]
  exact split_kept hsplit (hok.aligned rfl)
    (fun b _ _ m' h' => restartedOldModule_waits (by rw [hold]; rfl) h')
    hsplit.created_old hvec hearlier hok

/-- **A restart keeps the books**, if it carries over only what fits the flow that is restarted. -/
theorem books_restarted {versions row status flowVersion res} (hst : row.flowStatus = some status)
    (hvec : OldVectors status.modules)
    (h : restartedFlowsResolution versions row restartStepId n flowVersion = .ok res)
    (hok : Carried status.modules res.flow restartStepId n (isVersionChange row flowVersion)) :
    Books res.flow (res.status restartStepId) := by
  have hmods : KeptModules res.flow res.modules := by
    obtain ⟨-, status', r, hst', hr, hdep, -, hmods⟩ := restartedFlowsResolution_ok h
    cases hst.symm.trans hst'
    rw [hmods]
    cases hchange : isVersionChange row flowVersion with
    | true =>
      rw [hchange] at hr hok
      exact resolveNewVersion_kept hr hdep hvec hok
    | false =>
      rw [hchange] at hr hok
      exact resolveSameVersion_kept hr hdep hvec hok
  refine ⟨?_, hmods.1.ge, fun ℓ m hm => ?_⟩
  · show -1 ≤ (res.stepN : ℤ)
    omega
  cases ℓ with
  | module i => exact hmods.2 i m hm
  | failure =>
    cases hm
    exact kept_of_isUnstarted rfl
  | preprocessor => cases hm

end Restarts

/-! ### A flow through its restarts -/

/-- A flow and its run. -/
structure Life where
  flow : FlowValue
  run : RunState
  /-- The statuses stored since the last push or the last end of a module: what a handler may have
  read. -/
  since : List FlowStatus

/-- A restart of the flow, with what the row of the completed flow says besides its status. -/
structure RestartRequest where
  scriptPath : Option String
  scriptHash : Option ℤ
  isFlow : Bool
  versions : ℤ → Except Error FlowValue
  stepId : String
  n : Option ℕ
  flowVersion : Option ℤ

inductive LifeAction where
  | pull
  | push (w : World)
  /-- A report to a handler that has read the status number `k`. -/
  | report (w : World) (k : ℕ) (r : Report)
  | again (w : World) (k : ℕ)
  | request (q : ResumeRequest) (info : FlowInfo)
  | restart (q : RestartRequest)

def Life.row (s : Life) (q : RestartRequest) : CompletedFlow where
  scriptPath := q.scriptPath
  scriptHash := q.scriptHash
  isFlow := q.isFlow
  flowStatus := some s.run.db.status
  flow := .ok s.flow

def onlyCounted (w : World) (flow : FlowValue) (old cur : FlowStatus) (r : Report) : Bool :=
  match updateStatus w flow old cur r with
  | .ok (.committed _) => false
  | _ => true

def Life.handled (s : Life) (w : World) (old : FlowStatus) (r : Report) (t : RunState) : Life :=
  { s with
    run := t
    since := if onlyCounted w s.flow old s.run.db.status r then s.since ++ [t.db.status]
      else [t.db.status] }

def Life.start (flow : FlowValue) : Life := ⟨flow, .start flow, [.new flow]⟩

def Life.restarted (r : RestartedFlow) (stepId : String) : Life where
  flow := r.flow
  run := { RunState.start r.flow with db := { freshDb r.flow with status := r.status stepId } }
  since := [r.status stepId]

/-- One action, if it is possible. -/
def lifeStep (s : Life) : LifeAction → Option Life
  | .pull => (runStep s.flow s.run .pull).map fun t => { s with run := t }
  | .push w => (runStep s.flow s.run (.push w)).map fun t =>
      { s with run := t, since := [t.db.status] }
  | .report w k r => match s.since[k]? with
    | some old => (runStep s.flow s.run (.report w old r)).map (s.handled w old r)
    | none => none
  | .again w k => match s.since[k]?, s.run.ctrl with
    | some old, .retrying r _ => (runStep s.flow s.run (.again w old)).map (s.handled w old r)
    | _, _ => none
  | .request q info => (runStep s.flow s.run (.request q info)).map fun t => { s with run := t }
  | .restart q => match restartedFlowsResolution q.versions (s.row q)
      q.stepId q.n q.flowVersion with
    | .ok r => some (.restarted r q.stepId)
    | .error _ => none

/-- Each restart carries over only what fits the flow that is restarted, whose failure module and
preprocessor are no loops. -/
def CarriesOver (s : Life) : LifeAction → Prop
  | .restart q => ∀ flow, restartedFlow q.versions (s.row q) q.flowVersion = .ok flow →
      Carried s.run.db.status.modules flow q.stepId q.n (isVersionChange (s.row q) q.flowVersion) ∧
      PlainHandlers flow
  | _ => True

/-- **The bookkeeping invariant**: the stored status keeps its books, so do the statuses that
handlers have read, and what these write lands. -/
structure Consistent (s : Life) : Prop where
  stored : Books s.flow s.run.db.status
  reads : ∀ old ∈ s.since, Books s.flow old ∧ Lands old s.run.db.status

structure LifeInv (s : Life) : Prop where
  plain : PlainHandlers s.flow
  stored : Books s.flow s.run.db.status
  reads : ∀ old ∈ s.since, Books s.flow old ∧ Tracks old s.run.db.status

lemma lifeInv_single (hplain : PlainHandlers s.flow) (hstored : Books s.flow s.run.db.status)
    (hsince : s.since = [s.run.db.status]) : LifeInv s := by
  refine ⟨hplain, hstored, fun old hold => ?_⟩
  rw [hsince] at hold
  cases mem_singleton.mp hold
  exact ⟨hstored, Tracks.refl _⟩

variable {old : FlowStatus} {w : World}

lemma tracks_of_onlyCounted {flow ctrl} (h : Handles w flow old r tries db db' ctrl)
    (hcnt : onlyCounted w flow old db.status r = true) : Tracks db.status db'.status := by
  unfold onlyCounted at hcnt
  cases h with
  | rolledBack e => exact Tracks.refl _
  | counted hup => exact (updateStatus_nonLastParallelBranch hup).1
  | preprocessed hup _ _ | stuck hup _ _ | ended hup | goesOn hup _ => simp [hup] at hcnt

lemma LifeInv.handled (h : LifeInv s)
    (hold : old ∈ s.since) : LifeInv (s.handled w old r (reported w s.flow old r tries s.run)) := by
  have hhandle := handleReport_handles w s.flow old r tries s.run.db
  obtain ⟨hbooks, htr⟩ := h.reads old hold
  have hstored : Books s.flow (handleReport w s.flow old r tries s.run.db).1.status :=
    hbooks.handles h.stored htr h.plain hhandle
  unfold Life.handled
  by_cases hcnt : onlyCounted w s.flow old s.run.db.status r = true
  · rw [if_pos hcnt]
    have hkeep := tracks_of_onlyCounted hhandle hcnt
    refine ⟨h.plain, hstored, fun o ho => ?_⟩
    rcases mem_append.mp ho with ho | ho
    · exact ⟨(h.reads o ho).1, (h.reads o ho).2.trans hkeep⟩
    · cases mem_singleton.mp ho
      exact ⟨hstored, Tracks.refl _⟩
  · rw [if_neg hcnt]
    exact lifeInv_single h.plain hstored rfl

lemma lifeInv_step {t a} (h : LifeInv s) (hC : CarriesOver s a) (hstep : lifeStep s a = some t) :
    LifeInv t := by
  cases a with
  | pull =>
    obtain ⟨u, hu, rfl⟩ := map_eq_some_iff.mp hstep
    cases runStep_steps hu
    exact ⟨h.plain, h.stored, h.reads⟩
  | push w =>
    obtain ⟨u, hu, rfl⟩ := map_eq_some_iff.mp hstep
    cases runStep_steps hu with
    | push hctrl =>
      exact lifeInv_single h.plain (h.stored.pushes h.plain (pushNextFlowJob_pushes _ _)) rfl
  | report w k r =>
    unfold lifeStep at hstep
    dsimp only at hstep
    cases hk : s.since[k]? with
    | none => simp [hk] at hstep
    | some old =>
      rw [hk] at hstep
      obtain ⟨u, hu, rfl⟩ := map_eq_some_iff.mp hstep
      cases runStep_steps hu with
      | report hctrl => exact h.handled (mem_of_getElem? hk)
  | again w k =>
    unfold lifeStep at hstep
    dsimp only at hstep
    split at hstep
    · rename_i old r tries hk hctrl
      obtain ⟨u, hu, rfl⟩ := map_eq_some_iff.mp hstep
      cases runStep_steps hu with
      | again hctrl' =>
        cases hctrl.symm.trans hctrl'
        exact h.handled (mem_of_getElem? hk)
    · cases hstep
  | request q info =>
    obtain ⟨u, hu, rfl⟩ := map_eq_some_iff.mp hstep
    cases runStep_steps hu with
    | request hnew => exact ⟨h.plain, h.stored, h.reads⟩
  | restart q =>
    unfold lifeStep at hstep
    dsimp only at hstep
    split at hstep
    · rename_i r hr
      cases hstep
      obtain ⟨hcarried, hplain⟩ := hC r.flow (restartedFlowsResolution_ok hr).1
      exact lifeInv_single hplain (books_restarted rfl h.stored.oldVectors hr hcarried) rfl
    · cases hstep

/-- **The books are kept in every run**, if the failure module and the preprocessor are no loops and
each restart carries over only what fits the flow that is restarted. -/
theorem bookkeeping_kept {flow : FlowValue} {as : List LifeAction} {s : Life}
    (hplain : PlainHandlers flow) (hmeets : Meets lifeStep CarriesOver as (.start flow))
    (hrun : run lifeStep as (.start flow) = some s) : Consistent s := by
  have h := run_invariant lifeInv_step (lifeInv_single hplain (books_new flow) rfl) hmeets hrun
  refine ⟨h.stored, fun old hold => ?_⟩
  obtain ⟨hbooks, htrack⟩ := h.reads old hold
  exact ⟨hbooks, hbooks.lands h.stored htrack h.plain⟩

def branchesFlow : FlowValue where
  modules :=
    [{ id := "b"
       value := .branchAll
         [{ expr := "", modules := [{ id := "c", value := .script }] },
          { expr := "", modules := [{ id := "d", value := .script }] }]
         (some false) }]

def emptiedFlow : FlowValue where
  modules := [{ id := "b", value := .branchAll [] (some false) }]

def drawing (id : Uuid) : World := { World.plain (.plain 1) with newUuid := fun _ => id }

def restartedRun (versions : ℤ → Except Error FlowValue) (flowVersion : Option ℤ) :
    List LifeAction :=
  [.pull, .push (drawing 11),
   .report (drawing 11) 0 { jobIdForStatus := 11, success := true, result := .null },
   .push (drawing 12),
   .restart ⟨some "f/flow", some 1, true, versions, "b", some 1, flowVersion⟩]

def restartedBranches (branches : ℕ) : FlowStatusModule :=
  .inProgress
    { id := "b", job := 11, iterator := none, flowJobs := some [11]
      flowJobsSuccess := some [some true], flowJobsDuration := some ⟨[none], [none]⟩
      branchChosen := none, branchall := some ⟨0, branches⟩, parallel := false, whileLoop := false }

def restartedLife (version : ℤ) (flow : FlowValue) (branches : ℕ) : Life :=
  .restarted ⟨some version, some "f/flow", flow, 0, [restartedBranches branches]⟩ "b"

lemma plainHandlers_branchesFlow : PlainHandlers branchesFlow := by rintro m (hm | hm) <;> cases hm

theorem branches_restarted :
    ∃ s, run lifeStep (restartedRun (fun _ => .ok branchesFlow) none) (.start branchesFlow) =
      some s ∧ Consistent s := by
  have hrun : run lifeStep (restartedRun (fun _ => .ok branchesFlow) none) (.start branchesFlow)
      = some (restartedLife 1 branchesFlow 2) := rfl
  refine ⟨_, hrun, bookkeeping_kept plainHandlers_branchesFlow ?_ hrun⟩
  refine meets_cons trivial rfl
    (meets_cons trivial rfl (meets_cons trivial rfl (meets_cons trivial rfl
    (meets_cons ?_ rfl trivial))))
  intro flow hflow
  cases hflow
  refine ⟨⟨fun _ => rfl, nofun, fun _ _ => (by decide), ?_⟩,
    plainHandlers_branchesFlow⟩
  intro definition branches parallel _ _ hdef hvalue
  cases hdef
  cases hvalue
  exact cons_ne_nil _ _

theorem restarted_without_branches :
    ∃ s, run lifeStep (restartedRun (fun _ => .ok emptiedFlow) (some 2)) (.start branchesFlow) =
      some s ∧ ¬Consistent s := by
  refine ⟨restartedLife 2 emptiedFlow 0, rfl, fun h => ?_⟩
  have hat : statusAt (restartedLife 2 emptiedFlow 0).run.db.status (.module 0)
      = some (restartedBranches 0) := rfl
  obtain ⟨_, _, -, -, ⟨_, _, -, -, hpos, -⟩, -⟩ :=
    ((h.stored.places hat).running _ rfl).branchall ⟨0, 0⟩ rfl
  cases hpos

end Windmill.Flow.Bookkeeping
