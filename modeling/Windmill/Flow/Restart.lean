import Windmill.Flow.Push

/-! # Restarting a flow

`restarted_flows_resolution` (`windmill-queue/src/jobs.rs`) computes from the status of a completed
flow the status with which a restart at one of its steps begins. For the version of the flow that
was run, it refuses to carry over a module that did not succeed; for another version, it carries
over what the old status has under the same id, whatever its state. `create_restarted_module` cuts a
loop or a branch-all back to its first jobs. -/

namespace Windmill.Flow.Restart

open Value Status Reads Transform Push Lib.Except List Option

/-! ### The restarted module -/

variable (module : FlowStatusModule)

/-- A running module with the first `n` jobs of an old one. -/
def truncatedModule (n : ℕ) (iterator : Option FlowIterator) (branchall : Option BranchAllStatus) :
    FlowStatusModule :=
  let newFlowJobs := (module.flowJobs.getD []).take n
  .inProgress
    { id := module.id
      job := newFlowJobs.getLastD nilUuid
      iterator
      flowJobs := some newFlowJobs
      flowJobsSuccess := module.flowJobsSuccess.map (·.take n)
      flowJobsDuration := module.flowJobsDuration.map (·.truncate n)
      branchChosen := none
      branchall
      parallel := false
      whileLoop := false }

def jobCount : ℕ := (module.flowJobs.map List.length).getD 0

variable (definition : FlowModule)

def createRestartedModule (n : ℕ) (restartStepId : String) : Except Error FlowStatusModule :=
  match definition.value with
  | .branchAll branches parallel =>
    if parallel.getD true then
      .error ⟨"Module " ++ restartStepId ++
        " is a parallel branchall. It can only be restarted at a " ++
        "given branch if it's sequential"⟩
    else if jobCount module ≤ n then
      .error ⟨"Branch-all module " ++ restartStepId ++ " has only " ++ toString (jobCount module) ++
        " branches. It can't be restarted on branch " ++ toString n⟩
    else .ok (truncatedModule module n none (some ⟨n - 1, branches.length⟩))
  | .forloopFlow _ _ _ _ parallel _ =>
    if parallel.getD false then
      .error ⟨"Module " ++ restartStepId ++
        " is not parallel loop. It can only be restarted at a given " ++
        "iteration if it's sequential"⟩
    else if jobCount module ≤ n then
      .error ⟨"For-loop module " ++ restartStepId ++
        " doesn't cannot be restarted on iteration number " ++
        toString n ++ " as it has only " ++ toString (jobCount module) ++ " iterations"⟩
    else .ok (truncatedModule module n (some ⟨n - 1, none, none⟩) none)
  | _ => .error ⟨"Module " ++ restartStepId ++
      " is not a branchall or forloop, unable to restart it at step " ++ toString n⟩

/-! ### The resolution -/

structure Resolution where
  stepN : ℕ := 0
  dependentModule : Bool := false
  truncatedModules : List FlowStatusModule := []

def Resolution.push (r : Resolution) (m : FlowStatusModule) : Resolution :=
  { r with truncatedModules := r.truncatedModules ++ [m] }

/-- One turn of the loop over the modules, which both versions of it share: the restart step gets
the entry `restarted`, a step after it waits, and a step before it gets the entry `before` and is
counted. -/
def visit {α : Type} (idOf : α → String) (before restarted : α → Except Error FlowStatusModule)
    (restartStepId : String) (r : Resolution) (a : α) : Except Error Resolution :=
  if idOf a = restartStepId then do
    let m ← restarted a
    return { r.push m with dependentModule := true }
  else if r.dependentModule then .ok (r.push (.waitingForPriorSteps (idOf a)))
  else do
    let m ← before a
    return { r.push m with stepN := r.stepN + 1 }

def inside (n : Option ℕ) : Option ℕ := n.filter (0 < ·)

variable (old : List FlowStatusModule)

def oldModule (id : String) : Option FlowStatusModule := old.find? fun m => m.id == id

variable (flow : FlowValue)

def definitionOf (id : String) : Option FlowModule := flow.modules.find? fun m => m.id == id

variable (restartStepId : String)

def restartedNewModule (n : Option ℕ) (definition : FlowModule) : Except Error FlowStatusModule :=
  match inside n, oldModule old definition.id with
  | some k, some m => createRestartedModule m definition k restartStepId
  | _, _ => .ok (.waitingForPriorSteps definition.id)

def resolveNewVersion (n : Option ℕ) : Except Error Resolution :=
  flow.modules.foldlM (visit FlowModule.id
    (fun definition => .ok ((oldModule old definition.id).getD
      (.waitingForPriorSteps definition.id)))
    (restartedNewModule old restartStepId n) restartStepId) {}

variable (m : FlowStatusModule)

def transferModule : Except Error FlowStatusModule :=
  if m.isSuccess then .ok m else .error ⟨"Flow cannot be restarted from a non successful module"⟩

def knownModules : List (FlowStatusModule × FlowModule) :=
  old.filterMap fun m => (definitionOf flow m.id).map fun definition => (m, definition)

def restartedOldModule (n : Option ℕ) (m : FlowStatusModule × FlowModule) :
    Except Error FlowStatusModule :=
  match inside n with
  | some k => createRestartedModule m.1 m.2 k restartStepId
  | none => .ok (.waitingForPriorSteps m.1.id)

def resolveSameVersion (n : Option ℕ) : Except Error Resolution :=
  (knownModules old flow).foldlM (visit (fun m => m.1.id) (fun m => transferModule m.1)
    (restartedOldModule restartStepId n) restartStepId) {}

def resolve (versionChange : Bool) (old : List FlowStatusModule) (flow : FlowValue)
    (restartStepId : String) (n : Option ℕ) : Except Error Resolution :=
  if versionChange then resolveNewVersion old flow restartStepId n
  else resolveSameVersion old flow restartStepId n

structure CompletedFlow where
  scriptPath : Option String
  scriptHash : Option ℤ
  isFlow : Bool
  flowStatus : Option FlowStatus
  flow : Except Error FlowValue

structure RestartedFlow where
  version : Option ℤ
  flowPath : Option String
  flow : FlowValue
  stepN : ℕ
  modules : List FlowStatusModule

def isVersionChange (row : CompletedFlow) (flowVersion : Option ℤ) : Bool :=
  flowVersion.isSome && row.scriptHash.isSome && flowVersion != row.scriptHash && row.isFlow

def restartedFlow (versions : ℤ → Except Error FlowValue) (row : CompletedFlow)
    (flowVersion : Option ℤ) : Except Error FlowValue :=
  match isVersionChange row flowVersion, flowVersion with
  | true, some version => versions version
  | _, _ => row.flow

/-- `restarted_flows_resolution`: the step from which a flow is run again. -/
def restartedFlowsResolution (versions : ℤ → Except Error FlowValue) (row : CompletedFlow)
    (restartStepId : String) (n : Option ℕ) (flowVersion : Option ℤ) : Except Error RestartedFlow :=
  do
  let flow ← restartedFlow versions row flowVersion
  match row.flowStatus with
  | none => throw ⟨"Unable to parse flow status"⟩
  | some status =>
    let r ← resolve (isVersionChange row flowVersion) status.modules flow restartStepId n
    if r.dependentModule then
      return { version := if isVersionChange row flowVersion then flowVersion else row.scriptHash
               flowPath := row.scriptPath, flow, stepN := r.stepN, modules := r.truncatedModules }
    else throw ⟨"Flow cannot be restarted from step " ++ restartStepId ++
      " as it could not be found."⟩

def RestartedFlow.status (r : RestartedFlow) (stepId : String) : FlowStatus where
  step := r.stepN
  modules := r.modules
  failureModule := ⟨none, .waitingForPriorSteps "failure"⟩
  preprocessorModule := none
  retry := .default
  approvalConditions := none
  restartedFrom := some ⟨stepId⟩

/-! ### The loop over the modules -/

section Loop

variable {α : Type} {idOf : α → String} {before restarted : α → Except Error FlowStatusModule}
  {restartStepId : String} {items as bs : List α} {x : α} {earlier later : List FlowStatusModule}
  {m : FlowStatusModule}

def After (idOf : α → String) (restarted : α → Except Error FlowStatusModule)
    (restartStepId : String) (a : α) (m : FlowStatusModule) : Prop :=
  if idOf a = restartStepId then restarted a = .ok m else m = .waitingForPriorSteps (idOf a)

lemma visit_dependent {s r a} (hs : s.dependentModule = true)
    (h : visit idOf before restarted restartStepId s a = .ok r) :
    r.stepN = s.stepN ∧ r.dependentModule = true ∧
      ∃ m, r.truncatedModules = s.truncatedModules ++ [m] ∧
      After idOf restarted restartStepId a m := by
  unfold visit at h
  by_cases hid : idOf a = restartStepId
  · rw [if_pos hid] at h
    obtain ⟨m, hm, h⟩ := bind_eq_ok.mp h
    cases pure_eq_ok.mp h
    exact ⟨rfl, rfl, m, rfl, by rwa [After, if_pos hid]⟩
  · rw [if_neg hid, if_pos hs] at h
    cases h
    exact ⟨rfl, hs, _, rfl, by rw [After, if_neg hid]⟩

lemma foldlM_dependent : ∀ items {s r}, s.dependentModule = true →
      items.foldlM (visit idOf before restarted restartStepId) s = .ok r →
        r.stepN = s.stepN ∧ r.dependentModule = true ∧ ∃ later,
        r.truncatedModules = s.truncatedModules ++ later ∧
            List.Forall₂ (After idOf restarted restartStepId) items later
  | [], s, r, hs, h => by
    cases pure_eq_ok.mp h
    exact ⟨rfl, hs, [], (append_nil _).symm, .nil⟩
  | a :: items, s, r, hs, h => by
    obtain ⟨s₁, hs₁, h⟩ := bind_eq_ok.mp h
    obtain ⟨hstep, hdep, m, hm, hafter⟩ := visit_dependent hs hs₁
    obtain ⟨hstep', hdep', later, hlater, hall⟩ := foldlM_dependent items hdep h
    refine ⟨hstep'.trans hstep, hdep', m :: later, ?_, .cons hafter hall⟩
    rw [hlater, hm, append_assoc]
    rfl

/-- What the loop gives when it finds the restart step: the entries before it, its own and those
after it. -/
structure Split (idOf : α → String) (before restarted : α → Except Error FlowStatusModule)
    (restartStepId : String) (items : List α) (as : List α) (x : α) (bs : List α)
    (earlier : List FlowStatusModule) (m : FlowStatusModule) (later : List FlowStatusModule) :
    Prop where
  eq : items = as ++ x :: bs
  first : ∀ a ∈ as, idOf a ≠ restartStepId
  found : idOf x = restartStepId
  atEarlier : List.Forall₂ (fun a m => before a = .ok m) as earlier
  atStep : restarted x = .ok m
  atLater : List.Forall₂ (After idOf restarted restartStepId) bs later

lemma foldlM_split : ∀ items {s r}, s.dependentModule = false → r.dependentModule = true →
      items.foldlM (visit idOf before restarted restartStepId) s = .ok r →
      ∃ as x bs earlier m later,
          Split idOf before restarted restartStepId items as x bs earlier m later ∧
          r.stepN = s.stepN + as.length ∧
            r.truncatedModules = s.truncatedModules ++ (earlier ++ m :: later)
  | [], s, r, hs, hr, h => by
    cases pure_eq_ok.mp h
    simp [hs] at hr
  | a :: items, s, r, hs, hr, h => by
    obtain ⟨s₁, hs₁, h⟩ := bind_eq_ok.mp h
    unfold visit at hs₁
    by_cases hid : idOf a = restartStepId
    · rw [if_pos hid] at hs₁
      obtain ⟨m, hm, hs₁⟩ := bind_eq_ok.mp hs₁
      cases pure_eq_ok.mp hs₁
      obtain ⟨hstep, -, later, hlater, hall⟩ := foldlM_dependent items rfl h
      refine ⟨[], a, items, [], m, later, ⟨rfl, nofun, hid, .nil, hm, hall⟩,
        hstep, ?_⟩
      rw [hlater, Resolution.push, append_assoc]
      rfl
    rw [if_neg hid, if_neg (by rw [hs]; exact Bool.false_ne_true)] at hs₁
    obtain ⟨e, he, hs₁⟩ := bind_eq_ok.mp hs₁
    cases pure_eq_ok.mp hs₁
    have hs' : ({ s.push e with stepN := s.stepN + 1 } : Resolution).dependentModule = false := hs
    obtain ⟨as, x, bs, earlier, m, later, hsplit, hstep, hmods⟩ := foldlM_split items hs' hr h
    refine ⟨a :: as, x, bs, e :: earlier, m, later,
      ⟨by rw [hsplit.eq]; rfl, ?_, hsplit.found, .cons he hsplit.atEarlier, hsplit.atStep,
        hsplit.atLater⟩, ?_, ?_⟩
    · intro b hb
      rcases mem_cons.mp hb with rfl | hb
      · exact hid
      · exact hsplit.first b hb
    · have hlen : r.stepN = s.stepN + 1 + as.length := hstep
      rw [length_cons]
      omega
    · rw [hmods]
      exact append_assoc _ _ _

lemma After.id {a : α} (h : After idOf restarted restartStepId a m)
    (hrestarted : restarted a = .ok m → m.id = idOf a) : m.id = idOf a := by
  unfold After at h
  split_ifs at h
  · exact hrestarted h
  · rw [h]
    rfl

lemma map_eq_of_forall₂ {R : α → FlowStatusModule → Prop} (h : List.Forall₂ R as earlier)
    (hR : ∀ a m, R a m → m.id = idOf a) : earlier.map FlowStatusModule.id = as.map idOf := by
  induction h with
  | nil => rfl
  | cons he _ ih => rw [map_cons, map_cons, hR _ _ he, ih]

section

variable (h : Split idOf before restarted restartStepId items as x bs earlier m later)

include h

lemma Split.map_id (hbefore : ∀ a m, before a = .ok m → m.id = idOf a)
    (hrestarted : ∀ a m, restarted a = .ok m → m.id = idOf a) :
    (earlier ++ m :: later).map FlowStatusModule.id = items.map idOf := by
  rw [h.eq, map_append, map_append, map_cons, map_cons, map_eq_of_forall₂ h.atEarlier hbefore,
    map_eq_of_forall₂ h.atLater fun a m ha => ha.id (hrestarted a m), hrestarted _ _ h.atStep]

lemma Split.length : (earlier ++ m :: later).length = items.length := by
  rw [h.eq, length_append, length_append, length_cons, length_cons, h.atEarlier.length_eq,
    h.atLater.length_eq]

end

end Loop

/-! ### How the worker goes on -/

def placeOf : NextStatus → Option ℕ
  | .nextLoopIteration next => some next.index
  | .nextBranchStep next => some next.status.branch
  | _ => none

def SamePlace (m' : FlowStatusModule) : Prop :=
  ∃ p q, m = .inProgress p ∧ m' = .inProgress q ∧ q.iterator = p.iterator ∧
    q.branchall = p.branchall ∧ q.flowJobs = p.flowJobs

/-- A push of the iteration or branch `k` of a module, and what the handlers then record for it. -/
def PushesPlace (k : ℕ) (m' : FlowStatusModule) : Prop :=
  ∃ w i payload next uuids pushed table,
    computeNextFlowTransform w i definition m false = .ok (.continue payload next) ∧
    placeOf next = some k ∧
      newStatusModule w m.id next uuids = .ok (pushed, table) ∧ SamePlace pushed m'

/-- Pushes one after the other, with the iterations or branches that they start. -/
inductive PushesPlaces (definition : FlowModule) : FlowStatusModule → List ℕ →
  FlowStatusModule → Prop
  | nil (m : FlowStatusModule) : PushesPlaces definition m [] m
  | cons {m m₁ m' : FlowStatusModule} {k : ℕ} {ks : List ℕ} (push : PushesPlace definition m k m₁)
      (pushes : PushesPlaces definition m₁ ks m') : PushesPlaces definition m (k :: ks) m'

def iteredOf : FlowStatusModule → Option (List Json)
  | .inProgress p => p.iterator.bind FlowIterator.itered
  | _ => none

def HasPlace (w : World) (i : TransformInput) (definition : FlowModule) (m : FlowStatusModule)
    (k : ℕ) : Prop :=
  match definition.value with
  | .forloopFlow iterator _ _ _ _ _ =>
    ∃ itered, iteredValues w i iterator (iteredOf m) = .ok itered ∧ k < itered.length
  | .branchAll branches _ => k < branches.length
  | _ => False

/-- The worker goes on with the iteration or branch `k`. -/
def GoesOnWith (w : World) (i : TransformInput) (definition : FlowModule) (m : FlowStatusModule)
    (k : ℕ) : Prop :=
  match definition.value with
  | .forloopFlow iterator _ _ _ parallel _ =>
    ∃ next, nextForloopStatus w i iterator (parallel.getD false) m = .ok (.nextIteration next) ∧
      next.index = k
  | .branchAll branches parallel =>
    ∃ payload next, branchAllTransform w i branches (parallel.getD true) m =
      .ok (.continue payload next) ∧ placeOf next = some k
  | _ => False

/-- A running module is at the iteration or branch `k`. -/
def PlaceIs (p : InProgress) (k : ℕ) : Prop :=
  match definition.value with
  | .forloopFlow _ _ _ _ parallel _ =>
    parallel.getD false = false ∧ ∃ it, p.iterator = some it ∧ it.index = k
  | .branchAll _ parallel => parallel.getD true = false ∧ ∃ b, p.branchall = some b ∧ b.branch = k
  | _ => False

/-- The module is at the iteration or branch `k` of a sequential loop or branch-all. -/
def AtPlace (k : ℕ) : Prop :=
  ∃ p jobs, m = .inProgress p ∧ p.flowJobs = some jobs ∧ PlaceIs definition p k

section Places

variable {w : World} {i : TransformInput} {definition : FlowModule} {m m' : FlowStatusModule}
  {j k : ℕ} {p : InProgress} {iterator : InputTransform} {it : FlowIterator}

lemma SamePlace.atPlace (hsame : SamePlace m m') (h : AtPlace definition m k) :
    AtPlace definition m' k := by
  obtain ⟨p, q, rfl, rfl, hit, hbr, hjobs⟩ := hsame
  obtain ⟨p', jobs, heq, hjobs', hplace⟩ := h
  cases heq
  refine ⟨q, jobs, rfl, hjobs.trans hjobs', ?_⟩
  unfold PlaceIs at hplace ⊢
  rw [hit, hbr]
  exact hplace

lemma branchAllTransform_inProgress {branches b jobs} (hb : p.branchall = some b)
    (hjobs : p.flowJobs = some jobs) :
    branchAllTransform w i branches false (.inProgress p) = nextBranchStep w i branches
      ⟨⟨b.branch + 1, b.len⟩, jobs, p.flowJobsSuccess, p.flowJobsDuration⟩ := by
  obtain ⟨id, job, iterator, flowJobs, success, duration, chosen, branchall, parallel, whileLoop⟩ :=
    p
  subst hb hjobs
  rfl

lemma PushesPlace.next (hp : PushesPlace definition m k m') (hat : AtPlace definition m j) :
    k = j + 1 ∧ AtPlace definition m' (j + 1) := by
  obtain ⟨w, i, payload, next, uuids, pushed, table, htrans, hplace, hst, hsame⟩ := hp
  obtain ⟨p, jobs, rfl, hjobs, hat⟩ := hat
  unfold computeNextFlowTransform at htrans
  rw [Bool.or_false] at htrans
  by_cases hmock : definition.isMocked = true
  · rw [if_pos hmock] at htrans
    cases htrans
    cases hplace
  rw [if_neg hmock] at htrans
  unfold PlaceIs at hat
  cases hval : definition.value with
  | forloopFlow iterator modules node skip parallel parallelism =>
    rw [hval] at htrans hat
    obtain ⟨hseq, it, hit, hidx⟩ := hat
    dsimp only at htrans
    obtain ⟨loop, hloop, htrans⟩ := bind_eq_ok.mp htrans
    obtain ⟨n, it', rfl, -, hit', hn⟩ := continueForloop_ok hloop
    cases hit.symm.trans hit'
    obtain rfl := (nextLoopIteration_ok htrans).1
    obtain ⟨uuid, -, hst⟩ := bind_eq_ok.mp hst
    have hk : k = j + 1 := by
      rw [← hidx, ← hn]
      exact (some.inj hplace).symm
    refine ⟨hk, hsame.atPlace ?_⟩
    cases pure_eq_ok.mp hst
    refine ⟨_, _, rfl, rfl, ?_⟩
    rw [PlaceIs, hval]
    exact ⟨hseq, _, rfl, by rw [hn, hidx]⟩
  | branchAll branches parallel =>
    rw [hval] at htrans hat
    obtain ⟨hseq, b, hb, hidx⟩ := hat
    dsimp only at htrans
    rw [hseq] at htrans
    rw [branchAllTransform_inProgress hb hjobs] at htrans
    obtain ⟨rfl, -⟩ := nextBranchStep_ok htrans
    obtain ⟨uuid, -, hst⟩ := bind_eq_ok.mp hst
    have hk : k = j + 1 := by
      rw [← hidx]
      exact (some.inj hplace).symm
    refine ⟨hk, hsame.atPlace ?_⟩
    cases pure_eq_ok.mp hst
    refine ⟨_, _, rfl, rfl, ?_⟩
    rw [PlaceIs, hval]
    exact ⟨hseq, _, rfl, by rw [hidx]⟩
  | _ =>
    simp [hval] at hat

/-- **Pushes go through the iterations or branches one by one**, from the one after the place of the
module. -/
theorem PushesPlaces.range {ks} (hp : PushesPlaces definition m ks m')
    (hat : AtPlace definition m j) :
    ks = range' (j + 1) ks.length ∧ AtPlace definition m' (j + ks.length) := by
  induction hp generalizing j with
  | nil m => exact ⟨rfl, hat⟩
  | cons push pushes ih =>
    obtain ⟨rfl, hat'⟩ := push.next hat
    obtain ⟨hks, hend⟩ := ih hat'
    refine ⟨?_, ?_⟩
    · rw [length_cons, range'_succ, ← hks]
    · rw [length_cons, ← Nat.add_assoc, Nat.add_right_comm]
      exact hend

lemma AtPlace.goesOn (hat : AtPlace definition m j) (hhas : HasPlace w i definition m (j + 1)) :
    GoesOnWith w i definition m (j + 1) := by
  obtain ⟨p, jobs, rfl, hjobs, hat⟩ := hat
  unfold PlaceIs at hat
  unfold HasPlace at hhas
  unfold GoesOnWith
  cases hval : definition.value with
  | forloopFlow iterator modules node skip parallel parallelism =>
    rw [hval] at hat hhas
    obtain ⟨hseq, it, hit, rfl⟩ := hat
    obtain ⟨itered, hitered, hlt⟩ := hhas
    dsimp only [iteredOf] at hitered
    rw [hit] at hitered
    refine ⟨⟨it.index + 1, itered, itered.length, jobs, p.flowJobsSuccess, p.flowJobsDuration,
      ⟨it.index + 1, itered.get ⟨it.index + 1, hlt⟩⟩, false⟩, ?_, rfl⟩
    rw [hseq]
    show continueForloop w i iterator false p = _
    unfold continueForloop
    rw [hit, hjobs]
    dsimp only
    rw [show iteredValues w i iterator it.itered = .ok itered from hitered]
    simp [bind, Except.bind, pure, Except.pure, getElem?_eq_getElem hlt]
  | branchAll branches parallel =>
    rw [hval] at hat hhas
    obtain ⟨hseq, b, hb, rfl⟩ := hat
    dsimp only at hhas ⊢
    rw [hseq, branchAllTransform_inProgress hb hjobs]
    dsimp only [nextBranchStep]
    rw [getElem?_eq_getElem hhas]
    have hsome : (branchallPayload w i branches[b.branch + 1] (b.branch + 1)).isSome = true :=
      payloadFromModules_isSome
    obtain ⟨payload, hpay⟩ := isSome_iff_exists.mp hsome
    dsimp only
    rw [hpay]
    exact ⟨_, _, rfl, rfl⟩
  | _ =>
    simp [hval] at hat

end Places

/-! ### Sound restarts -/

/-- The module goes on after the first `k` jobs of the old run: it holds these jobs, there is a
branch `k`, and the worker pushes the iterations or branches `k`, `k + 1` and so on, as many as
there are. -/
structure Resumes (definition : FlowModule) (old : FlowStatusModule) (k : ℕ)
  (m : FlowStatusModule) : Prop where
  running : m.isWaitingForPriorSteps = false
  jobs : ∃ jobs, old.flowJobs = some jobs ∧ k ≤ jobs.length ∧ m.flowJobs = some (jobs.take k)
  remains : ∀ branches parallel, definition.value = .branchAll branches parallel →
    k < branches.length
  places : ∀ ks m', PushesPlaces definition m ks m' → ks = List.range' k ks.length
  goesOn : ∀ ks m', PushesPlaces definition m ks m' → ∀ w i,
    HasPlace w i definition m' (k + ks.length) → GoesOnWith w i definition m' (k + ks.length)

/-- A restart at a step is sound: each module of the flow has an entry, the step counter is at the
restart step, the steps before it have succeeded, those after it wait, and it waits itself or goes
on after the first `n` jobs. -/
structure Sound (old : List FlowStatusModule) (flow : FlowValue) (restartStepId : String)
  (n : Option ℕ)
    (stepN : ℕ) (modules : List FlowStatusModule) : Prop where
  ids : modules.map FlowStatusModule.id = flow.modules.map FlowModule.id
  position : (flow.modules.map FlowModule.id)[stepN]? = some restartStepId
  first : restartStepId ∉ (flow.modules.map FlowModule.id).take stepN
  earlier : ∀ m ∈ modules.take stepN, m.isSuccess
  later : ∀ m ∈ modules.drop (stepN + 1), m.isWaitingForPriorSteps
  restarted : ∃ m, modules[stepN]? = some m ∧ (m.isWaitingForPriorSteps ∨
    ∃ k definition oldM, n = some k ∧ 1 ≤ k ∧ flow.modules[stepN]? = some definition ∧
      oldModule old restartStepId = some oldM ∧ Resumes definition oldM k m)

/-- A restart that finds what it carries over: the modules of the flow in their order, or on another
version, success of the steps before the restart step; and inside of a step, no other step with its
id and the branch to go on with. -/
structure Restartable (old : List FlowStatusModule) (flow : FlowValue) (restartStepId : String)
    (n : Option ℕ) (versionChange : Bool) : Prop where
  aligned : versionChange = false → (knownModules old flow).map (fun m => m.1.id) =
    flow.modules.map FlowModule.id
  succeeded : versionChange = true → ∀ d ∈ flow.modules.takeWhile (fun d => d.id ≠ restartStepId),
    ∃ m, oldModule old d.id = some m ∧ m.isSuccess
  single : (inside n).isSome → (oldModule old restartStepId).isSome →
    (flow.modules.map FlowModule.id).count restartStepId ≤ 1
  branches : ∀ k definition branches parallel, inside n = some k →
    (oldModule old restartStepId).isSome → definitionOf flow restartStepId = some definition →
      definition.value = .branchAll branches parallel → k < branches.length

section Created

variable {module m : FlowStatusModule} {definition : FlowModule} {k : ℕ} {restartStepId : String}

section

variable (h : createRestartedModule module definition k restartStepId = .ok m)
include h

lemma createRestartedModule_ok : k < jobCount module ∧
      ∃ iterator branchall, m = truncatedModule module k iterator branchall ∧
    (1 ≤ k → AtPlace definition m (k - 1)) := by
  unfold createRestartedModule at h
  cases hval : definition.value with
  | branchAll branches parallel | forloopFlow iterator modules node skip parallel parallelism =>
    rw [hval] at h
    dsimp only at h
    split_ifs at h with hpar hcnt
    cases h
    refine ⟨Nat.lt_of_not_le hcnt, _, _, rfl, fun _ => ⟨_, _, rfl, rfl, ?_⟩⟩
    rw [PlaceIs, hval]
    exact ⟨Bool.not_eq_true _ ▸ hpar, _, rfl, rfl⟩
  | _ =>
    simp [hval] at h

lemma createRestartedModule_id : m.id = module.id := by
  obtain ⟨-, _, _, rfl, -⟩ := createRestartedModule_ok h
  rfl

lemma createRestartedModule_running : m.isWaitingForPriorSteps = false := by
  obtain ⟨-, _, _, rfl, -⟩ := createRestartedModule_ok h
  rfl

end

lemma resumes_iff (hk : 1 ≤ k)
    (h : createRestartedModule module definition k restartStepId = .ok m) :
    Resumes definition module k m ↔
      ∀ branches parallel, definition.value = .branchAll branches parallel →
      k < branches.length := by
  refine ⟨Resumes.remains, fun hremains => ?_⟩
  obtain ⟨hlt, iterator, branchall, hm, hat⟩ := createRestartedModule_ok h
  have hat := hat hk
  have hsucc : k - 1 + 1 = k := by omega
  refine ⟨createRestartedModule_running h, ?_, hremains, fun ks m' hpush => ?_,
    fun ks m' hpush w i hhas => ?_⟩
  · unfold jobCount at hlt
    cases hjobs : module.flowJobs with
    | none =>
      simp [hjobs] at hlt
    | some jobs =>
      rw [hjobs] at hlt
      refine ⟨jobs, rfl, le_of_lt hlt, ?_⟩
      rw [hm, truncatedModule, hjobs]
      rfl
  · have hrng := (hpush.range hat).1
    rwa [hsucc] at hrng
  · have hend := (hpush.range hat).2
    have hplace : k + ks.length = k - 1 + ks.length + 1 := by omega
    rw [hplace] at hhas ⊢
    exact hend.goesOn hhas

end Created

lemma oldModule_id {old id m} (h : oldModule old id = some m) : m.id = id := by
  have hid := find?_some h
  exact beq_iff_eq.mp hid

lemma inside_eq_some {n} {k : ℕ} (h : inside n = some k) : n = some k ∧ 1 ≤ k := by
  obtain ⟨hn, hk⟩ := filter_eq_some_iff.mp h
  exact ⟨hn, of_decide_eq_true hk⟩

lemma definitionOf_eq {flow id} {i : ℕ} (hi : (flow.modules.map FlowModule.id)[i]? = some id)
    (hfirst : id ∉ (flow.modules.map FlowModule.id).take i) :
    ∃ definition, flow.modules[i]? = some definition ∧ definitionOf flow id = some definition := by
  rw [getElem?_map] at hi
  obtain ⟨definition, hget, hid⟩ := map_eq_some_iff.mp hi
  obtain ⟨hlt, hval⟩ := List.getElem?_eq_some_iff.mp hget
  refine ⟨definition, hget, find?_eq_some_iff_getElem.mpr ⟨beq_iff_eq.mpr hid, i, hlt, hval,
    fun j hj => ?_⟩⟩
  rw [Bool.not_eq_true', beq_eq_false_iff_ne]
  intro heq
  refine hfirst (mem_take_iff_getElem.mpr ⟨j, ?_, ?_⟩)
  · rw [length_map]
    omega
  · rw [getElem_map]
    exact heq

def Inside (n : Option ℕ) : Prop := (inside n).isSome ∧ (oldModule old restartStepId).isSome

section Resolved

variable {α : Type} {idOf : α → String} {before restarted : α → Except Error FlowStatusModule}
  {restartStepId : String} {items as bs : List α} {x : α} {earlier later : List FlowStatusModule}
  {m : FlowStatusModule} {old : List FlowStatusModule} {flow : FlowValue} {n : Option ℕ}

section

variable (h : Split idOf before restarted restartStepId items as x bs earlier m later)
include h

lemma Split.entries : (earlier ++ m :: later).take as.length = earlier ∧
      (earlier ++ m :: later).drop (as.length + 1) = later ∧ (earlier ++ m :: later)[as.length]? =
      some m := by
  rw [h.atEarlier.length_eq]
  refine ⟨take_left, ?_, ?_⟩
  · rw [← drop_drop, drop_left]
    rfl
  · rw [getElem?_append_right le_rfl, Nat.sub_self]
    rfl

lemma Split.position : (items.map idOf)[as.length]? = some restartStepId ∧
      restartStepId ∉ (items.map idOf).take as.length ∧
    (items.map idOf).count restartStepId = 1 + (bs.map idOf).count restartStepId := by
  have hno : restartStepId ∉ as.map idOf := by
    intro hmem
    obtain ⟨a, ha, hid⟩ := mem_map.mp hmem
    exact h.first a ha hid
  rw [h.eq, map_append, map_cons, h.found]
  refine ⟨?_, ?_, ?_⟩
  · rw [getElem?_append_right (by rw [length_map]), length_map, Nat.sub_self]
    rfl
  · rw [take_append_of_le_length (by rw [length_map])]
    exact fun hmem => hno (mem_of_mem_take hmem)
  · rw [count_append, count_eq_zero_of_not_mem hno, count_cons_self]
    omega

lemma Split.later_iff (hkind : ∀ b ∈ items, idOf b = restartStepId → ∀ m', restarted b = .ok m' →
      (m'.isWaitingForPriorSteps ↔ ¬Inside old restartStepId n)) :
      (∀ l ∈ later, l.isWaitingForPriorSteps) ↔
      (Inside old restartStepId n → (items.map idOf).count restartStepId ≤ 1) := by
  have hmem : ∀ b ∈ bs, b ∈ items := fun b hb => by
    rw [h.eq]
    exact mem_append_right _ (mem_cons_of_mem _ hb)
  constructor
  · intro hwait hin
    have hzero : restartStepId ∉ bs.map idOf := by
      intro hb
      obtain ⟨b, hb, hid⟩ := mem_map.mp hb
      obtain ⟨m', hm', hafter⟩ := (mem_of_forall₂ h.atLater).1 b hb
      rw [After, if_pos hid] at hafter
      exact (hkind b (hmem b hb) hid m' hafter).mp (hwait m' hm') hin
    rw [h.position.2.2, count_eq_zero_of_not_mem hzero]
  · intro hcnt m' hm'
    obtain ⟨b, hb, hafter⟩ := (mem_of_forall₂ h.atLater).2 m' hm'
    unfold After at hafter
    split_ifs at hafter with hid
    · refine (hkind b (hmem b hb) hid m' hafter).mpr fun hin => ?_
      have hle := hcnt hin
      rw [h.position.2.2] at hle
      have hpos : 0 < (bs.map idOf).count restartStepId :=
        count_pos_iff.mpr (mem_map.mpr ⟨b, hb, hid⟩)
      omega
    · rw [hafter]
      rfl

/-- The loop is sound for modules with the ids of the flow if and only if the entries before the
restart step have succeeded, and inside of a step there is no other step with its id and the branch
to go on with. -/
lemma Split.sound_iff (hids : items.map idOf = flow.modules.map FlowModule.id)
    (hbefore : ∀ a m, before a = .ok m → m.id = idOf a)
    (hrestarted : ∀ a m, restarted a = .ok m → m.id = idOf a)
    (hkind : ∀ b ∈ items, idOf b = restartStepId → ∀ m', restarted b = .ok m' →
      (m'.isWaitingForPriorSteps ↔ ¬Inside old restartStepId n))
    (hcr : ∀ k oldM definition, inside n = some k → oldModule old restartStepId = some oldM →
      definitionOf flow restartStepId = some definition →
        createRestartedModule oldM definition k restartStepId = .ok m) :
    Sound old flow restartStepId n as.length (earlier ++ m :: later) ↔
    (∀ e ∈ earlier, e.isSuccess) ∧
      (Inside old restartStepId n → (flow.modules.map FlowModule.id).count restartStepId ≤ 1) ∧
      ∀ k definition branches parallel, inside n = some k → (oldModule old restartStepId).isSome →
        definitionOf flow restartStepId = some definition →
          definition.value = .branchAll branches parallel → k < branches.length := by
  obtain ⟨htake, hdrop, hget⟩ := h.entries
  obtain ⟨hpos, hfirst, -⟩ := h.position
  have hlater := h.later_iff hkind
  rw [hids] at hpos hfirst hlater
  obtain ⟨definition, hdef, hdefOf⟩ := definitionOf_eq hpos hfirst
  have hx := hkind x (by rw [h.eq]; simp) h.found m h.atStep
  constructor
  · rintro ⟨-, -, -, hearlier, hwait, m', hm', hstep⟩
    rw [htake] at hearlier
    rw [hdrop] at hwait
    refine ⟨hearlier, hlater.mp hwait, fun k d branches parallel hk hold hd hval => ?_⟩
    cases hget.symm.trans hm'
    rcases hstep with hw | ⟨k', d', oldM, hn, -, hd', -, hres⟩
    · exact absurd ⟨by rw [hk]; rfl, hold⟩ (hx.mp hw)
    · have hkk := (inside_eq_some hk).1.symm.trans hn
      cases hkk
      cases hdefOf.symm.trans hd
      cases hdef.symm.trans hd'
      exact hres.remains branches parallel hval
  · rintro ⟨hearlier, hcnt, hbrs⟩
    refine ⟨(h.map_id hbefore hrestarted).trans hids, hpos, hfirst, by rwa [htake], ?_, m, hget, ?_⟩
    · rw [hdrop]
      exact hlater.mpr hcnt
    by_cases hin : Inside old restartStepId n
    · obtain ⟨k, hk⟩ := isSome_iff_exists.mp hin.1
      obtain ⟨oldM, hold⟩ := isSome_iff_exists.mp hin.2
      obtain ⟨hn, hpos'⟩ := inside_eq_some hk
      have hmade := hcr k oldM definition hk hold hdefOf
      refine .inr ⟨k, definition, oldM, hn, hpos', hdef, hold, (resumes_iff hpos' hmade).mpr ?_⟩
      exact fun branches parallel hval => hbrs k definition branches parallel hk hin.2 hdefOf hval
    · exact .inl (hx.mpr hin)

end

end Resolved

/-! ### The two versions -/

section Versions

variable {old earlier later : List FlowStatusModule} {flow : FlowValue} {restartStepId : String}
  {n : Option ℕ}
  {r : Resolution} {m : FlowStatusModule} {definition : FlowModule}
  {x a : FlowStatusModule × FlowModule}

lemma restartedNewModule_ok (hid : definition.id = restartStepId)
    (h : restartedNewModule old restartStepId n definition = .ok m) :
    (¬Inside old restartStepId n ∧ m = .waitingForPriorSteps definition.id) ∨
      ∃ k oldM, inside n = some k ∧ oldModule old restartStepId = some oldM ∧
        createRestartedModule oldM definition k restartStepId = .ok m := by
  unfold restartedNewModule at h
  rw [hid] at h
  unfold Inside
  cases hin : inside n with
  | none =>
    rw [hin] at h
    cases h
    exact .inl ⟨fun h => (by cases h.1), by rw [hid]⟩
  | some k =>
    cases hold : oldModule old restartStepId with
    | none =>
      rw [hin, hold] at h
      cases h
      exact .inl ⟨fun h => (by cases h.2), by rw [hid]⟩
    | some oldM =>
      rw [hin, hold] at h
      exact .inr ⟨k, oldM, rfl, rfl, h⟩

lemma restartedNewModule_waits (hid : definition.id = restartStepId)
    (h : restartedNewModule old restartStepId n definition = .ok m) :
    m.isWaitingForPriorSteps ↔ ¬Inside old restartStepId n := by
  rcases restartedNewModule_ok hid h with ⟨hno, rfl⟩ | ⟨k, oldM, hk, hold, hmade⟩
  · exact iff_of_true rfl hno
  · rw [createRestartedModule_running hmade]
    exact iff_of_false Bool.false_ne_true (not_not_intro ⟨by rw [hk]; rfl, by rw [hold]; rfl⟩)

lemma Split.created_new {before as bs x} (h : Split FlowModule.id before
    (restartedNewModule old restartStepId n) restartStepId flow.modules as x bs
      earlier m later) (k : ℕ) (oldM : FlowStatusModule) (definition : FlowModule)
      (hk : inside n = some k) (hold : oldModule old restartStepId = some oldM)
      (hd : definitionOf flow restartStepId = some definition) :
    createRestartedModule oldM definition k restartStepId = .ok m := by
  have hdef : definitionOf flow restartStepId = some x := by
    obtain ⟨hpos, hfirst, -⟩ := h.position
    obtain ⟨d, hd, hdefOf⟩ := definitionOf_eq hpos hfirst
    rw [h.eq, getElem?_append_right le_rfl, Nat.sub_self] at hd
    cases hd
    exact hdefOf
  cases hdef.symm.trans hd
  rcases restartedNewModule_ok h.found h.atStep with ⟨hno, -⟩ | ⟨k', oldM', hk', hold', hmade⟩
  · exact absurd ⟨by rw [hk]; rfl, by rw [hold]; rfl⟩ hno
  · cases hk.symm.trans hk'
    cases hold.symm.trans hold'
    exact hmade

lemma restartedNewModule_id
    (h : restartedNewModule old restartStepId n definition = .ok m) : m.id = definition.id := by
  unfold restartedNewModule at h
  split at h
  · rename_i k oldM hk hold
    rw [createRestartedModule_id h, oldModule_id hold]
  · cases h
    rfl

lemma takeWhile_eq {as bs : List FlowModule} {x : FlowModule} (has : ∀ a ∈ as, a.id ≠ restartStepId)
    (hx : x.id = restartStepId) : (as ++ x :: bs).takeWhile
    (fun d => d.id ≠ restartStepId) = as := by
  rw [takeWhile_append_of_pos fun a ha => decide_eq_true (has a ha),
    takeWhile_cons_of_neg (by simpa using hx), append_nil]

lemma carried_success {as : List FlowModule}
    (h : List.Forall₂ (fun (d : FlowModule) m => (Except.ok ((oldModule old d.id).getD
      (.waitingForPriorSteps d.id)) : Except Error FlowStatusModule) = .ok m) as earlier) :
    (∀ e ∈ earlier, e.isSuccess) ↔ ∀ d ∈ as, ∃ m, oldModule old d.id = some m ∧ m.isSuccess := by
  induction h with
  | nil => exact iff_of_true (fun e he => by cases he) (fun d hd => by cases hd)
  | @cons d e as earlier he _ ih =>
    rw [forall_mem_cons, forall_mem_cons, ih]
    refine and_congr_left fun _ => ?_
    cases he
    cases oldModule old d.id with
    | none => exact iff_of_false Bool.false_ne_true fun ⟨m, hm, _⟩ => by cases hm
    | some oldM => exact ⟨fun h => ⟨oldM, rfl, h⟩, fun ⟨m, hm, h⟩ => by cases hm; exact h⟩

lemma resolveNewVersion_sound (h : resolveNewVersion old flow restartStepId n = .ok r)
    (hr : r.dependentModule = true) : Sound old flow restartStepId n r.stepN r.truncatedModules ↔
      Restartable old flow restartStepId n true := by
  obtain ⟨as, x, bs, earlier, m, later, hsplit, hstep, hmods⟩ := foldlM_split _ rfl hr h
  rw [Nat.zero_add] at hstep
  rw [nil_append] at hmods
  rw [hstep, hmods, hsplit.sound_iff rfl]
  · have hearlier : (∀ e ∈ earlier, e.isSuccess) ↔
      ∀ d ∈ flow.modules.takeWhile (fun d => d.id ≠ restartStepId),
          ∃ m, oldModule old d.id = some m ∧ m.isSuccess := by
      rw [hsplit.eq, takeWhile_eq hsplit.first hsplit.found]
      exact carried_success hsplit.atEarlier
    rw [hearlier]
    refine ⟨fun ⟨hsucc, hsingle, hbrs⟩ => ⟨nofun, fun _ => hsucc,
      fun hin hold => hsingle ⟨hin, hold⟩, hbrs⟩, fun hok => ⟨hok.succeeded rfl,
      fun hin => hok.single hin.1 hin.2, hok.branches⟩⟩
  · intro a m' h'
    cases h'
    cases hold : oldModule old a.id with
    | none => rfl
    | some oldM => exact oldModule_id hold
  · exact fun a m' h' => restartedNewModule_id h'
  · exact fun b _ hid m' h' => restartedNewModule_waits hid h'
  · exact hsplit.created_new

lemma mem_knownModules (h : (m, definition) ∈ knownModules old flow) :
    definitionOf flow m.id = some definition := by
  obtain ⟨m', -, hm'⟩ := mem_filterMap.mp h
  obtain ⟨d, hd, heq⟩ := map_eq_some_iff.mp hm'
  cases heq
  exact hd

lemma oldModule_of_first {as bs} (heq : knownModules old flow = as ++ x :: bs)
    (has : ∀ a ∈ as, a.1.id ≠ restartStepId) (hx : x.1.id = restartStepId) :
    oldModule old restartStepId = some x.1 := by
  have hdef : definitionOf flow restartStepId = some x.2 := by
    rw [← hx]
    exact mem_knownModules (heq ▸ mem_append_right _ mem_cons_self)
  have hfind : (knownModules old flow).find? (fun a => a.1.id == restartStepId) = some x := by
    rw [heq]
    refine find?_eq_some_iff_append.mpr ⟨beq_iff_eq.mpr hx, as, bs, rfl, fun a ha => ?_⟩
    rw [Bool.not_eq_true', beq_eq_false_iff_ne]
    exact has a ha
  rw [knownModules, find?_filterMap] at hfind
  obtain ⟨m, hm, hmx⟩ := bind_eq_some_iff.mp hfind
  have hsame : (fun m : FlowStatusModule => Option.any (fun a : FlowStatusModule × FlowModule =>
      a.1.id == restartStepId) ((definitionOf flow m.id).map fun d => (m, d))) = fun m =>
        m.id == restartStepId := by
    funext m
    by_cases hid : m.id = restartStepId
    · rw [hid, hdef]
      simp [hid]
    · cases definitionOf flow m.id <;> simp [hid]
  rw [hsame] at hm
  obtain ⟨d, -, hd⟩ := map_eq_some_iff.mp hmx
  rw [← hd]
  exact hm

lemma restartedOldModule_id (h : restartedOldModule restartStepId n a = .ok m) : m.id = a.1.id := by
  unfold restartedOldModule at h
  split at h
  · exact createRestartedModule_id h
  · cases h
    rfl

lemma restartedOldModule_waits (hold : (oldModule old restartStepId).isSome)
    (h : restartedOldModule restartStepId n a = .ok m) :
    m.isWaitingForPriorSteps ↔ ¬Inside old restartStepId n := by
  unfold restartedOldModule at h
  unfold Inside
  cases hin : inside n with
  | none =>
    rw [hin] at h
    cases h
    exact iff_of_true rfl fun h => by cases h.1
  | some k =>
    rw [hin] at h
    rw [createRestartedModule_running h]
    exact iff_of_false Bool.false_ne_true (not_not_intro ⟨rfl, hold⟩)

lemma Split.created_old {before as bs}
    (h : Split (fun a => a.1.id) before (restartedOldModule restartStepId n) restartStepId
      (knownModules old flow) as x bs earlier m later) (k : ℕ) (oldM : FlowStatusModule)
      (definition : FlowModule) (hk : inside n = some k) (hold : oldModule old restartStepId =
        some oldM) (hd : definitionOf flow restartStepId = some definition) :
    createRestartedModule oldM definition k restartStepId = .ok m := by
  cases (oldModule_of_first h.eq h.first h.found).symm.trans hold
  have hx := h.atStep
  unfold restartedOldModule at hx
  rw [hk] at hx
  have hdef : definitionOf flow x.1.id = some x.2 :=
    mem_knownModules (h.eq ▸ mem_append_right _ mem_cons_self)
  rw [h.found] at hdef
  cases hdef.symm.trans hd
  exact hx

lemma transferModule_ok {m'} (h : transferModule m = .ok m') : m' = m ∧ m'.isSuccess := by
  unfold transferModule at h
  split_ifs at h with hs
  cases h
  exact ⟨rfl, hs⟩

lemma resolveSameVersion_sound (h : resolveSameVersion old flow restartStepId n = .ok r)
    (hr : r.dependentModule = true) : Sound old flow restartStepId n r.stepN r.truncatedModules ↔
      Restartable old flow restartStepId n false := by
  obtain ⟨as, x, bs, earlier, m, later, hsplit, hstep, hmods⟩ := foldlM_split _ rfl hr h
  rw [Nat.zero_add] at hstep
  rw [nil_append] at hmods
  have hbefore : ∀ (a : FlowStatusModule × FlowModule) m, transferModule a.1 = .ok m →
      m.id = a.1.id :=
    fun a m h => by rw [(transferModule_ok h).1]
  have hids := hsplit.map_id hbefore fun a m => restartedOldModule_id
  have hold := oldModule_of_first hsplit.eq hsplit.first hsplit.found
  have hearlier : ∀ e ∈ earlier, e.isSuccess := fun e he => by
    obtain ⟨a, -, ha⟩ := (mem_of_forall₂ hsplit.atEarlier).2 e he
    exact (transferModule_ok ha).2
  rw [hstep, hmods]
  by_cases hal : (knownModules old flow).map (fun m => m.1.id) = flow.modules.map FlowModule.id
  · rw [hsplit.sound_iff hal hbefore fun a m => restartedOldModule_id]
    · refine ⟨fun ⟨_, hsingle, hbrs⟩ => ⟨fun _ => hal, nofun,
        fun hin hold => hsingle ⟨hin, hold⟩, hbrs⟩, fun hok => ⟨hearlier,
        fun hin => hok.single hin.1 hin.2, hok.branches⟩⟩
    · exact fun b _ _ m' h' => restartedOldModule_waits (by rw [hold]; rfl) h'
    · exact hsplit.created_old
  · exact iff_of_false (fun hs => hal (hids.symm.trans hs.ids)) fun hok => hal (hok.aligned rfl)

section

variable {versions : ℤ → Except Error FlowValue} {row : CompletedFlow} {flowVersion : Option ℤ}
  {res : RestartedFlow}

lemma restartedFlowsResolution_ok
    (h : restartedFlowsResolution versions row restartStepId n flowVersion = .ok res) :
    restartedFlow versions row flowVersion = .ok res.flow ∧ ∃ status r,
    row.flowStatus = some status ∧
      resolve (isVersionChange row flowVersion) status.modules res.flow restartStepId n = .ok r ∧
      r.dependentModule = true ∧ res.stepN = r.stepN ∧ res.modules = r.truncatedModules := by
  obtain ⟨flow, hflow, h⟩ := bind_eq_ok.mp h
  cases hs : row.flowStatus with
  | none =>
    simp [hs] at h
  | some status =>
    rw [hs] at h
    obtain ⟨r, hr, h⟩ := bind_eq_ok.mp h
    by_cases hdep : r.dependentModule = true
    · rw [if_pos hdep] at h
      cases pure_eq_ok.mp h
      exact ⟨hflow, status, r, rfl, hr, hdep, rfl, rfl⟩
    · simp [if_neg hdep] at h

end

/-- **A restart is sound if and only if it finds what it carries over.** -/
theorem restart_sound_iff {versions : ℤ → Except Error FlowValue} {row : CompletedFlow}
    {status : FlowStatus} {flowVersion : Option ℤ} {r : RestartedFlow}
    (hstatus : row.flowStatus = some status)
    (h : restartedFlowsResolution versions row restartStepId n flowVersion = .ok r) :
    Sound status.modules r.flow restartStepId n r.stepN r.modules ↔
      Restartable status.modules r.flow restartStepId n (isVersionChange row flowVersion) := by
  obtain ⟨-, status', res, hstatus', hres, hdep, hstep, hmods⟩ := restartedFlowsResolution_ok h
  cases hstatus.symm.trans hstatus'
  rw [hstep, hmods]
  cases hchange : isVersionChange row flowVersion with
  | true =>
    rw [hchange] at hres
    exact resolveNewVersion_sound hres hdep
  | false =>
    rw [hchange] at hres
    exact resolveSameVersion_sound hres hdep

end Versions

/-! ### Restarts -/

def loopFlow : FlowValue where
  modules :=
    [{ id := "a", value := .script },
     { id := "l", value := .forloopFlow (.static (.arr [.num "1", .num "2", .num "3"]))
        [{ id := "c", value := .script }] none none none none },
     { id := "b", value := .script }]

def succeededAs (id : String) (jobs : Option (List Uuid)) : FlowStatusModule :=
  .success
    { id, job := 1, flowJobs := jobs, flowJobsSuccess := jobs.map (·.map fun _ => some true)
      flowJobsDuration := jobs.map fun js => .new js.length, branchChosen := none, approvers := []
      failedRetries := [], skipped := false }

def failedAs (id : String) : FlowStatusModule :=
  .failure
    { id, job := 2, flowJobs := none, flowJobsSuccess := none, flowJobsDuration := none
      branchChosen := none, failedRetries := [] }

def completedRow (modules : List FlowStatusModule) : CompletedFlow where
  scriptPath := some "f/flow"
  scriptHash := some 1
  isFlow := true
  flowStatus := some { FlowStatus.new flow with modules }
  flow := .ok flow

def loopModules : List FlowStatusModule :=
  [succeededAs "a" none, succeededAs "l" (some [11, 12, 13]), failedAs "b"]

def loopRestarted : RestartedFlow where
  version := some 1
  flowPath := some "f/flow"
  flow := loopFlow
  stepN := 1
  modules :=
    [succeededAs "a" none,
     truncatedModule (succeededAs "l" (some [11, 12, 13])) 2 (some ⟨1, none, none⟩) none,
     .waitingForPriorSteps "b"]

theorem loop_restarted_inside :
    Sound loopModules loopRestarted.flow "l"
    (some 2) loopRestarted.stepN loopRestarted.modules := by
  have hok : restartedFlowsResolution (fun _ => .ok loopFlow) (completedRow loopFlow loopModules)
    "l" (some 2)
      none = .ok loopRestarted := rfl
  refine (restart_sound_iff rfl hok).mpr ⟨fun _ => rfl, nofun, fun _ _ =>
    (by decide), ?_⟩
  intro k definition branches parallel _ _ hdef hval
  cases hdef
  cases hval

theorem restarted_after_failed_step : ∃ r, restartedFlowsResolution (fun _ => .ok loopFlow)
        (completedRow loopFlow [failedAs "a", .waitingForPriorSteps "l", .waitingForPriorSteps "b"])
        "l" none (some 2) = .ok r ∧
      ¬Sound [failedAs "a", .waitingForPriorSteps "l", .waitingForPriorSteps "b"]
      r.flow "l" none r.stepN
        r.modules := by
  refine ⟨⟨some 2, some "f/flow", loopFlow, 1,
    [failedAs "a", .waitingForPriorSteps "l", .waitingForPriorSteps "b"]⟩, rfl, fun hsound => ?_⟩
  have hearlier := hsound.earlier (failedAs "a") mem_cons_self
  cases hearlier

end Windmill.Flow.Restart
