import Windmill.Flow.Chain

/-! # The places of a status

A flow status holds one status for each module of the flow, one for the failure module and one for
the preprocessor. Every write of the engine puts one status at one of these places, or is
bookkeeping: `Writes` and `Keeps` say so, and each write has its lemma here. What holds at every
place is then carried through a step of the engine without looking at the step again. -/

namespace Windmill.Flow.Places

open Value Status Reads Completion Flow.Suspend Push List Option

inductive Place where
  | module (i : ℕ)
  | failure
  | preprocessor
deriving DecidableEq

def placeOf : Step → Place
  | .step i _ => .module i
  | .failureStep => .failure
  | .preprocessorStep => .preprocessor

def statusAt (s : FlowStatus) : Place → Option FlowStatusModule
  | .module i => s.modules[i]?
  | .failure => some s.failureModule.moduleStatus
  | .preprocessor => s.preprocessorModule

def flowModuleAt (flow : FlowValue) : Place → Option FlowModule
  | .module i => flow.modules[i]?
  | .failure => flow.failureModule
  | .preprocessor => flow.preprocessorModule

variable {flow : FlowValue} {m : FlowStatusModule} {s s' : FlowStatus} {ℓ : Place} {start : Start}
  {f : FlowStatusModule → FlowStatusModule} {status status' : FlowStatus}
  {statusModule : FlowStatusModule} {result : Json}
  {flowEnv : Option Args} {step : Step} {w : World} {i : ℤ}

lemma statusAt_of_moduleStatus (h : moduleStatus s = .ok m) :
    statusAt s (placeOf s.moduleStep) = some m := by
  unfold moduleStatus at h
  split at h <;> (try split at h) <;> simp_all [placeOf, statusAt]

lemma flowModuleAt_of_getFlowModuleAtStep {m} (h : flow.getFlowModuleAtStep step = .ok m) :
    flowModuleAt flow (placeOf step) = some m := by
  unfold FlowValue.getFlowModuleAtStep at h
  split at h <;> split at h <;> simp_all [placeOf, flowModuleAt]

lemma statusAt_new (h : statusAt (.new flow) ℓ = some m) : ∃ id, m = .waitingForPriorSteps id := by
  cases ℓ with
  | module i =>
    change (flow.modules.map fun m => FlowStatusModule.waitingForPriorSteps m.id)[i]? = some m at h
    rw [getElem?_map] at h
    obtain ⟨m', -, he⟩ := map_eq_some_iff.mp h
    exact ⟨_, he.symm⟩
  | failure => exact ⟨_, (some.inj h).symm⟩
  | preprocessor =>
    obtain ⟨m', -, he⟩ := map_eq_some_iff.mp h
    exact ⟨_, he.symm⟩

/-! ### Keeping and writing -/

/-- Every place has the status it had, up to bookkeeping. -/
def Keeps (s s' : FlowStatus) : Prop :=
  ∀ ⦃ℓ : Place⦄ ⦃m' : FlowStatusModule⦄, statusAt s' ℓ = some m' → ∃ m, statusAt s ℓ = some m ∧
    SameWork m m'

/-- The status `m` is written at the place `ℓ`, and every other place has the status it had, up to
bookkeeping. -/
structure Writes (s s' : FlowStatus) (ℓ : Place) (m : FlowStatusModule) : Prop where
  here : statusAt s' ℓ = some m
  elsewhere : ∀ {ℓ' : Place} {m' : FlowStatusModule}, ℓ' ≠ ℓ → statusAt s' ℓ' = some m' →
    ∃ m₀, statusAt s ℓ' = some m₀ ∧ SameWork m₀ m'

/-- The status `m` is written at the place `ℓ`, and nothing else changes. -/
structure Puts (s s' : FlowStatus) (ℓ : Place) (m : FlowStatusModule) : Prop where
  here : statusAt s' ℓ = some m
  elsewhere : ∀ {ℓ' : Place}, ℓ' ≠ ℓ → statusAt s' ℓ' = statusAt s ℓ'

lemma keeps_of_tracks (h : Tracks s s') : Keeps s s' := by
  intro ℓ m' hm
  cases ℓ with
  | module i =>
    have hlt : i < s.modules.length := by
      rw [← h.length]
      exact (List.getElem?_eq_some_iff.mp hm).1
    exact ⟨_, getElem?_eq_getElem hlt, h.modules (getElem?_eq_getElem hlt) hm⟩
  | failure => exact ⟨m', by rw [← hm]; simp only [statusAt, h.failureModule], .refl m'⟩
  | preprocessor => exact ⟨m', by rw [← hm]; simp only [statusAt, h.preprocessorModule], .refl m'⟩

lemma statusAt_of_tracks (h : Tracks s s')
    (hm : statusAt s ℓ = some m) : ∃ m', statusAt s' ℓ = some m' ∧ SameWork m m' := by
  cases ℓ with
  | module i =>
    have hlt : i < s'.modules.length := by
      rw [h.length]
      exact (List.getElem?_eq_some_iff.mp hm).1
    exact ⟨_, getElem?_eq_getElem hlt, h.modules hm (getElem?_eq_getElem hlt)⟩
  | failure => exact ⟨m, by rw [← hm]; simp only [statusAt, h.failureModule], .refl m⟩
  | preprocessor => exact ⟨m, by rw [← hm]; simp only [statusAt, h.preprocessorModule], .refl m⟩

lemma moduleStep_of_tracks (h : Tracks s s') : s'.moduleStep = s.moduleStep := by
  unfold FlowStatus.moduleStep
  rw [h.step, h.length]

lemma Writes.after_keeps {s₁ s₂} (h : Keeps s s₁) (hw : Writes s₁ s₂ ℓ m) : Writes s s₂ ℓ m := by
  refine ⟨hw.here, fun hne hm => ?_⟩
  obtain ⟨m₁, hm₁, hsame⟩ := hw.elsewhere hne hm
  obtain ⟨m₀, hm₀, hsame'⟩ := h hm₁
  exact ⟨m₀, hm₀, hsame'.trans hsame⟩

lemma Puts.writes (h : Puts s s' ℓ m) : Writes s s' ℓ m :=
  ⟨h.here, fun {_ m'} hne hm => ⟨m', (h.elsewhere hne).symm.trans hm, .refl m'⟩⟩

lemma Puts.congr {t t'} (hw : Puts s s' ℓ m) (h : ∀ ℓ', statusAt s ℓ' = statusAt t ℓ')
    (h' : ∀ ℓ', statusAt t' ℓ' = statusAt s' ℓ') : Puts t t' ℓ m :=
  ⟨(h' ℓ).trans hw.here, fun {ℓ'} hne => (h' ℓ').trans ((hw.elsewhere hne).trans (h ℓ'))⟩

/-! ### Writing a module -/

lemma puts_of_set {i : ℕ} (hset : s'.modules = s.modules.set i m ∧ i < s.modules.length ∨
      s'.modules = s.modules ++ [m] ∧ i = s.modules.length)
      (hfail : s'.failureModule = s.failureModule)
    (hpre : s'.preprocessorModule = s.preprocessorModule) : Puts s s' (.module i) m := by
  refine ⟨?_, fun {ℓ'} hne => ?_⟩
  · show s'.modules[i]? = some m
    rcases hset with ⟨h, hlt⟩ | ⟨h, rfl⟩
    · rw [h, getElem?_set_self hlt]
    · rw [h, getElem?_concat_length]
  cases ℓ' with
  | module j =>
    have hij : i ≠ j := fun h => hne (by rw [h])
    show s'.modules[j]? = s.modules[j]?
    rcases hset with ⟨h, -⟩ | ⟨h, rfl⟩
    · rw [h, getElem?_set_ne hij]
    · rw [h, getElem?_append, getElem?_singleton]
      split_ifs with hlt heq
      · rfl
      · omega
      · rw [getElem?_eq_none (not_lt.mp hlt)]
  | failure => simp only [statusAt, hfail]
  | preprocessor => simp only [statusAt, hpre]

lemma puts_failure (hmods : s'.modules = s.modules)
    (hpre : s'.preprocessorModule = s.preprocessorModule) :
    Puts s s' .failure s'.failureModule.moduleStatus := by
  refine ⟨rfl, fun {ℓ'} hne => ?_⟩
  cases ℓ' with
  | module i => simp only [statusAt, hmods]
  | failure => exact absurd rfl hne
  | preprocessor => exact hpre

lemma puts_preprocessor (hmods : s'.modules = s.modules)
    (hfail : s'.failureModule = s.failureModule) (hm : s'.preprocessorModule = some m) :
    Puts s s' .preprocessor m := by
  refine ⟨hm, fun {ℓ'} hne => ?_⟩
  cases ℓ' with
  | module i => simp only [statusAt, hmods]
  | failure => simp only [statusAt, hfail]
  | preprocessor => exact absurd rfl hne

/-- A status written at a step counter lands at some place: at the module, after the last one, or,
for the counter of the preprocessor, at the last one. -/
lemma puts_setModule {s} {i : ℤ} (h : -1 ≤ i) (m : FlowStatusModule) :
    ∃ j : ℕ, Puts s (s.setModule i m) (.module j) m ∧ ∀ k : ℕ, i = k →
    j = min k s.modules.length := by
  by_cases hneg : i < 0
  · have hi : i = -1 := by omega
    subst hi
    cases hs : s.modules with
    | nil =>
      refine ⟨0, puts_of_set (.inr ⟨?_, by rw [hs]; rfl⟩) rfl rfl, fun k hk => by omega⟩
      simp [FlowStatus.setModule, hs, jsonbSetArr]
    | cons a as =>
      refine ⟨as.length, puts_of_set (.inl ⟨?_, by rw [hs]; simp⟩) rfl rfl, fun k hk => by omega⟩
      simp [FlowStatus.setModule, hs, jsonbSetArr]
  · obtain ⟨k, rfl⟩ := Int.eq_ofNat_of_zero_le (not_lt.mp hneg)
    by_cases hlt : k < s.modules.length
    · exact ⟨k, puts_of_set (.inl ⟨jsonbSetArr_natCast hlt m, hlt⟩) rfl rfl, fun k' hk => by omega⟩
    · refine ⟨s.modules.length, puts_of_set (.inr ⟨?_, rfl⟩) rfl rfl, fun k' hk => by omega⟩
      simp only [FlowStatus.setModule, jsonbSetArr, if_neg hneg,
        if_neg (show ¬ (((k : ℕ) : ℤ) < s.modules.length) by omega)]

lemma length_le_setModule (s : FlowStatus) (i : ℤ) (m : FlowStatusModule) :
    s.modules.length ≤ (s.setModule i m).modules.length := by
  unfold FlowStatus.setModule jsonbSetArr
  dsimp only
  split_ifs <;> simp

/-! ### The writes of the completion handler -/

section Commit

variable {old s : FlowStatus} {t : Transition} {m : FlowStatusModule}

lemma statusAt_countStep (ℓ : Place) : statusAt (countStep old t) ℓ = statusAt t.stored ℓ := by
  unfold countStep
  split_ifs
  · cases ℓ <;> rfl
  · rfl

lemma length_le_writeModule : s.modules.length ≤ (writeModule old s m).modules.length := by
  unfold writeModule
  split_ifs
  · exact le_rfl
  · exact le_rfl
  · exact length_le_setModule s old.step m

lemma statusAt_clearRetry (ℓ : Place) : statusAt (clearRetry old m s) ℓ = statusAt s ℓ := by
  unfold clearRetry
  split
  · split_ifs
    · cases ℓ <;> rfl
    · rfl
  · rfl

lemma length_le_commitTransition :
    t.stored.modules.length ≤ (commitTransition old t).modules.length := by
  unfold commitTransition
  cases t.newStatus with
  | none => simp
  | some m =>
    have hle := @length_le_writeModule old (countStep old t) m
    simpa using hle

lemma exists_step_of_not_preprocessor (h : ¬old.moduleStep.isPreprocessorStep = true) :
    ∃ i : ℕ, old.step = i := by
  refine Int.eq_ofNat_of_zero_le (not_lt.mp fun hneg => h ?_)
  rw [FlowStatus.moduleStep, Step.fromI32AndLen, if_pos hneg]
  rfl

lemma preprocessorModule_commitTransition (h : t.stored.preprocessorModule.isSome = true) :
    (commitTransition old t).preprocessorModule.isSome = true := by
  have hcnt : (countStep old t).preprocessorModule.isSome = true := by
    have := @statusAt_countStep old t .preprocessor
    exact (congrArg isSome this).trans h
  unfold commitTransition
  cases t.newStatus with
  | none => exact hcnt
  | some m =>
    have hwr : (writeModule old (countStep old t) m).preprocessorModule.isSome = true := by
      unfold writeModule
      split_ifs
      · exact hcnt
      · rfl
      · exact hcnt
    exact (congrArg isSome (statusAt_clearRetry .preprocessor)).trans hwr

/-- The status of the module is written at its place. Only in a flow without modules, or if there
are fewer statuses than the handler has read, it lands among the modules or after them. -/
lemma exists_puts_writeModule (old s : FlowStatus) (m : FlowStatusModule) :
    ∃ ℓ, Puts s (writeModule old s m) ℓ m ∧ (ℓ = placeOf old.moduleStep ∨ ∃ j, ℓ = .module j ∧
      (old.modules = [] ∨ s.modules.length ≤ j ∧ j < old.modules.length)) := by
  unfold writeModule
  split_ifs with hfail hpre
  · refine ⟨.failure, puts_failure rfl rfl, .inl ?_⟩
    simp only [isFailureStep, Bool.and_eq_true, decide_eq_true_eq] at hfail
    rw [FlowStatus.moduleStep, fromI32AndLen_eq_failureStep.mpr ⟨by omega, hfail.1⟩]
    rfl
  · refine ⟨.preprocessor, puts_preprocessor rfl rfl rfl, .inl ?_⟩
    cases hs : old.moduleStep with
    | preprocessorStep => rfl
    | _ => rw [hs] at hpre; cases hpre
  · obtain ⟨k, hk⟩ := exists_step_of_not_preprocessor hpre
    obtain ⟨j, hputs, hj⟩ := puts_setModule (s := s) (i := old.step) (by omega) m
    refine ⟨.module j, hputs, ?_⟩
    have hj' := hj k hk
    simp only [isFailureStep, hk, Bool.and_eq_true, decide_eq_true_eq] at hfail
    by_cases hlt : k < old.modules.length
    · by_cases hin : k < s.modules.length
      · refine .inl ?_
        rw [FlowStatus.moduleStep, hk, fromI32AndLen_natCast hlt, hj', min_eq_left hin.le]
        rfl
      · exact .inr ⟨j, rfl, .inr (by omega)⟩
    · exact .inr ⟨j, rfl, .inl (length_eq_zero_iff.mp (by omega))⟩

lemma exists_puts_commitTransition (h : t.newStatus = some m) :
    ∃ ℓ, Puts t.stored (commitTransition old t) ℓ m ∧
    (ℓ = placeOf old.moduleStep ∨ ∃ j, ℓ = .module j ∧
      (old.modules = [] ∨ t.stored.modules.length ≤ j ∧ j < old.modules.length)) := by
  obtain ⟨ℓ, hputs, hℓ⟩ := exists_puts_writeModule old (countStep old t) m
  rw [countStep_modules] at hℓ
  refine ⟨ℓ, hputs.congr statusAt_countStep fun ℓ => ?_, hℓ⟩
  rw [commitTransition, h]
  exact statusAt_clearRetry ℓ

lemma statusAt_commitTransition (h : t.newStatus = none) (ℓ : Place) :
    statusAt (commitTransition old t) ℓ = statusAt t.stored ℓ := by
  rw [commitTransition, h]
  exact statusAt_countStep ℓ

end Commit

/-! ### The writes of the push -/

lemma puts_writePushed (h : ∀ i n, start.step = .step i n → i < status.modules.length)
    (m : FlowStatusModule) :
    Puts status (writePushed flow start m status) (placeOf start.step) m := by
  unfold writePushed
  cases hstep : start.step with
  | step i n => exact puts_of_set (.inl ⟨jsonbSetArr_natCast (h i n hstep) m, h i n hstep⟩) rfl rfl
  | preprocessorStep => exact puts_preprocessor rfl rfl rfl
  | failureStep => exact puts_failure rfl rfl

lemma step_writePushed : -1 ≤ (writePushed flow start m s).step := by
  unfold writePushed
  split <;> dsimp only <;> omega

lemma length_le_writePushed : s.modules.length ≤ (writePushed flow start m s).modules.length := by
  unfold writePushed
  cases start.step with
  | step i n => exact length_le_setModule s i m
  | _ => exact le_rfl

lemma puts_park {table} {n : ℕ}
    (h : suspendGate w flow flowEnv status statusModule result table = .ok (status', .park n)) :
    ∃ j id count job, Puts status status' (.module j) (.waitingForEvents id count job) ∧
      status'.step = status.step ∧ status'.retry = status.retry ∧
      status'.preprocessorModule = status.preprocessorModule ∧
      status.modules.length ≤ status'.modules.length ∧
      (status.step < status.modules.length → status'.modules.length = status.modules.length) := by
  obtain ⟨s, last, conditions, hneeds, hdec, rfl⟩ := suspendGate_parked h
  obtain ⟨-, -, i, -, hi, -⟩ := needsResume_some hneeds
  obtain ⟨j, hw, -⟩ := @puts_setModule (storeConditions conditions status)
    (storeConditions conditions status).step (by show -1 ≤ status.step; omega)
    (.waitingForEvents statusModule.id (requiredEvents s) last)
  simp only [gateStatus, hdec]
  refine ⟨j, _, _, _, hw.congr (fun ℓ => by cases ℓ <;> rfl) fun _ => rfl, rfl, rfl, rfl, ?_,
    fun hlt => ?_⟩
  · exact length_le_setModule (storeConditions conditions status) _ _
  · show (jsonbSetArr status.modules status.step _).length = _
    rw [show status.step = (i + 1 : ℕ) by omega, jsonbSetArr_natCast (by omega), length_set]

/-- The module that a push chooses stands at the place where its status is written. It starts in the
status of that place, or afresh. -/
lemma chosen_place (h : Chosen w flow flowEnv step statusModule result status status' start) :
    flowModuleAt flow (placeOf start.step) = some start.module ∧
      ((∃ id, start.statusModule = .waitingForPriorSteps id) ∨ start.step = step ∧
      start.statusModule = statusModule ∨
        statusAt status (placeOf start.step) = some start.statusModule) := by
  cases h with
  | module hm _ => exact ⟨flowModuleAt_of_getFlowModuleAtStep hm, .inr (.inl ⟨rfl, rfl⟩)⟩
  | retry hm _ _ => exact ⟨flowModuleAt_of_getFlowModuleAtStep hm, .inl ⟨_, rfl⟩⟩
  | failureModule _ _ _ _ hfail => exact ⟨hfail, .inr (.inr rfl)⟩

lemma statusAt_modifyModule {m'} (h : statusAt (s.modifyModule i f) ℓ = some m') :
    ∃ m, statusAt s ℓ = some m ∧
    (m' = m ∨ m' = f m ∧ ∃ j, ℓ = .module j ∧ s.moduleIndex i = some j) := by
  unfold FlowStatus.modifyModule at h
  cases hj : s.moduleIndex i with
  | none =>
    rw [hj] at h
    exact ⟨m', h, .inl rfl⟩
  | some j =>
    rw [hj] at h
    cases ℓ with
    | module k =>
      change (s.modules.modify j f)[k]? = some m' at h
      rw [getElem?_modify] at h
      obtain ⟨m, hm, rfl⟩ := map_eq_some_iff.mp h
      refine ⟨m, hm, ?_⟩
      split_ifs with hjk
      · exact .inr ⟨rfl, j, by rw [hjk], rfl⟩
      · exact .inl rfl
    | failure | preprocessor => exact ⟨m', h, .inl rfl⟩

@[simp] lemma retryStatus_step (s : FlowStatus) (failCount : ℕ) (job : Uuid) :
    (retryStatus s failCount job).step = s.step := by
  simp [retryStatus]

@[simp] lemma retryStatus_length (s : FlowStatus) (failCount : ℕ) (job : Uuid) :
    (retryStatus s failCount job).modules.length = s.modules.length := by
  simp [retryStatus]

@[simp] lemma retryStatus_preprocessorModule (s : FlowStatus) (failCount : ℕ) (job : Uuid) :
    (retryStatus s failCount job).preprocessorModule = s.preprocessorModule := by
  simp [retryStatus]

lemma statusAt_failureStatus (s : FlowStatus) (m : FlowModule) (ℓ : Place) :
    statusAt (failureStatus s m) ℓ = statusAt s ℓ := by
  unfold failureStatus
  split_ifs
  · cases ℓ <;> rfl
  · rfl

@[simp] lemma failureStatus_step (s : FlowStatus) (m : FlowModule) :
    (failureStatus s m).step = s.step := by
  unfold failureStatus
  split_ifs <;> rfl

@[simp] lemma failureStatus_preprocessorModule (s : FlowStatus) (m : FlowModule) :
    (failureStatus s m).preprocessorModule = s.preprocessorModule := by
  unfold failureStatus
  split_ifs <;> rfl

@[simp] lemma failureStatus_modules (s : FlowStatus) (m : FlowModule) :
    (failureStatus s m).modules = s.modules := by
  unfold failureStatus
  split_ifs <;> rfl

/-! ### What holds at every place -/

def AtPlaces (K : Place → FlowStatusModule → Prop) (s : FlowStatus) : Prop :=
  ∀ ⦃ℓ : Place⦄ ⦃m : FlowStatusModule⦄, statusAt s ℓ = some m → K ℓ m

section AtPlaces

variable {K : Place → FlowStatusModule → Prop} {w : World} {flowEnv : Option Args}
  {statusModule : FlowStatusModule} {result : Json}

lemma AtPlaces.congr (h : AtPlaces K s) (hat : ∀ ℓ, statusAt s' ℓ = statusAt s ℓ) : AtPlaces K s' :=
  fun ℓ _ hm => h ((hat ℓ).symm.trans hm)

lemma AtPlaces.puts (h : AtPlaces K s) (hputs : Puts s s' ℓ m) (hm : K ℓ m) : AtPlaces K s' := by
  intro ℓ' m' hm'
  by_cases hℓ : ℓ' = ℓ
  · subst hℓ
    cases hputs.here.symm.trans hm'
    exact hm
  · exact h ((hputs.elsewhere hℓ).symm.trans hm')

lemma AtPlaces.modify {i : ℤ} (h : AtPlaces K s)
    (hf : ∀ ℓ m, moduleAt s i = some m → K ℓ m → K ℓ (f m)) : AtPlaces K (s.modifyModule i f) := by
  intro ℓ m' hm'
  obtain ⟨m, hm, rfl | ⟨rfl, j, rfl, hj⟩⟩ := statusAt_modifyModule hm'
  · exact h hm
  · exact hf _ m (by rw [moduleAt, hj]; exact hm) (h hm)

lemma AtPlaces.passed {table gate} (h : AtPlaces K s)
    (hK : ∀ ℓ m approvers, K ℓ m → K ℓ (m.setApprovers approvers)) (hgate : gate.isPark = false)
    (hpass : suspendGate w flow flowEnv s statusModule result table = .ok (s', gate)) :
    AtPlaces K s' := by
  have hstore : ∀ conditions, AtPlaces K (storeConditions conditions s) :=
    fun _ => h.congr fun ℓ => by cases ℓ <;> rfl
  rcases suspendGate_passed hgate hpass with rfl | ⟨conditions, rfl | ⟨approvers, rfl⟩⟩
  · exact h
  · exact hstore conditions
  · have hmod := (hstore conditions).modify (i := s.step - 1) fun ℓ m _ => hK ℓ m approvers
    exact hmod.congr fun ℓ => by cases ℓ <;> rfl

lemma AtPlaces.chosen {step : Step} (h : AtPlaces K s)
    (hK : ∀ ℓ m jobs, K ℓ m → K ℓ (m.setFailedRetries jobs))
    (hch : Chosen w flow flowEnv step statusModule result s s' start) : AtPlaces K s' := by
  cases hch with
  | module _ _ => exact h
  | @retry _ f _ _ _ _ _ =>
    have hmod := h.modify (i := s.step) fun ℓ m _ => hK ℓ m (s.retry.failedJobs ++ [f.job])
    exact hmod.congr fun ℓ => by cases ℓ <;> rfl
  | failureModule _ _ _ _ _ => exact h.congr (statusAt_failureStatus s _)

end AtPlaces

end Windmill.Flow.Places
