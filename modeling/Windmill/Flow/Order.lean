import Windmill.Flow.Ownership
import Windmill.Flow.Passes

/-! # The modules of a flow run one after the other

An action of the engine writes the status of the module under the step counter and no other one
(`KeepsBut`), and moves the counter over a module only when this has ended, or to the failure module
(`Moves`). So the modules before the counter have ended for good, and those behind it wait. -/

namespace Windmill.Flow.Order

open Value Status Reads Completion Flow.Suspend Push Places Run Ownership Passes Lib.Run

/-- A handler reads the stored status, up to the bookkeeping of other handlers. -/
def ReadsStored (s : RunState) : RunAction → Prop
  | .report _ old _ => Tracks old s.db.status
  | .again _ old => Tracks old s.db.status
  | _ => True

/-- The first `n` modules other than `k` keep their work, and those that wait still wait. With a
negative `k` the paths of the engine mean the last module, and only the second holds. -/
def KeepsBut (n : ℕ) (k : ℤ) (s s' : FlowStatus) : Prop :=
  ∀ ⦃i : ℕ⦄ ⦃m' : FlowStatusModule⦄, i < n → (i : ℤ) ≠ k → s'.modules[i]? = some m' →
    ∃ m, s.modules[i]? = some m ∧ (0 ≤ k → SameWork m m') ∧
    (m.isWaitingForPriorSteps = true → m' = m)

section

variable {flow : FlowValue} {n : ℕ} {k : ℤ} {s s' s'' : FlowStatus} {ℓ : Place}
  {m m' : FlowStatusModule}

lemma eq_of_sameWork (h : SameWork m m') (hm : m.isWaitingForPriorSteps = true) : m' = m := by
  cases h with
  | refl => rfl
  | _ => cases hm

lemma KeepsBut.trans (h : KeepsBut n k s s') (h' : KeepsBut n k s' s'') : KeepsBut n k s s'' := by
  intro i m'' hi hk hm''
  obtain ⟨m', hm', hsame', hwait'⟩ := h' hi hk hm''
  obtain ⟨m, hm, hsame, hwait⟩ := h hi hk hm'
  refine ⟨m, hm, fun h0 => (hsame h0).trans (hsame' h0), fun hw => ?_⟩
  cases hwait hw
  exact hwait' hw

lemma keepsBut_of_keeps (h : ∀ (i : ℕ) m', i < n → (i : ℤ) ≠ k → s'.modules[i]? = some m' →
    ∃ m, s.modules[i]? = some m ∧ SameWork m m') : KeepsBut n k s s' := by
  intro i m' hi hk hm'
  obtain ⟨m, hm, hsame⟩ := h i m' hi hk hm'
  exact ⟨m, hm, fun _ => hsame, eq_of_sameWork hsame⟩

lemma keepsBut_of_tracks (h : Tracks s s') : KeepsBut n k s s' :=
  keepsBut_of_keeps fun i _ _ _ hm => keeps_of_tracks h (ℓ := .module i) hm

lemma keepsBut_of_writes (h : Writes s s' ℓ m) (hℓ : ∀ i : ℕ, i < n → ℓ = .module i → (i : ℤ) = k) :
    KeepsBut n k s s' :=
  keepsBut_of_keeps fun i _ hi hk hm => @Writes.elsewhere _ _ _ _ h (.module i) _
    (fun heq => hk (hℓ i hi heq.symm)) hm

lemma placeOf_fromI32AndLen {i len : ℕ} (h : placeOf (Step.fromI32AndLen k len) = .module i) :
    (i : ℤ) = k := by
  cases hstep : Step.fromI32AndLen k len with
  | step j l =>
    rw [hstep] at h
    cases h
    exact (fromI32AndLen_eq_step.mp hstep).1.symm
  | failureStep | preprocessorStep =>
    rw [hstep] at h
    cases h

def HasEnded (s : FlowStatus) (i : ℕ) : Prop :=
  ∃ m, s.modules[i]? = some m ∧ (m.isSuccess || m.isFailure) = true

/-- **What an action does to the modules.** -/
structure Moves (flow : FlowValue) (s s' : FlowStatus) : Prop where
  keeps : (s.step < 0 → LeafHandlers flow) → KeepsBut flow.modules.length s.step s s'
  step : s'.step = s.step ∨ s'.step = flow.modules.length ∨
    s'.step = s.step + 1 ∧ ∀ i : ℕ, s.step = i → i < flow.modules.length → HasEnded s' i

lemma moves_of_tracks (h : Tracks s s') : Moves flow s s' :=
  ⟨fun _ => keepsBut_of_tracks h, .inl h.step⟩

/-! ### A push -/

lemma keepsBut_setModule (hk : 0 ≤ s.step) (hn : n ≤ s.modules.length) :
    KeepsBut n s.step s (s.setModule s.step m) := by
  obtain ⟨k, hk⟩ := Int.eq_ofNat_of_zero_le hk
  obtain ⟨j, hputs, hj⟩ := puts_setModule (s := s) (i := s.step) (by omega) m
  refine keepsBut_of_writes hputs.writes fun i hi heq => ?_
  have := hj k hk
  cases heq
  omega

variable {w : World} {flowEnv : Option Args} {lastResult : Option Json} {result : Json}
  {db db' : FlowDb}
  {statusModule : FlowStatusModule} {res : Except Error PushNextFlowJob} {start : Start}

lemma keepsBut_retryStatus {failCount : ℕ} {job : Uuid} :
    KeepsBut n s.step s (retryStatus s failCount job) := by
  intro i m' _ hk hm'
  obtain ⟨m, hm, rfl | ⟨rfl, j, hj, hidx⟩⟩ := statusAt_modifyModule (ℓ := .module i) (s := s) hm'
  · exact ⟨_, hm, fun _ => .refl _, fun _ => rfl⟩
  · refine ⟨m, hm, fun h0 => ?_, fun hwait => ?_⟩
    · obtain ⟨k, h0⟩ := Int.eq_ofNat_of_zero_le h0
      rw [h0, s.moduleIndex_natCast] at hidx
      cases hj
      cases hidx
      exact absurd h0.symm hk
    · cases m with
      | waitingForPriorSteps id => rfl
      | _ => cases hwait

lemma keepsBut_chosen {step : Step}
    (h : Chosen w flow flowEnv step statusModule result s s' start) :
    KeepsBut n s.step s s' ∧ s'.step = s.step ∧
    (start.step = step ∨ start.step = .failureStep) := by
  cases h with
  | module _ _ => exact ⟨keepsBut_of_tracks (.refl s), rfl, .inl rfl⟩
  | retry _ _ _ => exact ⟨keepsBut_retryStatus, retryStatus_step .., .inl rfl⟩
  | failureModule _ _ _ _ _ =>
    refine ⟨keepsBut_of_keeps fun i m' _ _ hm => ⟨m', ?_, .refl _⟩, failureStatus_step .., .inr rfl⟩
    rwa [failureStatus_modules] at hm

lemma step_of_writePushed (h : -1 ≤ k)
    (hplace : start.step = .fromI32AndLen k flow.modules.length ∨ start.step = .failureStep) :
    (writePushed flow start m s).step = k ∨ (writePushed flow start m s).step =
    flow.modules.length := by
  unfold writePushed
  cases hstep : start.step with
  | failureStep => exact .inr rfl
  | step i n =>
    rw [hstep] at hplace
    exact .inl (fromI32AndLen_eq_step.mp (hplace.resolve_right nofun).symm).1.symm
  | preprocessorStep =>
    rw [hstep, Step.fromI32AndLen] at hplace
    split_ifs at hplace with hneg
    · exact .inl (by show -1 = k; omega)
    · exact absurd hplace (by simp)
    · exact absurd hplace (by simp)

/-- Without a module under the step counter a handler is chosen. -/
lemma leafPlace (hneg : k < 0)
    (hplace : start.step = .fromI32AndLen k n ∨ start.step = .failureStep)
    (hmod : flowModuleAt flow (placeOf start.step) = some start.module) :
    flow.failureModule = some start.module ∨ flow.preprocessorModule = some start.module := by
  rw [Step.fromI32AndLen, if_pos hneg] at hplace
  rcases hplace with hplace | hplace
  · rw [hplace] at hmod
    exact .inr hmod
  · rw [hplace] at hmod
    exact .inl hmod

lemma moves_of_pushes (hs : Shape flow db.status)
    (h : Pushes w flow flowEnv lastResult db (.fromI32AndLen db.status.step flow.modules.length)
      statusModule db' res) : Moves flow db.status db'.status := by
  cases h with
  | failed e | ended update => exact moves_of_tracks (.refl _)
  | parked _ hgate =>
    obtain ⟨_, _, conditions, hneeds, hdec, rfl⟩ := suspendGate_parked hgate
    obtain ⟨-, -, i, -, hi, -⟩ := needsResume_some hneeds
    simp only [gateStatus, hdec]
    have h0 : 0 ≤ (storeConditions conditions db.status).step := by
      show 0 ≤ db.status.step
      omega
    exact ⟨fun _ => keepsBut_setModule h0 hs.length, .inl rfl⟩
  | refused _ hgate | stuck _ hgate e => exact moves_of_tracks (suspendGate_tracks rfl hgate)
  | chosen _ hgate hch e =>
    have htracks := suspendGate_tracks rfl hgate
    obtain ⟨hkeeps, hstep, -⟩ := keepsBut_chosen hch
    rw [htracks.step] at hkeeps hstep
    exact ⟨fun _ => (keepsBut_of_tracks htracks).trans hkeeps, .inl hstep⟩
  | started _ hgate hch hstart =>
    have htracks := suspendGate_tracks rfl hgate
    have hs' := (hs.tracks htracks).chosen hch
    obtain ⟨hkeeps, hstep, hplace⟩ := keepsBut_chosen hch
    obtain ⟨hmod, -⟩ := chosen_place hch
    rw [htracks.step] at hkeeps hstep
    have hkept := (keepsBut_of_tracks htracks).trans hkeeps
    obtain ⟨_, -, ⟨branch, hnext, rfl, -⟩ | ⟨_, _, -, hcom, -⟩⟩ := startModule_ok hstart
    · refine ⟨fun hleaf => hkept.trans ?_, .inl hstep⟩
      -- a handler, which is a leaf, has no inner flows
      by_cases hneg : db.status.step < 0
      · exact absurd hnext (not_emptyInnerFlows (hleaf hneg _ (leafPlace hneg hplace hmod)))
      · rw [← hstep] at hneg ⊢
        exact keepsBut_setModule (not_lt.mp hneg) hs'.length
    · obtain ⟨_, m, _, -, -, rfl⟩ := commitJobs_ok hcom
      have hputs := @puts_writePushed flow _ _ (fun i n hi => by
        rw [hi] at hmod
        exact (List.getElem?_eq_some_iff.mp hmod).1.trans_le hs'.length) m
      refine ⟨fun _ => hkept.trans (keepsBut_of_writes hputs.writes fun i hi heq => ?_),
        (step_of_writePushed hs.step hplace).imp_right .inl⟩
      rcases hplace with hplace | hplace
      · rw [hplace] at heq
        exact placeOf_fromI32AndLen heq
      · rw [hplace] at heq
        cases heq

/-! ### A report -/

lemma moves_of_commits {old r c} (hs : Shape flow s) (hold : Tracks old s)
    (h : Commits w flow old s r c) : Moves flow s c.status := by
  have hplace : ∀ i : ℕ, placeOf old.moduleStep = .module i → (i : ℤ) = s.step := fun i hi =>
    (placeOf_fromI32AndLen hi).trans hold.step.symm
  have hhere : ∀ i : ℕ, s.step = i → i < flow.modules.length → placeOf old.moduleStep = .module i :=
    fun i hi hlt => by
    have hlen := hs.length
    rw [hold.length] at hlen
    rw [FlowStatus.moduleStep, ← hold.step, hi, fromI32AndLen_natCast (hlt.trans_le hlen)]
    rfl
  cases h with
  | goesOn _ _ _ _ _ _ htracks => exact moves_of_tracks htracks
  | ok hwrites _ hstep _ _ _ =>
    refine ⟨fun _ => keepsBut_of_writes hwrites fun i _ => hplace i,
      .inr (.inr ⟨hstep, fun i hi hlt => ?_⟩)⟩
    exact ⟨_, hhere i hi hlt ▸ hwrites.here, rfl⟩
  | failed hwrites _ _ _ hstep _ _ =>
    refine ⟨fun _ => keepsBut_of_writes hwrites fun i _ => hplace i, ?_⟩
    rcases hstep with hstep | ⟨hstep, -⟩
    · exact .inl hstep
    · exact .inr (.inr ⟨hstep, fun i hi hlt => ⟨_, hhere i hi hlt ▸ hwrites.here, rfl⟩⟩)

end

section

variable {flow : FlowValue} {s s' : RunState} {a : RunAction} {status status' : FlowStatus}

lemma moves_step (hne : flow.modules ≠ []) (hs : Shape flow s.db.status) (hread : ReadsStored s a)
    (h : runStep flow s a = some s') : Moves flow s.db.status s'.db.status ∧
    Shape flow s'.db.status := by
  have hreport : ∀ {w old r tries}, Tracks old s.db.status →
      Moves flow s.db.status (reported w flow old r tries s).db.status ∧
      Shape flow (reported w flow old r tries s).db.status := fun {w old r tries} hold => by
    have hh := handleReport_handles w flow old r tries s.db
    refine ⟨hh.invariant (moves_of_tracks (.refl _)) (fun hup => ?_) fun hup => ?_,
      hs.handles hold hh⟩
    · exact moves_of_tracks (updateStatus_nonLastParallelBranch hup).1
    · exact moves_of_commits hs hold (updateStatus_commits hne hs hold hup)
  cases runStep_steps h with
  | pull _ | request _ => exact ⟨moves_of_tracks (.refl _), hs⟩
  | @push w lastResult _ _ =>
    have hpush := @pushNextFlowJob_pushes w flow (resolvedEnv w flow) lastResult s.db
    exact ⟨moves_of_pushes hs hpush, hs.pushes hpush⟩
  | report _ | again _ => exact hreport hread

/-- The modules before the step counter have ended, while it is at a module, and those behind it
wait. -/
structure InOrder (flow : FlowValue) (status : FlowStatus) : Prop where
  before : status.step < flow.modules.length → ∀ i : ℕ, (i : ℤ) < status.step → HasEnded status i
  behind : LeafHandlers flow → ∀ i < flow.modules.length, status.step < i →
    ∃ id, status.modules[i]? = some (.waitingForPriorSteps id)

lemma inOrder_new (flow : FlowValue) : InOrder flow (.new flow) := by
  refine ⟨fun _ i hi => ?_, fun _ i hi _ => ?_⟩
  · simp only [FlowStatus.new] at hi
    split_ifs at hi <;> omega
  · exact ⟨flow.modules[i].id, by simp [FlowStatus.new, hi]⟩

lemma Moves.kept (h : Moves flow status status') (hs' : Shape flow status') {i : ℕ}
    (hi : i < flow.modules.length)
    (hlt : (i : ℤ) < status.step) : (i : ℤ) < status'.step ∧ ∃ m m', status.modules[i]? = some m ∧
      status'.modules[i]? = some m' ∧ SameWork m m' := by
  refine ⟨by rcases h.step with h | h | ⟨h, -⟩ <;> omega, ?_⟩
  obtain ⟨m, hm, hsame, -⟩ := h.keeps (fun _ => by omega) hi (by omega)
    (List.getElem?_eq_getElem (hi.trans_le hs'.length))
  exact ⟨m, _, hm, List.getElem?_eq_getElem _, hsame (by omega)⟩

lemma HasEnded.sameWork {i : ℕ} {m m'} (h : HasEnded status i) (hm : status.modules[i]? = some m)
    (hm' : status'.modules[i]? = some m') (hsame : SameWork m m') : HasEnded status' i := by
  obtain ⟨m₀, hm₀, hend⟩ := h
  cases hm.symm.trans hm₀
  cases hsame with
  | refl => exact ⟨_, hm', hend⟩
  | inProgress => cases hend
  | approved => exact ⟨_, hm', rfl⟩

lemma InOrder.moves (h : InOrder flow status) (hs' : Shape flow status')
    (hmoves : Moves flow status status') : InOrder flow status' := by
  refine ⟨fun hlt i hi => ?_, fun hleaf i hi hlt => ?_⟩
  · have hold : (i : ℤ) < status.step → HasEnded status' i := fun hi => by
      obtain ⟨-, m, m', hm, hm', hsame⟩ :=
        hmoves.kept hs' (i := i) (by rcases hmoves.step with h | h | ⟨h, -⟩ <;> omega) hi
      refine (h.before ?_ i hi).sameWork hm hm' hsame
      rcases hmoves.step with h | h | ⟨h, -⟩ <;> omega
    rcases hmoves.step with hstep | hstep | ⟨hstep, hend⟩
    · exact hold (hstep ▸ hi)
    · omega
    · by_cases hlast : (i : ℤ) < status.step
      · exact hold hlast
      · exact hend i (by omega) (by omega)
  · have hle : status.step < i := by rcases hmoves.step with h | h | ⟨h, -⟩ <;> omega
    obtain ⟨id, hm⟩ := h.behind hleaf i hi hle
    have hm' := List.getElem?_eq_getElem (hi.trans_le hs'.length)
    obtain ⟨m, hm₀, -, hwait⟩ := hmoves.keeps (fun _ => hleaf) hi (by omega) hm'
    cases hm.symm.trans hm₀
    exact ⟨id, hwait rfl ▸ hm'⟩

end

/-- **The modules of a flow run in order.** The modules before the step counter have ended while it
is at a module, they stay before it, and keep their work for the rest of the run; the modules behind
it wait. -/
theorem modules_run_in_order {flow : FlowValue} {as bs : List RunAction} {s t : RunState}
    (hmeets : Meets (runStep flow) ReadsStored as (.start flow))
    (hs : run (runStep flow) as (.start flow) = some s)
    (hmeets' : Meets (runStep flow) ReadsStored bs s) (ht : run (runStep flow) bs s = some t) :
    InOrder flow s.db.status ∧ ∀ i < flow.modules.length, (i : ℤ) < s.db.status.step →
    (i : ℤ) < t.db.status.step ∧
      ∃ m m', s.db.status.modules[i]? = some m ∧ t.db.status.modules[i]? = some m' ∧
      SameWork m m' := by
  by_cases hne : flow.modules = []
  · have hnil : flow.modules.length = 0 := List.length_eq_zero_iff.mpr hne
    exact ⟨⟨fun _ _ _ => by omega, fun _ _ _ => by omega⟩, fun _ _ => by omega⟩
  have hinv := run_invariant (I := fun u => Shape flow u.db.status ∧ InOrder flow u.db.status)
    (fun hI hread h => by
      obtain ⟨hmoves, hs'⟩ := moves_step hne hI.1 hread h
      exact ⟨hs', hI.2.moves hs' hmoves⟩) ⟨shape_new flow, inOrder_new flow⟩ hmeets hs
  refine ⟨hinv.2, fun i hi hlt => ?_⟩
  have hm := List.getElem?_eq_getElem (hi.trans_le hinv.1.length)
  refine (run_invariant (I := fun u => Shape flow u.db.status ∧ (i : ℤ) < u.db.status.step ∧
      ∃ m m', s.db.status.modules[i]? = some m ∧ u.db.status.modules[i]? = some m' ∧ SameWork m m')
    (fun hI hread h => ?_) ⟨hinv.1, hlt, _, _, hm, hm, .refl _⟩ hmeets' ht).2
  obtain ⟨hs, hlt, m, m', hm, hm', hsame⟩ := hI
  obtain ⟨hmoves, hs'⟩ := moves_step hne hs hread h
  obtain ⟨hlt', m₁, m₂, hm₁, hm₂, hsame'⟩ := hmoves.kept hs' hi hlt
  cases hm'.symm.trans hm₁
  exact ⟨hs', hlt', m, m₂, hm, hm₂, hsame.trans hsame'⟩

/-- After its first step the flow of `Passes` is in order, and its second step leaves the first as
it is. -/
theorem approval_flow_in_order : InOrder approvalFlow (stepEnded 1000 2000 approvedOnce).db.status ∧
    ∀ i < approvalFlow.modules.length, (i : ℤ) < (stepEnded 1000 2000 approvedOnce).db.status.step →
      (i : ℤ) < (stepEnded 2000 3000 (stepEnded 1000 2000 approvedOnce)).db.status.step ∧
      ∃ m m', (stepEnded 1000 2000 approvedOnce).db.status.modules[i]? = some m ∧
        (stepEnded 2000 3000 (stepEnded 1000 2000 approvedOnce)).db.status.modules[i]? = some m' ∧
        SameWork m m' :=
  @modules_run_in_order approvalFlow (approveOnce ++ endStep 1000 2000 approvedOnce)
    (endStep 2000 3000 (stepEnded 1000 2000 approvedOnce)) _ _
    (meets_cons trivial rfl (meets_cons trivial rfl
      (meets_cons trivial rfl (meets_cons (Tracks.refl _) rfl
      (meets_cons trivial rfl trivial))))) rfl
      (meets_cons (Tracks.refl _) rfl (meets_cons trivial rfl trivial)) rfl

end Windmill.Flow.Order
