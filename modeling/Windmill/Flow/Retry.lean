import Windmill.Flow.Subflow

/-! # The retry decision, taken twice

When a step fails, the handler decides whether it will be retried (`shouldRetry`, and for a module
that continues on error `continuesPast`), and the push decides it again from the stored status
(`pushRetry`). Both call `evaluate_retry`, with different arguments. -/

namespace Windmill.Flow.Retry

open Value Status Reads Completion Push Chain Subflow Option

def withEval (w : World) (eval : String → EvalContext → Except Error Json) : World :=
  { w with evalTimeout := eval }

def willRetry (decision : Except Error (Option (ℕ × ℕ))) : Bool :=
  match decision with
  | .ok (some _) => true
  | _ => false

def Exhausted (retry : Retry) (status : RetryStatus) : Prop :=
  retry.budget ≤ status.failCount ∨ maxRetryAttempts < status.failCount

variable {w : World} {flow : FlowValue} {old : FlowStatus} {r : Report} {m : FlowModule}
  {args : Args} {result : Json} {env : Option Args} {retry : Retry} {status : RetryStatus}

lemma willRetry_evaluateRetry : willRetry (evaluateRetry w retry status result args env) = true ↔
      ¬ Exhausted retry status ∧ ∀ retryIf, retry.retryIf = some retryIf →
        computeBoolFromExpr w retryIf.expr ⟨args, env, result, none, none, none⟩ = .ok true := by
  have hint := @Retry.interval_isSome retry w.draw status.failCount
  unfold evaluateRetry Exhausted
  by_cases hmax : maxRetryAttempts < status.failCount
  · simp [willRetry, hmax]
  rw [if_neg hmax]
  have hleft : willRetry (.ok ((retry.interval w.draw status.failCount).map fun d =>
      (status.failCount + 1, min d maxRetryInterval))) = true ↔
      ¬ (retry.budget ≤ status.failCount ∨ maxRetryAttempts < status.failCount) := by
    cases hi : retry.interval w.draw status.failCount with
    | none =>
      rw [hi] at hint
      simp only [isSome_none, Bool.false_eq, decide_eq_false_iff_not] at hint
      simp [willRetry]
      omega
    | some d =>
      rw [hi] at hint
      simp only [isSome_some, Bool.true_eq, decide_eq_true_eq] at hint
      simp [willRetry]
      omega
  cases hr : retry.retryIf with
  | none => simpa using hleft
  | some retryIf =>
    dsimp only
    have hone : (∀ r, some retryIf = some r → computeBoolFromExpr w r.expr
        ⟨args, env, result, none, none, none⟩ = .ok true) ↔
        computeBoolFromExpr w retryIf.expr ⟨args, env, result, none, none, none⟩ = .ok true := by
      simp
    rw [hone]
    cases hb : computeBoolFromExpr w retryIf.expr ⟨args, env, result, none, none, none⟩ with
    | error e => simp [willRetry]
    | ok b => cases b with
      | false => simp [willRetry]
      | true => simpa using hleft

lemma decisions_agree_iff {result' env'} :
    (∀ eval, willRetry (evaluateRetry (withEval w eval) retry status result args env)
        = willRetry (evaluateRetry (withEval w eval) retry status result' args env')) ↔
      retry.retryIf = none ∨ Exhausted retry status ∨ (env = env' ∧ result = result') := by
  constructor
  · intro hall
    by_contra hno
    simp only [not_or, not_and] at hno
    obtain ⟨hif, hleft, hctx⟩ := hno
    obtain ⟨retryIf, hretry⟩ := ne_none_iff_exists'.mp hif
    -- an engine that tells the two contexts apart
    classical
    let first : EvalContext := ⟨args, env, result, none, none, none⟩
    have hne : (⟨args, env', result', none, none, none⟩ : EvalContext) ≠ first := by
      intro heq
      have henv := congrArg EvalContext.flowEnv heq
      have hres := congrArg EvalContext.result heq
      exact hctx henv.symm hres.symm
    have h := hall fun _ ctx => .ok (.bool (decide (ctx = first)))
    have htrue : willRetry (evaluateRetry (withEval w fun _ ctx =>
      .ok (.bool (decide (ctx = first))))
        retry status result args env) = true := by
      refine willRetry_evaluateRetry.mpr ⟨hleft, fun r _ => ?_⟩
      simp [computeBoolFromExpr, withEval, first]
    rw [htrue] at h
    have hsnd := (willRetry_evaluateRetry.mp h.symm).2 retryIf hretry
    simp [computeBoolFromExpr, withEval, hne] at hsnd
  · rintro hcond eval
    rw [Bool.eq_iff_iff, willRetry_evaluateRetry, willRetry_evaluateRetry]
    rcases hcond with hnone | hex | ⟨rfl, rfl⟩
    · simp [hnone]
    · exact ⟨fun h => absurd hex h.1, fun h => absurd hex h.1⟩
    · rfl

/-! ### The decision of the handler and of the push -/

lemma continuesPast_eq_shouldRetry {early} (hc : early.continueOnError = true)
    (hm : currentModule flow old = some m) :
    continuesPast w flow old r early = (shouldRetry w flow old r).map (!·) := by
  have hat : flow.getFlowModuleAtStep old.moduleStep = .ok m := by
    unfold currentModule at hm
    cases hs : old.moduleStep with
    | step i len => rw [hs] at hm; simp only [FlowValue.getFlowModuleAtStep, hm]
    | _ => simp [hs] at hm
  unfold continuesPast shouldRetry
  rw [if_pos hc, hat, hm]
  simp only [bind_some]
  cases evaluateRetry w (m.retry.getD .default) old.retry r.result w.flowJob.args none with
  | error e => rfl
  | ok d => cases d <;> rfl

lemma shouldRetry_iff (hm : flow.getFlowModuleAtStep old.moduleStep = .ok m) :
    shouldRetry w flow old r = .ok true ↔ willRetry (evaluateRetry w (m.retry.getD .default)
      old.retry r.result w.flowJob.args none) = true := by
  unfold shouldRetry
  rw [hm]
  dsimp only
  cases evaluateRetry w (m.retry.getD .default) old.retry r.result w.flowJob.args none with
  | error e => simp [willRetry, Except.map]
  | ok d => cases d <;> simp [willRetry, Except.map]

/-- The handler's decision to retry the failed step, and its decision not to move past it, are the
decision of the push on the status the handler stored. -/
def DecisionsAgree (w : World) (flow : FlowValue) (old : FlowStatus) (r : Report) (c : Committed)
    (m : FlowModule) (f : Failure) : Prop :=
  let retried := willRetry (pushRetry w (resolvedEnv w flow) c.status m (.failure f) c.nresult) =
    true
  (shouldRetry w flow old r = .ok true ↔ retried) ∧
    ∀ early : EarlyStop, early.continueOnError = true → currentModule flow old = some m →
      (continuesPast w flow old r early = .ok false ↔ retried)

lemma decisionsAgree_iff {cur c f} (hup : updateStatus w flow old cur r = .ok (.committed c))
    (hf : c.transition.newStatus = some (.failure f)) (htrack : Tracks old cur)
    (hm : flow.getFlowModuleAtStep old.moduleStep = .ok m)
    (eval : String → EvalContext → Except Error Json) :
    DecisionsAgree (withEval w eval) flow old r c m f ↔
      willRetry (evaluateRetry (withEval w eval) (m.retry.getD .default)
        old.retry r.result w.flowJob.args none)
        = willRetry (evaluateRetry (withEval w eval) (m.retry.getD .default) old.retry c.nresult
          w.flowJob.args (resolvedEnv w flow)) := by
  obtain ⟨status, early, -, -, htrans, -, hst⟩ := updateStatus_committed hup
  have hretry : c.status.retry = old.retry := by
    rw [hst, commitTransition_retry, hf]
    exact (moduleTransition_tracks htrans).retry.trans htrack.retry
  have hpush : pushRetry (withEval w eval) (resolvedEnv (withEval w eval) flow) c.status m
    (.failure f)
      c.nresult = evaluateRetry (withEval w eval) (m.retry.getD .default) old.retry c.nresult
        w.flowJob.args (resolvedEnv w flow) := by
    rw [← hretry]
    rfl
  unfold DecisionsAgree
  rw [hpush]
  have hshould := @shouldRetry_iff (withEval w eval) flow old r m hm
  constructor
  · rintro ⟨hagree, -⟩
    exact Bool.eq_iff_iff.mpr (hshould.symm.trans hagree)
  intro heq
  have hagree := Bool.eq_iff_iff.mp heq
  refine ⟨hshould.trans hagree, fun early hc hcur => ?_⟩
  rw [continuesPast_eq_shouldRetry hc hcur]
  refine Iff.trans ?_ (hshould.trans hagree)
  cases shouldRetry (withEval w eval) flow old r with
  | error e => simp [Except.map]
  | ok b => cases b <;> simp [Except.map]

/-- **The handler and the push take the same retry decision for all expressions exactly when** the
step has no `retry_if` or no attempt left, or the flow has no environment and the step leaves the
reported result. -/
theorem retry_decisions_agree_iff {w : World} {flow : FlowValue} {old cur : FlowStatus} {r : Report}
    {c : Committed}
    {m : FlowModule} {f : Failure} (hup : updateStatus w flow old cur r = .ok (.committed c))
    (hf : c.transition.newStatus = some (.failure f)) (htrack : Tracks old cur)
    (hm : flow.getFlowModuleAtStep old.moduleStep = .ok m) :
    (∀ eval, DecisionsAgree (withEval w eval) flow old r c m f) ↔ (m.retry.getD .default).retryIf =
    none ∨ Exhausted (m.retry.getD .default) old.retry ∨
    (flow.flowEnv = none ∧ ∃ success, stepOutcome w flow old r = .ok (success, r.result)) := by
  have houtcome := stepOutcome_of_committed hup
  have hsame : (∃ success, stepOutcome w flow old r = .ok (success, r.result)) ↔
      r.result = c.nresult := by
    rw [houtcome]
    constructor
    · rintro ⟨success, h⟩
      exact (Prod.mk.inj (Except.ok.inj h)).2.symm
    · intro h
      exact ⟨_, by rw [h]⟩
  have henv : flow.flowEnv = none ↔ none = resolvedEnv w flow := by
    unfold resolvedEnv
    rw [eq_comm (a := none), map_eq_none_iff]
  rw [forall_congr' (decisionsAgree_iff hup hf htrack hm), decisions_agree_iff, hsame, henv]

/-! ### A `retry_if` that reads the environment -/

def regionFlow : FlowValue where
  modules := [{ id := "a", value := .script
                retry := some ⟨⟨1, 0⟩, ⟨0, 1, 0, none⟩, some ⟨"flow_env?.region != \"eu\""⟩⟩ }]
  flowEnv := some [("region", .str "eu")]

def regionWorld : World := withEval (.plain (.plain 2)) fun _ ctx => .ok (.bool ctx.flowEnv.isNone)

def regionRunning : FlowDb where
  status := { FlowStatus.new regionFlow with modules := [.waitingForExecutor "a" 7] }
  suspend := 0
  suspendUntil := false
  resumeJobs := []
  iteratorData := none
  queued := []

def regionFails : Report := { jobIdForStatus := 7, success := false, result := .null }

theorem retry_decisions_region : ∃ c m f,
    updateStatus regionWorld regionFlow regionRunning.status regionRunning.status regionFails = .ok
    (.committed c) ∧ c.transition.newStatus = some (.failure f) ∧
      regionFlow.getFlowModuleAtStep regionRunning.status.moduleStep = .ok m ∧
      ((∀ eval, DecisionsAgree (withEval regionWorld eval) regionFlow regionRunning.status
        regionFails c m f) ↔
        (m.retry.getD .default).retryIf = none ∨ Exhausted
        (m.retry.getD .default) regionRunning.status.retry ∨
          (regionFlow.flowEnv = none ∧ ∃ success, stepOutcome regionWorld regionFlow
            regionRunning.status regionFails = .ok (success, regionFails.result))) :=
  ⟨_, _, _, rfl, rfl, rfl, retry_decisions_agree_iff rfl rfl (Tracks.refl _) rfl⟩

/-- The handler goes on to retry the step, and the push, which sees the environment, refuses: the
flow ends with the error that it has no failure module. -/
theorem retry_refused_region : shouldRetry regionWorld regionFlow regionRunning.status regionFails =
    .ok true ∧
      ∃ h, updateInternal 1 regionWorld regionFlow regionRunning.status regionRunning regionFails =
      some h ∧ h.recorded
          = some ⟨false, false, none, wrappedError (chainingError ⟨"missing failure module"⟩)⟩ :=
  ⟨rfl, _, rfl, rfl⟩

end Windmill.Flow.Retry
