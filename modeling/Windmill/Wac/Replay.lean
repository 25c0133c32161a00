import Windmill.Wac.Client

/-! # Replay against the direct run

The keys of the direct run are a list of entries in the order of allocation. A run on a checkpoint
follows the direct run up to the first await of a step that is not recorded, and suspends there
(`simulates`).

This needs that no handler takes a suspension for an error (`Rethrows`), that no result looks like
an error marker (`PlainResults`), and that in a `Promise.all` no failed task stands before a task
that was called after a later await (`Ordered`). -/

namespace Windmill.Wac.Replay

open Flow.Value Checkpoint Machine Client List

/-! ### The direct run only adds -/

/-- The state `d'` of the direct run comes after `d`. -/
structure Grow (d d' : Direct) : Prop where
  entries : ∃ new, d'.entries = d.entries ++ new ∧ ∀ e ∈ new, d.epoch ≤ e.epoch
  epoch : d.epoch ≤ d'.epoch
  alls : ∀ hs ∈ d.alls, hs ∈ d'.alls

lemma Grow.refl (d : Direct) : Grow d d :=
  ⟨⟨[], (append_nil _).symm, nofun⟩, le_rfl, fun _ h => h⟩

variable {d' d : Direct} {e : Entry} {v : Json} {fn : ℕ} {args C : JsonMap} {hs : List String}
  {E : List Entry} {env : Env}

lemma Grow.trans {d''} (h : Grow d d') (h' : Grow d' d'') : Grow d d'' := by
  obtain ⟨new, hnew, hepoch⟩ := h.entries
  obtain ⟨new', hnew', hepoch'⟩ := h'.entries
  refine ⟨⟨new ++ new', by rw [hnew', hnew, append_assoc], fun e he => ?_⟩,
    h.epoch.trans h'.epoch, fun hs hmem => h'.alls hs (h.alls hs hmem)⟩
  rcases mem_append.mp he with he | he
  · exact hepoch e he
  · exact h.epoch.trans (hepoch' e he)

lemma grow_alloc (d : Direct) (name : String) (kind : StepKind) : Grow d (d.alloc name kind) :=
  ⟨⟨_, rfl, fun e he => by rw [mem_singleton.mp he]⟩, le_rfl, fun _ h => h⟩

lemma grow_pass (d : Direct) : Grow d d.pass := ⟨(Grow.refl d).entries, Nat.le_succ _, fun _ h => h⟩

lemma grow_await (env : Env) (d : Direct) (hs : List String) : Grow d (d.await env hs) :=
  ⟨(Grow.refl d).entries, Nat.le_succ _, fun _ h => h⟩

lemma grow_all (env : Env) (d : Direct) (hs : List String) :
    Grow d { d.await env hs with alls := d.alls ++ [hs] } :=
  ⟨(Grow.refl d).entries, Nat.le_succ _, fun _ h => mem_append_left _ h⟩

lemma direct_grow (env : Env) : ∀ p d, Grow d (direct env p d).2
  | .ret v, d => .refl d
  | .throw c, d => .refl d
  | .call fn name script args k, d => (grow_alloc d _ _).trans (direct_grow env _ _)
  | .await h k, d => by
    rw [direct]
    split_ifs
    · exact grow_await env d [h]
    · exact (grow_await env d [h]).trans (direct_grow env _ _)
  | .all hs k, d => by
    rw [direct]
    dsimp only
    split_ifs
    · exact grow_all env d hs
    · exact (grow_all env d hs).trans (direct_grow env _ _)
  | .step name fn k, d => by
    have hstep := (grow_alloc d (if name ≠ "" then name else "step") (.step fn)).trans (grow_pass _)
    cases fn with
    | error c => exact hstep
    | ok v => exact hstep.trans (direct_grow env _ _)
  | .sleep seconds k, d => ((grow_alloc d "sleep" .sleep).trans (grow_pass _)).trans
      (direct_grow env k _)
  | .approval timeout selfApproval k, d =>
    ((grow_alloc d "approval" .approval).trans (grow_pass _)).trans (direct_grow env _ _)
  | .tryCatch body onFail rethrows onSuspend k, d => by
    have hbody := direct_grow env body d
    rw [direct]
    cases hb : direct env body d with
    | mk r d₁ =>
      rw [hb] at hbody
      cases r with
      | ok v => exact hbody.trans (direct_grow env _ _)
      | error c =>
        have hfail := direct_grow env (onFail c) d₁
        dsimp only
        cases hf : direct env (onFail c) d₁ with
        | mk r' d₂ =>
          rw [hf] at hfail
          cases r' with
          | ok v => exact (hbody.trans hfail).trans (direct_grow env _ _)
          | error c' => exact hbody.trans hfail

section TryCatch

variable {body : Prog} {d₁ : Direct} (onFail : FailClass → Prog) (rethrows : Bool)
  (onSuspend : Prog) (k : Json → Prog)

lemma grow_handler {c} (hd : direct env body d = (.error c, d₁)) : Grow (direct env (onFail c) d₁).2
    (direct env (.tryCatch body onFail rethrows onSuspend k) d).2 := by
  rw [direct, hd]
  dsimp only
  cases direct env (onFail c) d₁ with
  | mk r d₂ =>
    cases r with
    | ok v => exact direct_grow env (k v) d₂
    | error c' => exact .refl d₂

lemma grow_body (env : Env) (body : Prog) (d : Direct) :
    Grow (direct env body d).2 (direct env (.tryCatch body onFail rethrows onSuspend k) d).2 := by
  cases hd : direct env body d with
  | mk r d₁ =>
    cases r with
    | ok v =>
      rw [direct, hd]
      exact direct_grow env (k v) d₁
    | error c =>
      exact (direct_grow env (onFail c) d₁).trans (grow_handler onFail rethrows onSuspend k hd)

end TryCatch

/-! ### The entries and the checkpoint -/

def recordOf (env : Env) (e : Entry) : Option Json :=
  match e.kind with
  | .task fn args => some (env.taskRecord e.key fn args)
  | .step (.ok v) => some v
  | .step (.error _) => none
  | .sleep => some (.bool true)
  | .approval => some (env.approval e.key)

def calledOf (e : Entry) : Option Called :=
  match e.kind with
  | .task fn args => some { key := e.key, fn, args }
  | _ => none

def failsIn (env : Env) (e : Entry) : Bool :=
  match e.kind with
  | .task fn args => taskFails (some (env.task fn args))
  | _ => false

def unrecorded (C : JsonMap) (es : List Entry) : List String :=
  (es.filter fun e => (calledOf e).isSome && (C.lookup e.key).isNone).map (·.key)

/-- The entries `E` of a direct run, and a checkpoint that was recorded for it. -/
structure Recorded (env : Env) (E : List Entry) (C : JsonMap) : Prop where
  nodup : (E.map (·.key)).Nodup
  correct : ∀ key v, C.lookup key = some v → ∃ e ∈ E, e.key = key ∧ recordOf env e = some v
  closed : ∀ e ∈ E, ∀ e' ∈ E, (calledOf e).isSome → (calledOf e').isSome → e'.epoch ≤ e.epoch →
    (C.lookup e.key).isSome → (C.lookup e'.key).isSome

/-- No result of a task or an inline step looks like an error marker. -/
def PlainResults (env : Env) (E : List Entry) : Prop :=
  ∀ e ∈ E, failsIn env e = false → ∀ v, recordOf env e = some v → e.kind ≠ .approval →
    isErrorMarker v = false

/-- In a `Promise.all`, a task that stands after a failing one was called before the first await
after the call of the failing one. -/
def Ordered (env : Env) (E : List Entry) (hs : List String) : Prop :=
  hs.Pairwise fun h h' => ∀ e ∈ E, ∀ e' ∈ E, e.key = h → e'.key = h' → failsIn env e = true →
    (calledOf e').isSome → e'.epoch ≤ e.epoch

def Rethrows : Prog → Prop
  | .ret _ => True
  | .throw _ => True
  | .call _ _ _ _ k => ∀ h, Rethrows (k h)
  | .await _ k => ∀ v, Rethrows (k v)
  | .all _ k => ∀ vs, Rethrows (k vs)
  | .step _ _ k => ∀ v, Rethrows (k v)
  | .sleep _ k => Rethrows k
  | .approval _ _ k => ∀ v, Rethrows (k v)
  | .tryCatch body onFail rethrows _ k =>
    Rethrows body ∧ (∀ c, Rethrows (onFail c)) ∧ rethrows = true ∧ ∀ v, Rethrows (k v)

/-- The state `d` is one that the direct run with the entries `E` goes through. -/
def Fits (E : List Entry) (d : Direct) : Prop :=
  ∃ rest, E = d.entries ++ rest ∧ ∀ e ∈ rest, d.epoch ≤ e.epoch

lemma Fits.of_grow (h : Fits E d') (hg : Grow d d') : Fits E d := by
  obtain ⟨rest, rfl, hrest⟩ := h
  obtain ⟨new, hnew, hepoch⟩ := hg.entries
  refine ⟨new ++ rest, by rw [hnew, append_assoc], fun e he => ?_⟩
  rcases mem_append.mp he with he | he
  · exact hepoch e he
  · exact hg.epoch.trans (hrest e he)

lemma Fits.mem (h : Fits E d) (he : e ∈ d.entries) : e ∈ E := by
  obtain ⟨rest, rfl, -⟩ := h
  exact mem_append_left _ he

/-- The state of a run on the checkpoint that has followed the direct run up to `d`. -/
structure Follows (env : Env) (C : JsonMap) (d : Direct) (x : Ctx) : Prop where
  counters : x.counters = d.counters
  called : x.called = d.entries.filterMap calledOf
  pending : x.pending.map (·.key) = unrecorded C d.entries
  running : x.suspended = false
  persisted : ∀ kv ∈ x.persisted, (C.lookup kv.1).isNone ∧
    ∃ e ∈ d.entries, e.key = kv.1 ∧ recordOf env e = some kv.2 ∧ calledOf e = none
  awaited : ∀ h ∈ d.awaited, (C.lookup h).isSome ∧ ∃ e ∈ d.entries, e.key = h ∧ (calledOf e).isSome
  epochs : ∀ e ∈ d.entries, e.epoch ≤ d.epoch

/-- What a suspension of a run has to do with the entries. -/
def Names (E : List Entry) (C : JsonMap) (x : Ctx) : WacOutput → Prop
  | .dispatch _ steps => steps ≠ [] ∧ ∃ front back, E = front ++ back ∧
      (∀ e ∈ front, ∀ e' ∈ back, e.epoch < e'.epoch) ∧ steps.map (·.key) = unrecorded C front ∧
        x.called = front.filterMap calledOf
  | .complete _ => False
  | .inlineCheckpoint key v => (C.lookup key).isNone ∧ ∃ e ∈ E, e.key = key ∧ e.kind = .step (.ok v)
  | .approval key _ _ => (C.lookup key).isNone ∧ ∃ e ∈ E, e.key = key ∧ e.kind = .approval
  | .sleep key _ => (C.lookup key).isNone ∧ ∃ e ∈ E, e.key = key ∧ e.kind = .sleep

structure Suspends (env : Env) (E : List Entry) (C : JsonMap) (out : WacOutput) (x : Ctx) :
  Prop where
  names : Names E C x out
  persisted : ∀ kv ∈ x.persisted, (C.lookup kv.1).isNone ∧
    ∃ e ∈ E, e.key = kv.1 ∧ recordOf env e = some kv.2 ∧ calledOf e = none

/-! ### The lookups of a run -/

lemma mem_unrecorded {es} (he : e ∈ es) (htask : (calledOf e).isSome)
    (hC : (C.lookup e.key).isNone) : e.key ∈ unrecorded C es :=
  mem_map_of_mem (mem_filter.mpr ⟨he, Bool.and_eq_true_iff.mpr ⟨htask, hC⟩⟩)

lemma of_mem_unrecorded {es key} (h : key ∈ unrecorded C es) :
    ∃ e ∈ es, e.key = key ∧ (calledOf e).isSome ∧ (C.lookup key).isNone := by
  obtain ⟨e, hmem, rfl⟩ := mem_map.mp h
  obtain ⟨he, hcond⟩ := mem_filter.mp hmem
  obtain ⟨htask, hC⟩ := Bool.and_eq_true_iff.mp hcond
  exact ⟨e, he, rfl, htask, hC⟩

lemma Recorded.eq_of_key (hrec : Recorded env E C)
    {e' : Entry} (he : e ∈ E) (he' : e' ∈ E) (hkey : e.key = e'.key) : e = e' :=
  inj_on_of_nodup_map hrec.nodup he he' hkey

lemma Recorded.recordOf_eq (hrec : Recorded env E C) (he : e ∈ E) (hv : C.lookup e.key = some v) :
    recordOf env e = some v := by
  obtain ⟨e', he', hkey, hval⟩ := hrec.correct _ _ hv
  rw [← hrec.eq_of_key he' he hkey]
  exact hval

lemma calledOf_eq_some {c} (h : calledOf e = some c) :
    e.kind = .task c.fn c.args ∧ e.key = c.key := by
  unfold calledOf at h
  split at h
  · rename_i fn args hkind
    cases h
    exact ⟨hkind, rfl⟩
  · cases h

lemma calledOf_of_kind (h : e.kind = .task fn args) :
    calledOf e = some { key := e.key, fn, args } := by
  unfold calledOf
  rw [h]

lemma isSome_calledOf (h : e.kind = .task fn args) : (calledOf e).isSome := by
  rw [calledOf_of_kind h]
  rfl

lemma isHandle_iff {x : Ctx} (hf : Follows env C d x) (h : String) :
    x.isHandle h = true ↔ ∃ e ∈ d.entries, ∃ fn args, e.kind = .task fn args ∧ e.key = h := by
  unfold Ctx.isHandle
  rw [hf.called]
  simp only [any_eq_true, mem_filterMap, beq_iff_eq]
  constructor
  · rintro ⟨c, ⟨e, he, hc⟩, hkey⟩
    obtain ⟨hkind, hek⟩ := calledOf_eq_some hc
    exact ⟨e, he, c.fn, c.args, hkind, hek.trans hkey⟩
  · rintro ⟨e, he, fn, args, hkind, hkey⟩
    exact ⟨_, ⟨e, he, calledOf_of_kind hkind⟩, hkey⟩

lemma taskOf_eq (hrec : Recorded env E C) (hfit : Fits E d) (he : e ∈ d.entries)
    (hkind : e.kind = .task fn args) : d.taskOf env e.key = some (env.task fn args) := by
  cases hfind : d.taskOf env e.key with
  | none =>
    have hnone := findSome?_eq_none_iff.mp hfind e he
    rw [hkind] at hnone
    simp at hnone
  | some r =>
    obtain ⟨e', he', hr⟩ := exists_of_findSome?_eq_some hfind
    split at hr
    · rename_i fn' args' hkind'
      split_ifs at hr with hkey
      · have heq := hrec.eq_of_key (hfit.mem he') (hfit.mem he) hkey
        subst heq
        rw [hkind] at hkind'
        cases hkind'
        exact hr.symm
    · cases hr

lemma taskOf_eq_none {h} (hno : ¬ ∃ e ∈ d.entries, ∃ fn args, e.kind = .task fn args ∧ e.key = h) :
    d.taskOf env h = none := by
  refine findSome?_eq_none_iff.mpr fun e he => ?_
  split
  · rename_i fn args hkind
    exact if_neg fun hkey => hno ⟨e, he, fn, args, hkind, hkey⟩
  · rfl

/-! ### The handles of a run -/

section Handles

variable {x : Ctx} {h : String}

lemma failsIn_of_kind (hkind : e.kind = .task fn args) : failsIn env e = taskFails
    (some (env.task fn args)) := by
  unfold failsIn
  rw [hkind]

lemma taskRecord_spec (hrec : Recorded env E C) (hplain : PlainResults env E) (he : e ∈ E)
    (hkind : e.kind = .task fn args) (hv : C.lookup e.key = some v) :
    isErrorMarker v = taskFails (some (env.task fn args)) ∧
      (taskFails (some (env.task fn args)) = false →
        v = valueOfTask (some (env.task fn args))) := by
  have hval := hrec.recordOf_eq he hv
  have hfail : failsIn env e = _ := failsIn_of_kind hkind
  have hmark := fun hno => hplain e he hno v hval
  rw [hfail] at hmark
  unfold recordOf at hval
  rw [hkind] at hval hmark
  cases htask : env.task fn args with
  | ok r =>
    rw [htask] at hmark
    simp only [Env.taskRecord, htask, childResult_success, Option.some.injEq] at hval
    exact ⟨hmark rfl nofun, fun _ => hval.symm⟩
  | error err =>
    simp only [Env.taskRecord, htask, Option.some.injEq] at hval
    subst hval
    exact ⟨isErrorMarker_childResult _ _ _, nofun⟩

lemma of_isPending (hf : Follows env C d x) (hp : isPending C x h = true) :
    ∃ e ∈ d.entries, e.key = h ∧ (calledOf e).isSome ∧ (C.lookup h).isNone := by
  obtain ⟨hh, hC⟩ := Bool.and_eq_true_iff.mp hp
  obtain ⟨e, he, fn, args, hkind, hkey⟩ := (isHandle_iff hf h).mp hh
  exact ⟨e, he, hkey, isSome_calledOf hkind, hC⟩

lemma of_hasFailed (hrec : Recorded env E C) (hplain : PlainResults env E) (hf : Follows env C d x)
    (hfit : Fits E d) (hp : hasFailed C x h = true) :
    ∃ e ∈ d.entries, e.key = h ∧ (calledOf e).isSome ∧ failsIn env e = true ∧
    (C.lookup h).isSome := by
  obtain ⟨hh, hC⟩ := Bool.and_eq_true_iff.mp hp
  obtain ⟨e, he, fn, args, hkind, rfl⟩ := (isHandle_iff hf h).mp hh
  cases hv : C.lookup e.key with
  | none =>
    simp [hv] at hC
  | some v =>
    rw [hv] at hC
    obtain ⟨hmark, -⟩ := taskRecord_spec hrec hplain (hfit.mem he) hkind hv
    refine ⟨e, he, rfl, isSome_calledOf hkind, ?_, rfl⟩
    rw [failsIn_of_kind hkind, ← hmark]
    exact hC

/-- A handle that is not pending behaves as in the direct run. -/
structure Settled (env : Env) (C : JsonMap) (d : Direct) (x : Ctx) (h : String) : Prop where
  failed : hasFailed C x h = taskFails (d.taskOf env h)
  value : taskFails (d.taskOf env h) = false → valueOf C x h = valueOfTask (d.taskOf env h)
  recorded : (d.taskOf env h).isSome → (C.lookup h).isSome ∧ ∃ e ∈ d.entries, e.key = h ∧
    (calledOf e).isSome

lemma settled_of_not_pending (hrec : Recorded env E C) (hplain : PlainResults env E)
    (hf : Follows env C d x) (hfit : Fits E d) (hp : isPending C x h = false) :
    Settled env C d x h := by
  by_cases hh : x.isHandle h = true
  · obtain ⟨e, he, fn, args, hkind, rfl⟩ := (isHandle_iff hf h).mp hh
    have htask := taskOf_eq hrec hfit he hkind
    cases hv : C.lookup e.key with
    | none =>
      unfold isPending at hp
      simp [hh, hv] at hp
    | some v =>
      obtain ⟨hmark, hval⟩ := taskRecord_spec hrec hplain (hfit.mem he) hkind hv
      refine ⟨?_, fun hno => ?_, fun _ => ⟨by rw [hv]; rfl, e, he, rfl, isSome_calledOf hkind⟩⟩
      · rw [hasFailed, hh, hv, htask]
        exact hmark
      · rw [valueOf, hh, hv, htask]
        exact hval (htask ▸ hno)
  · have htask : d.taskOf env h = none := taskOf_eq_none fun hex => hh ((isHandle_iff hf h).mpr hex)
    rw [Bool.not_eq_true] at hh
    refine ⟨?_, fun _ => ?_, fun hsome => ?_⟩
    · rw [hasFailed, hh, htask]
      rfl
    · rw [valueOf, hh, htask]
      rfl
    · simp [htask] at hsome

lemma persisted_of_subset (hf : Follows env C d x) {es} (hsub : d.entries ⊆ es) :
    ∀ kv ∈ x.persisted, (C.lookup kv.1).isNone ∧
      ∃ e ∈ es, e.key = kv.1 ∧ recordOf env e = some kv.2 ∧ calledOf e = none := by
  intro kv hkv
  obtain ⟨hnone, e, he, hrest⟩ := hf.persisted kv hkv
  exact ⟨hnone, e, hsub he, hrest⟩

lemma suspends_dispatch (hf : Follows env C d x) (hfit : Fits E d.pass)
    (hp : isPending C x h = true) : Suspends env E C (dispatchOf x.pending) x.suspend := by
  obtain ⟨rest, hE, hrest⟩ := hfit
  obtain ⟨e, he, hkey, htask, hC⟩ := of_isPending hf hp
  subst hkey
  have hmem := mem_unrecorded he htask hC
  refine ⟨⟨fun hnil => ?_, d.entries, rest, hE, fun e he e' he' => ?_, hf.pending, hf.called⟩,
    persisted_of_subset hf fun _ he => hE ▸ mem_append_left _ he⟩
  · rw [← hf.pending, hnil] at hmem
    cases hmem
  · have hle := hf.epochs e he
    have hge : d.epoch + 1 ≤ e'.epoch := hrest e' he'
    omega

lemma not_failed_of_pending (hp : isPending C x h = true) : hasFailed C x h = false := by
  obtain ⟨-, hC⟩ := Bool.and_eq_true_iff.mp hp
  rw [hasFailed, Option.isNone_iff_eq_none.mp hC]
  exact Bool.and_false _

lemma first_not_failed (hrec : Recorded env E C) (hplain : PlainResults env E)
    (hf : Follows env C d x) (hfit : Fits E d) (hord : Ordered env E hs) {h'} (hmem : h' ∈ hs)
    (hp : isPending C x h' = true)
    (hfind : hs.find? (fun h => hasFailed C x h || (isPending C x h && !x.suspended)) = some h) :
    hasFailed C x h = false := by
  obtain ⟨-, as, bs, rfl, has⟩ := find?_eq_some_iff_append.mp hfind
  by_contra hfail
  rw [Bool.not_eq_false] at hfail
  obtain ⟨e, he, rfl, htask, hfails, hsome⟩ := of_hasFailed hrec hplain hf hfit hfail
  obtain ⟨e', he', rfl, htask', hnone⟩ := of_isPending hf hp
  rcases mem_append.mp hmem with hleft | hright
  · have := has _ hleft
    rw [hp, hf.running] at this
    simp at this
  rcases mem_cons.mp hright with heq | hright
  · rw [heq] at hnone
    rw [Option.isNone_iff_eq_none] at hnone
    simp [hnone] at hsome
  · have hpair := (pairwise_cons.mp (pairwise_append.mp hord).2.1).1 _ hright
    have hepoch := hpair e (hfit.mem he) e' (hfit.mem he') rfl rfl hfails htask'
    have hrecd := hrec.closed e (hfit.mem he) e' (hfit.mem he') htask htask' hepoch hsome
    rw [Option.isNone_iff_eq_none] at hnone
    simp [hnone] at hrecd

lemma allStops_of_pending (hrec : Recorded env E C) (hplain : PlainResults env E)
    (hf : Follows env C d x)
    (hfit : Fits E d) (hord : Ordered env E hs) (hmem : h ∈ hs) (hp : isPending C x h = true) :
    allStops C x hs = some (.threw (.suspend (dispatchOf x.pending)), x.suspend) := by
  have hany : hs.any (isPending C x) = true := any_eq_true.mpr ⟨h, hmem, hp⟩
  unfold allStops
  cases hfind : hs.find? fun h => hasFailed C x h || (isPending C x h && !x.suspended) with
  | none =>
    have hno := find?_eq_none.mp hfind h hmem
    rw [hp, hf.running] at hno
    simp at hno
  | some h' =>
    have hnot := first_not_failed hrec hplain hf hfit hord hmem hp hfind
    simp [hnot, hany, hf.running]

lemma allStops_of_settled (hset : ∀ h ∈ hs, Settled env C d x h)
    (hno : ∀ h ∈ hs, isPending C x h = false) :
    allStops C x hs = if hs.any fun h => taskFails (d.taskOf env h) then some
    (.threw (.failed .task), x) else none :=
    by
  have hany : hs.any (isPending C x) = false := any_eq_false.mpr fun h hmem => by
    rw [hno h hmem]
    exact Bool.false_ne_true
  unfold allStops
  rw [hany]
  cases hfind : hs.find? fun h => hasFailed C x h || (isPending C x h && !x.suspended) with
  | none =>
    have hfalse : (hs.any fun h => taskFails (d.taskOf env h)) = false :=
      any_eq_false.mpr fun h hmem hfails => by
        have hnot := find?_eq_none.mp hfind h hmem
        rw [(hset h hmem).failed, hfails] at hnot
        exact hnot rfl
    rw [hfalse]
    rfl
  | some h =>
    have hmem := mem_of_find?_eq_some hfind
    have hfail : hasFailed C x h = true := by
      have hor := find?_some hfind
      rw [hno h hmem] at hor
      simpa using hor
    have htrue : (hs.any fun h => taskFails (d.taskOf env h)) = true :=
      any_eq_true.mpr ⟨h, hmem, (hset h hmem).failed ▸ hfail⟩
    rw [htrue]
    simp [hfail]

end Handles

/-! ### One operation -/

section Operations

variable {x : Ctx}

section

variable (hf : Follows env C d x)
include hf

lemma follows_pass : Follows env C d.pass x :=
  { hf with epochs := fun e he => (hf.epochs e he).trans (Nat.le_succ _) }

lemma follows_await (hset : ∀ h ∈ hs, Settled env C d x h)
    (alls : List (List String)) : Follows env C { d.await env hs with alls } x := by
  have hpass := follows_pass hf
  refine ⟨hpass.counters, hpass.called, hpass.pending, hpass.running, hpass.persisted, fun h hmem =>
    ?_, hpass.epochs⟩
  rcases mem_append.mp hmem with hmem | hmem
  · exact hf.awaited h hmem
  · obtain ⟨hin, hsome⟩ := mem_filter.mp hmem
    exact (hset h hin).recorded hsome

lemma awaited_alloc (name : String) (kind : StepKind) : ∀ h ∈ d.awaited, (C.lookup h).isSome ∧
      ∃ e ∈ (d.alloc name kind).entries, e.key = h ∧ (calledOf e).isSome := by
  intro h hmem
  obtain ⟨hC, e, he, hrest⟩ := hf.awaited h hmem
  exact ⟨hC, e, mem_append_left _ he, hrest⟩

lemma persisted_alloc (name : String) (kind : StepKind) :
    ∀ kv ∈ x.persisted, (C.lookup kv.1).isNone ∧ ∃ e ∈ (d.alloc name kind).entries,
      e.key = kv.1 ∧ recordOf env e = some kv.2 ∧ calledOf e = none :=
  persisted_of_subset hf fun _ he => mem_append_left _ he

lemma epochs_alloc (name : String) (kind : StepKind) : ∀ e ∈ (d.alloc name kind).entries,
    e.epoch ≤ d.epoch := by
  intro e he
  rcases mem_append.mp he with he | he
  · exact hf.epochs e he
  · rw [mem_singleton.mp he]

end

lemma unrecorded_append (es es' : List Entry) :
    unrecorded C (es ++ es') = unrecorded C es ++ unrecorded C es' := by
  rw [unrecorded, filter_append, map_append]
  rfl

lemma follows_call (hf : Follows env C d x) (fn : ℕ) (name script : String) (args : JsonMap) :
    (nextStep C fn name script args x).1 = (allocKey d.counters (callName name script)).1 ∧
      Follows env C (d.alloc (callName name script) (.task fn args))
      (nextStep C fn name script args x).2 := by
  have hcall : x.called ++ [{ key := (allocKey d.counters (callName name script)).1, fn, args }] =
      (d.alloc (callName name script) (.task fn args)).entries.filterMap calledOf := by
    rw [hf.called, Direct.alloc, filterMap_append]
    rfl
  unfold nextStep
  dsimp only
  rw [hf.counters]
  by_cases hC : (C.lookup (allocKey d.counters (callName name script)).1).isSome = true
  · rw [if_pos hC]
    refine ⟨rfl, rfl, hcall, ?_, hf.running, persisted_alloc hf _ _, awaited_alloc hf _ _,
      epochs_alloc hf _ _⟩
    rw [Direct.alloc, unrecorded_append, ← hf.pending]
    simp [unrecorded, Option.isSome_iff_ne_none.mp hC]
  · rw [if_neg hC]
    refine ⟨rfl, rfl, hcall, ?_, hf.running, persisted_alloc hf _ _, awaited_alloc hf _ _,
      epochs_alloc hf _ _⟩
    rw [Direct.alloc, unrecorded_append, ← hf.pending, map_append]
    rw [Option.not_isSome_iff_eq_none] at hC
    simp [unrecorded, hC, calledOf]

lemma follows_alloc (hf : Follows env C d x) (name : String) (kind : StepKind)
    (hkind : ∀ fn args, kind ≠ .task fn args) :
    Follows env C (d.alloc name kind).pass { x with counters := (allocKey x.counters name).2 } := by
  have hnone : calledOf { key := (allocKey d.counters name).1, kind, epoch := d.epoch } = none := by
    cases kind with
    | task fn args => exact absurd rfl (hkind fn args)
    | _ => rfl
  refine follows_pass ⟨by rw [hf.counters]; rfl, ?_, ?_, hf.running, persisted_alloc hf _ _,
    awaited_alloc hf _ _, epochs_alloc hf _ _⟩
  · rw [Direct.alloc, filterMap_append, ← hf.called]
    simp [hnone]
  · rw [Direct.alloc, unrecorded_append, ← hf.pending]
    simp [unrecorded, hnone]

def lastEntry (d : Direct) (name : String) (kind : StepKind) : Entry :=
  { key := (allocKey d.counters name).1, kind, epoch := d.epoch }

lemma lastEntry_mem (d : Direct) (name : String) (kind : StepKind) :
    lastEntry d name kind ∈ (d.alloc name kind).entries :=
  mem_append_right _ (mem_singleton.mpr rfl)

lemma follows_persist (hf : Follows env C d x) (he : e ∈ d.entries) (hkind : e.kind = .step (.ok v))
    (hC : (C.lookup e.key).isNone) :
    Follows env C d { x with persisted := x.persisted ++ [(e.key, v)] } := by
  refine { hf with persisted := fun kv hkv => ?_ }
  rcases mem_append.mp hkv with hkv | hkv
  · exact hf.persisted kv hkv
  · rw [mem_singleton.mp hkv]
    exact ⟨hC, e, he, rfl, by rw [recordOf, hkind], by rw [calledOf, hkind]⟩

lemma Follows.suspends (hf : Follows env C d x) (hfit : Fits E d) {out} (hnames : Names E C x out) :
    Suspends env E C out x :=
  ⟨hnames, persisted_of_subset hf fun _ he => hfit.mem he⟩

end Operations

/-! ### A run follows the direct run -/

def outcome : Except FailClass Json → Result
  | .ok v => .returned v
  | .error c => .threw (.failed c)

/-- A run on the checkpoint either ends as the direct run, or it suspends. -/
def Simulates (env : Env) (E : List Entry) (C : JsonMap) (run : Result × Ctx)
    (dir : Except FailClass Json × Direct) : Prop :=
  (run.1 = outcome dir.1 ∧ Follows env C dir.2 run.2) ∨
    ∃ out, run.1 = .threw (.suspend out) ∧ Suspends env E C out run.2

lemma Simulates.cases {run dir} (h : Simulates env E C run dir) :
    (∃ v x d, run = (.returned v, x) ∧ dir = (.ok v, d) ∧ Follows env C d x) ∨
      (∃ c x d, run = (.threw (.failed c), x) ∧ dir = (.error c, d) ∧ Follows env C d x) ∨
        ∃ out x, run = (.threw (.suspend out), x) ∧ Suspends env E C out x := by
  obtain ⟨rx, x⟩ := run
  obtain ⟨rd, d⟩ := dir
  rcases h with ⟨hsame, hf⟩ | ⟨out, hthrew, hsus⟩
  · cases rd with
    | ok v => exact .inl ⟨v, x, d, Prod.ext hsame rfl, rfl, hf⟩
    | error c => exact .inr (.inl ⟨c, x, d, Prod.ext hsame rfl, rfl, hf⟩)
  · exact .inr (.inr ⟨out, x, Prod.ext hthrew rfl, hsus⟩)

section Simulation

variable {fast : String → Bool}

/-- What is known of a final state of the direct run is known of every state on the way. -/
structure Final (env : Env) (E : List Entry) (d : Direct) : Prop where
  fits : Fits E d
  ordered : ∀ hs ∈ d.alls, Ordered env E hs

lemma Final.of_grow (h : Final env E d') (hg : Grow d d') : Final env E d :=
  ⟨h.fits.of_grow hg, fun hs hmem => h.ordered hs (hg.alls hs hmem)⟩

lemma step_recorded (hrec : Recorded env E C) (hplain : PlainResults env E) (he : e ∈ E) {fn}
    (hkind : e.kind = .step fn) (hv : C.lookup e.key = some v) :
    fn = .ok v ∧ isErrorMarker v = false := by
  have hval := hrec.recordOf_eq he hv
  have hmark := hplain e he (by rw [failsIn, hkind]) v hval (fun h => by simp [hkind] at h)
  rw [recordOf, hkind] at hval
  cases fn with
  | error c => cases hval
  | ok r =>
    cases hval
    exact ⟨rfl, hmark⟩

/-- **A run on a checkpoint follows the direct run** until it ends or suspends. -/
theorem simulates (hrec : Recorded env E C) (hplain : PlainResults env E) :
    ∀ p {d x}, Rethrows p → Follows env C d x →
      Final env E (direct env p d).2 → Simulates env E C (exec C fast p x) (direct env p d)
  | .ret v, d, x, _, hf, _ => .inl ⟨rfl, hf⟩
  | .throw c, d, x, _, hf, _ => .inl ⟨rfl, hf⟩
  | .call fn name script args k, d, x, hre, hf, hfin => by
    obtain ⟨hkey, hcall⟩ := follows_call hf fn name script args
    rw [exec, direct]
    rw [direct] at hfin
    rw [hkey]
    exact simulates hrec hplain _ (hre _) hcall hfin
  | .await h k, d, x, hre, hf, hfin => by
    have hpassed : Grow (d.await env [h]) (direct env (.await h k) d).2 := by
      rw [direct]
      split_ifs
      · exact .refl _
      · exact direct_grow env _ _
    have hfit := (hfin.of_grow hpassed).fits
    cases hp : isPending C x h with
    | true =>
      have hstops : awaitStops C x h = some (.threw (.suspend (dispatchOf x.pending)),
          x.suspend) := by
        rw [awaitStops, not_failed_of_pending hp, hp, hf.running]
        rfl
      rw [exec, hstops]
      exact .inr ⟨_, rfl, suspends_dispatch hf hfit hp⟩
    | false =>
      have hset := settled_of_not_pending hrec hplain hf (hfit.of_grow (grow_await env d [h])) hp
      have hawait : Follows env C (d.await env [h]) x :=
        follows_await hf (fun h' hmem => by rw [mem_singleton.mp hmem]; exact hset) d.alls
      rw [exec, awaitStops, hp, hset.failed]
      rw [direct] at hfin ⊢
      cases hfail : taskFails (d.taskOf env h) with
      | true => exact .inl ⟨rfl, hawait⟩
      | false =>
        rw [hfail] at hfin
        rw [hset.value hfail]
        exact simulates hrec hplain _ (hre _) hawait hfin
  | .all hs k, d, x, hre, hf, hfin => by
    have hpassed : Grow { d.await env hs with alls := d.alls ++ [hs] }
        (direct env (.all hs k) d).2 := by
      rw [direct]
      dsimp only
      split_ifs
      · exact .refl _
      · exact direct_grow env _ _
    have hmid := hfin.of_grow hpassed
    have hfit : Fits E d := hmid.fits.of_grow (grow_all env d hs)
    by_cases hex : ∃ h ∈ hs, isPending C x h = true
    · obtain ⟨h, hmem, hp⟩ := hex
      have hord := hmid.ordered hs (mem_append_right _ (mem_singleton.mpr rfl))
      rw [exec, allStops_of_pending hrec hplain hf hfit hord hmem hp]
      exact .inr ⟨_, rfl, suspends_dispatch hf hmid.fits hp⟩
    have hno : ∀ h ∈ hs, isPending C x h = false := fun h hmem => Bool.not_eq_true _ ▸ fun hp =>
      hex ⟨h, hmem, hp⟩
    have hset := fun h hmem => settled_of_not_pending hrec hplain hf hfit (hno h hmem)
    have hawait := follows_await hf hset (d.alls ++ [hs])
    rw [exec, allStops_of_settled hset hno]
    rw [direct] at hfin ⊢
    cases hfail : hs.any fun h => taskFails (d.taskOf env h) with
    | true => exact .inl ⟨rfl, hawait⟩
    | false =>
      have hvals : hs.map (valueOf C x) = hs.map fun h => valueOfTask (d.taskOf env h) :=
        map_congr_left fun h hmem =>
          (hset h hmem).value (by simpa using any_eq_false.mp hfail h hmem)
      rw [hvals]
      rw [hfail] at hfin
      exact simulates hrec hplain _ (hre _) hawait hfin
  | .step name fn k, d, x, hre, hf, hfin => by
    have hpassed : Grow (d.alloc (if name ≠ "" then name else "step") (.step fn)).pass
        (direct env (.step name fn k) d).2 := by
      cases fn with
      | error c => exact .refl _
      | ok v => exact direct_grow env _ _
    have hfit := (hfin.of_grow hpassed).fits
    have hmem := hfit.mem (lastEntry_mem d _ (.step fn))
    have halloc := follows_alloc hf (if name ≠ "" then name else "step") (.step fn)
      nofun
    rw [hf.counters] at halloc
    cases hC : C.lookup (allocKey d.counters (if name ≠ "" then name else "step")).1 with
    | some v =>
      obtain ⟨hfn, hmark⟩ := step_recorded hrec hplain hmem rfl hC
      subst hfn
      rw [exec, hf.counters, hC, direct]
      simp only [hmark]
      exact simulates hrec hplain _ (hre _) halloc hfin
    | none =>
      cases fn with
      | error c =>
        rw [exec, hf.counters, hC]
        exact .inl ⟨rfl, halloc⟩
      | ok v =>
        rw [exec, hf.counters, hC]
        dsimp only
        by_cases hfast : fast (allocKey d.counters (if name ≠ "" then name else "step")).1 = true
        · rw [if_pos hfast]
          have hpers := follows_persist halloc (lastEntry_mem d _ _) rfl
            (by rw [lastEntry, hC]; rfl)
          exact simulates hrec hplain _ (hre _) hpers hfin
        · rw [if_neg hfast]
          exact .inr ⟨_, rfl, halloc.suspends hfit ⟨by rw [hC]; rfl, _, hmem, rfl, rfl⟩⟩
  | .sleep seconds k, d, x, hre, hf, hfin => by
    have hfit : Fits E (d.alloc "sleep" .sleep).pass := (hfin.of_grow (direct_grow env k _)).fits
    have hmem := hfit.mem (lastEntry_mem d "sleep" .sleep)
    have halloc := follows_alloc hf "sleep" .sleep nofun
    rw [exec, direct]
    rw [hf.counters] at halloc ⊢
    by_cases hC : (C.lookup (allocKey d.counters "sleep").1).isSome = true
    · rw [if_pos hC]
      exact simulates hrec hplain k hre halloc hfin
    · rw [if_neg hC]
      exact .inr ⟨_, rfl, halloc.suspends hfit ⟨by simpa using hC, _, hmem, rfl, rfl⟩⟩
  | .approval timeout selfApproval k, d, x, hre, hf, hfin => by
    have hfit : Fits E (d.alloc "approval" .approval).pass :=
      (hfin.of_grow (direct_grow env (k _) (d.alloc "approval" .approval).pass)).fits
    have hmem := hfit.mem (lastEntry_mem d "approval" .approval)
    have halloc := follows_alloc hf "approval" .approval nofun
    rw [exec, direct]
    rw [hf.counters] at halloc ⊢
    cases hC : C.lookup (allocKey d.counters "approval").1 with
    | some v =>
      obtain rfl : env.approval (allocKey d.counters "approval").1 = v :=
        Option.some.inj (hrec.recordOf_eq hmem hC)
      exact simulates hrec hplain _ (hre _) halloc hfin
    | none => exact .inr ⟨_, rfl, halloc.suspends hfit ⟨by rw [hC]; rfl, _, hmem, rfl, rfl⟩⟩
  | .tryCatch body onFail rethrows onSuspend k, d, x, hre, hf, hfin => by
    obtain ⟨hrebody, hrefail, rfl, hrek⟩ := hre
    have hbody := simulates hrec hplain body hrebody hf
      (hfin.of_grow (grow_body onFail true onSuspend k env body d))
    rcases hbody.cases with ⟨v, x₁, d₁, hx, hd, hf₁⟩ | ⟨c, x₁, d₁, hx, hd, hf₁⟩ | ⟨out, x₁,
      hx, hsus⟩
    · rw [exec, hx, direct, hd]
      rw [direct, hd] at hfin
      exact simulates hrec hplain (k v) (hrek v) hf₁ hfin
    · have hhand := simulates hrec hplain (onFail c) (hrefail c) hf₁
        (hfin.of_grow (grow_handler onFail true onSuspend k hd))
      rw [exec, hx, direct, hd]
      rw [direct, hd] at hfin
      dsimp only at hfin ⊢
      rcases hhand.cases with ⟨v, x₂, d₂, hx₂, hd₂, hf₂⟩ | ⟨c', x₂, d₂, hx₂, hd₂, hf₂⟩ | ⟨out, x₂,
        hx₂, hsus⟩
      · rw [hx₂, hd₂]
        rw [hd₂] at hfin
        exact simulates hrec hplain (k v) (hrek v) hf₂ hfin
      · rw [hx₂, hd₂]
        exact .inl ⟨rfl, hf₂⟩
      · rw [hx₂]
        exact .inr ⟨out, rfl, hsus⟩
    · rw [exec, hx]
      exact .inr ⟨out, rfl, hsus⟩

end Simulation

end Windmill.Wac.Replay
