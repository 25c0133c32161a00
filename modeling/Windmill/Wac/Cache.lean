import Windmill.Lib.Run
import Windmill.Wac.Checkpoint

/-! # Cached results of workflow runs

A job with a `cache_ttl` is answered from the cache if an earlier job has stored a result under the
same path, which hashes the runnable and the arguments of the job (`cached_result_path`,
`windmill-worker/src/common.rs`). The children of inline tasks re-run the runnable of their parent
with the arguments of their parent; which task they run is in the checkpoint, which is not hashed.
-/

namespace Windmill.Wac.Cache

open Lib.Run Flow.Value Checkpoint List Option

structure JobArgs where
  entries : List (String × String)
  sorted : (entries.map Prod.fst).Pairwise (· < ·)
deriving DecidableEq

inductive JobPayload where
  | scriptHash (hash : ScriptHash) (path : String)
  | code (content : String) (path : Option String)

structure PulledJob where
  payload : JobPayload
  args : JobArgs
  cacheTtl : Option ℤ
  cacheIgnoreS3Path : Bool := false

/-! ### The path -/

def textBytes (s : String) : List UInt8 := s.toUTF8.toList

def leBytes (hash : ScriptHash) : List UInt8 :=
  (List.range 8).map fun i => UInt8.ofNat ((BitVec.ofInt 64 hash).toNat >>> (8 * i))

variable (etag : String → Option String)

/-- `hash_args`: the keys and the values one after the other. For a value that is an object of a
bucket, `etag` has the version of the object. -/
def hashArgs (ignoreS3Path : Bool) (args : JobArgs) : List UInt8 :=
  args.entries.flatMap fun e => textBytes e.1 ++ match etag e.2 with
    | some version => textBytes version ++ if ignoreS3Path then [] else textBytes e.2
    | none => textBytes e.2

def hashPayload : JobPayload → List UInt8
  | .scriptHash hash _ => 0 :: leBytes hash
  | .code content path => 2 :: (path.map textBytes).getD [] ++ textBytes content

/-- `cached_result_path`, before the digest: two jobs share a path if these bytes are the same. -/
def cachedResultPath (job : PulledJob) : List UInt8 :=
  hashPayload job.payload ++ hashArgs etag job.cacheIgnoreS3Path job.args

/-- The child of an inline step: the payload and the arguments of the parent, and the `cache_ttl` of
the step if it has one. -/
def inlineChild (parent : PulledJob) (step : WacStepDispatch) : PulledJob :=
  { parent with cacheTtl := step.cacheTtl <|> parent.cacheTtl }

/-! ### Runs of a workflow -/

/-- What was executed: the workflow function, or the function of a task. -/
inductive Source where
  | workflow (args : JobArgs)
  | task (name : String) (args : JsonMap)

/-- A stored result. Which execution it came from is not stored; it is kept here for the proofs. -/
structure Entry where
  path : List UInt8
  value : Json
  source : Source

/-- One run of the workflow: its queued children, the recorded steps, and the result. -/
structure WorkflowRun where
  args : JobArgs
  children : List WacStepDispatch := []
  recorded : List (WacStepDispatch × Json) := []
  result : Option Json := none

/-- A job that was pulled and is executed: the workflow job of a run, or the child of one of its
steps. `cachedResPath` is the path computed at the pull, for a job with a `cache_ttl`. -/
structure Executing where
  run : ℕ
  child : Option WacStepDispatch
  cachedResPath : Option (List UInt8)

/-- The cache, the runs, the jobs that are executed, and the values returned by all executions so
far (a history variable). -/
structure State where
  cache : List Entry := []
  runs : List WorkflowRun := []
  executing : List Executing := []
  returned : List (Source × Json) := []

/-- The end of an execution. A child ends with `completes` or with `suspends`, which stands for its
failure: an error is recorded then, which is no value of the task. -/
inductive Outcome where
  | completes (value : Json)
  | dispatches (steps : List WacStepDispatch)
  | suspends

/-- What may happen to workflow jobs with a cache. -/
inductive Action where
  | starts (args : JobArgs)
  | pullsParent (i : ℕ) (etag : String → Option String)
  | pullsChild (i c : ℕ) (etag : String → Option String)
  | ends (n : ℕ) (out : Outcome)

def cachedResPath (job : PulledJob) : Option (List UInt8) :=
  if job.cacheTtl.isSome then some (cachedResultPath etag job) else none

/-- `get_cached_resource_value_if_valid`. -/
def getCached (cache : List Entry) (path : List UInt8) : Option Json :=
  (cache.find? fun e => e.path == path).map (·.value)

/-- `save_in_cache`, at the successful end of a job with a path. -/
def saveInCache (path : Option (List UInt8)) (source : Source) (value : Json) (cache : List Entry) :
    List Entry :=
  match path with
  | some path => { path, value, source } :: cache
  | none => cache

variable (wf : PulledJob)

def parentJob (run : WorkflowRun) : PulledJob := { wf with args := run.args }

def WorkflowRun.complete (run : WorkflowRun) (value : Json) : WorkflowRun :=
  { run with result := some value }

def WorkflowRun.record (run : WorkflowRun) (step : WacStepDispatch) (value : Json) : WorkflowRun :=
  { run with recorded := run.recorded ++ [(step, value)] }

def pullParent (s : State) (i : ℕ) (run : WorkflowRun) (etag : String → Option String) : State :=
  let path := cachedResPath etag (parentJob wf run)
  match path.bind (getCached s.cache) with
  | some v => { s with runs := s.runs.set i (run.complete v) }
  | none => { s with executing :=
      s.executing ++ [{ run := i, child := none, cachedResPath := path }] }

def pullChild (s : State) (i : ℕ) (run : WorkflowRun) (c : ℕ) (st : WacStepDispatch)
    (etag : String → Option String) : State :=
  let path := cachedResPath etag (inlineChild (parentJob wf run) st)
  let run := { run with children := run.children.eraseIdx c }
  match path.bind (getCached s.cache) with
  | some v => { s with runs := s.runs.set i (run.record st v) }
  | none =>
    { s with
      runs := s.runs.set i run
      executing := s.executing ++ [{ run := i, child := some st, cachedResPath := path }] }

def Executing.source (x : Executing) (run : WorkflowRun) : Source :=
  match x.child with
  | none => .workflow run.args
  | some st => .task st.name st.args

def Executing.deliver (x : Executing) (run : WorkflowRun) (value : Json) : WorkflowRun :=
  match x.child with
  | none => run.complete value
  | some st => run.record st value

def endExecution (s : State) (x : Executing) (run : WorkflowRun) : Outcome → State
  | .completes v =>
    { s with
      cache := saveInCache x.cachedResPath (x.source run) v s.cache
      runs := s.runs.set x.run (x.deliver run v)
      returned := (x.source run, v) :: s.returned }
  | .dispatches steps =>
    { s with runs := s.runs.set x.run { run with children := run.children ++ steps } }
  | .suspends => s

/-- One action of the runs of the workflow `wf`; each run has its own arguments. -/
def step (s : State) : Action → Option State
  | .starts args => some { s with runs := s.runs ++ [{ args }] }
  | .pullsParent i etag => (s.runs[i]?).map fun run => pullParent wf s i run etag
  | .pullsChild i c etag =>
    (s.runs[i]?).bind fun run => (run.children[c]?).map fun st => pullChild wf s i run c st etag
  | .ends n out => (s.executing[n]?).bind fun x => (s.runs[x.run]?).map fun run =>
      endExecution { s with executing := s.executing.eraseIdx n } x run out

/-! ### Steps and results are not mixed up -/

/-- The recorded steps are values of their own task, and the results are values of the workflow. -/
structure Unmixed (s : State) : Prop where
  recorded : ∀ run ∈ s.runs, ∀ r ∈ run.recorded, (Source.task r.1.name r.1.args, r.2) ∈ s.returned
  result : ∀ run ∈ s.runs, ∀ v, run.result = some v → (Source.workflow run.args, v) ∈ s.returned

/-- No inline task has a `cache_ttl`, its own or that of the workflow, and a result that is cached
under the path of a pulled workflow job was stored by a run with the same arguments. -/
def CachesApart (s : State) : Action → Prop
  | .ends _ (.dispatches steps) => ∀ st ∈ steps, (inlineChild wf st).cacheTtl = none
  | .pullsParent i etag => ∀ run, s.runs[i]? = some run → ∀ e ∈ s.cache,
      some e.path = cachedResPath etag (parentJob wf run) → ∀ args, e.source = .workflow args →
      args = run.args
  | _ => True

structure Separate (wf : PulledJob) (s : State) : Prop extends Unmixed s where
  cache : ∀ e ∈ s.cache, (e.source, e.value) ∈ s.returned ∧ ∃ args, e.source = .workflow args
  children : ∀ run ∈ s.runs, ∀ st ∈ run.children, (inlineChild wf st).cacheTtl = none
  executing : ∀ x ∈ s.executing, ∀ st, x.child = some st → x.cachedResPath = none

variable {wf : PulledJob} {s : State} {st : WacStepDispatch} {rest : List Entry}

variable {i : ℕ} {etag : String → Option String}

lemma forall_mem_set {α : Type} {P : α → Prop} {l : List α} {x : α} (h : ∀ y ∈ l, P y)
    (hx : P x) : ∀ y ∈ l.set i x, P y := by
  intro y hy
  rcases mem_or_eq_of_mem_set hy with hmem | rfl
  · exact h y hmem
  · exact hx

lemma forall_mem_concat {α : Type} {P : α → Prop} {l x} (h : ∀ y ∈ l, P y) (hx : P x) :
    ∀ y ∈ l ++ [x], P y :=
  forall_mem_append.mpr ⟨h, forall_mem_singleton.mpr hx⟩

lemma Separate.starts (h : Separate wf s) (args : JobArgs) :
    Separate wf { s with runs := s.runs ++ [{ args := args }] } := by
  refine ⟨⟨forall_mem_concat h.recorded ?_, forall_mem_concat h.result ?_⟩, h.cache,
    forall_mem_concat h.children ?_, h.executing⟩
  · exact nofun
  · exact nofun
  · exact nofun

lemma Separate.pullParent {run : WorkflowRun} (h : Separate wf s) (hrun : s.runs[i]? = some run)
    (hC : CachesApart wf s (.pullsParent i etag)) : Separate wf (pullParent wf s i run etag) := by
  have hmem : run ∈ s.runs := mem_of_getElem? hrun
  unfold Cache.pullParent
  dsimp only
  cases hhit : (cachedResPath etag (parentJob wf run)).bind (getCached s.cache) with
  | none =>
    exact ⟨⟨h.recorded, h.result⟩, h.cache, h.children,
      forall_mem_concat h.executing nofun⟩
  | some v =>
    obtain ⟨path, hpath, hget⟩ := bind_eq_some_iff.mp hhit
    obtain ⟨e, hfind, rfl⟩ := map_eq_some_iff.mp hget
    have he := mem_of_find?_eq_some hfind
    have hbeq := find?_some hfind
    obtain rfl : e.path = path := eq_of_beq hbeq
    obtain ⟨hret, args, hargs⟩ := h.cache e he
    have hsame : args = run.args := hC run hrun e he hpath.symm args hargs
    rw [hargs, hsame] at hret
    refine ⟨⟨?_, ?_⟩, h.cache, ?_, h.executing⟩
    · exact forall_mem_set h.recorded (h.recorded run hmem)
    · refine forall_mem_set h.result fun v hv => ?_
      cases hv
      exact hret
    · exact forall_mem_set h.children (h.children run hmem)

lemma Separate.pullChild {c : ℕ} {run : WorkflowRun} (h : Separate wf s)
    (hrun : s.runs[i]? = some run)
    (hst : run.children[c]? = some st) : Separate wf (pullChild wf s i run c st etag) := by
  have hmem : run ∈ s.runs := mem_of_getElem? hrun
  have hpath : cachedResPath etag (inlineChild (parentJob wf run) st) = none := by
    have httl : (inlineChild (parentJob wf run) st).cacheTtl = none :=
      h.children run hmem st (mem_of_getElem? hst)
    rw [cachedResPath, httl]
    rfl
  unfold Cache.pullChild
  rw [hpath]
  refine ⟨⟨?_, ?_⟩, h.cache, ?_, forall_mem_concat h.executing fun _ _ => rfl⟩
  · exact forall_mem_set h.recorded (h.recorded run hmem)
  · exact forall_mem_set h.result (h.result run hmem)
  · refine forall_mem_set h.children fun st' hst' => ?_
    exact h.children run hmem st' (mem_of_mem_eraseIdx hst')

lemma Separate.completes {x run} (h : Separate wf s) (hrun : run ∈ s.runs)
    (hx : ∀ st, x.child = some st → x.cachedResPath = none) (v : Json) :
    Separate wf (endExecution s x run (.completes v)) := by
  have hold : ∀ {src w}, (src, w) ∈ s.returned → (src, w) ∈ (x.source run, v) :: s.returned :=
    fun hmem => mem_cons_of_mem _ hmem
  have hrec : ∀ r ∈ (x.deliver run v).recorded,
      (Source.task r.1.name r.1.args, r.2) ∈ (x.source run, v) :: s.returned := by
    intro r hr
    unfold Executing.deliver at hr
    unfold Executing.source
    cases hc : x.child with
    | none =>
      rw [hc] at hr
      exact mem_cons_of_mem _ (h.recorded run hrun r hr)
    | some st =>
      rw [hc] at hr
      rcases mem_append.mp hr with hr | hr
      · exact mem_cons_of_mem _ (h.recorded run hrun r hr)
      · rw [mem_singleton.mp hr]
        exact mem_cons_self
  have hres : ∀ w, (x.deliver run v).result = some w →
      (Source.workflow (x.deliver run v).args, w) ∈ (x.source run, v) :: s.returned := by
    intro w hw
    unfold Executing.deliver at hw ⊢
    unfold Executing.source
    cases hc : x.child with
    | none =>
      rw [hc] at hw
      cases hw
      exact mem_cons_self
    | some st =>
      rw [hc] at hw
      exact mem_cons_of_mem _ (h.result run hrun w hw)
  have hch : (x.deliver run v).children = run.children := by
    unfold Executing.deliver
    cases x.child <;> rfl
  refine ⟨⟨?_, ?_⟩, fun e he => ?_, ?_, h.executing⟩
  · exact forall_mem_set (fun run' hrun' r hr => hold (h.recorded run' hrun' r hr)) hrec
  · exact forall_mem_set (fun run' hrun' w hw => hold (h.result run' hrun' w hw)) hres
  · have hcases : e ∈ s.cache ∨ e.source = x.source run ∧ e.value = v ∧ x.child = none := by
      unfold endExecution saveInCache at he
      cases hp : x.cachedResPath with
      | none =>
        rw [hp] at he
        exact .inl he
      | some path =>
        rw [hp] at he
        rcases mem_cons.mp he with rfl | he
        · refine .inr ⟨rfl, rfl, ?_⟩
          cases hc : x.child with
          | none => rfl
          | some st =>
            simp [hx st hc] at hp
        · exact .inl he
    rcases hcases with he | ⟨hsrc, hval, hc⟩
    · exact ⟨hold (h.cache e he).1, (h.cache e he).2⟩
    · refine ⟨?_, run.args, ?_⟩
      · rw [hsrc, hval]
        exact mem_cons_self
      · rw [hsrc, Executing.source, hc]
  · refine forall_mem_set h.children ?_
    rw [hch]
    exact h.children run hrun

lemma Separate.step {s' a} (h : Separate wf s) (hC : CachesApart wf s a)
    (hs : step wf s a = some s') : Separate wf s' := by
  cases a with
  | starts args =>
    cases hs
    exact h.starts args
  | pullsParent i etag =>
    obtain ⟨run, hrun, rfl⟩ := map_eq_some_iff.mp hs
    exact h.pullParent hrun hC
  | pullsChild i c etag =>
    obtain ⟨run, hrun, hs⟩ := bind_eq_some_iff.mp hs
    obtain ⟨st, hst, rfl⟩ := map_eq_some_iff.mp hs
    exact h.pullChild hrun hst
  | ends n out =>
    obtain ⟨x, hx, hs⟩ := bind_eq_some_iff.mp hs
    obtain ⟨run, hrun, rfl⟩ := map_eq_some_iff.mp hs
    have hmem : run ∈ s.runs := mem_of_getElem? hrun
    have hleft : Separate wf { s with executing := s.executing.eraseIdx n } :=
      ⟨⟨h.recorded, h.result⟩, h.cache, h.children, fun y hy =>
        h.executing y (mem_of_mem_eraseIdx hy)⟩
    cases out with
    | completes v => exact hleft.completes hmem (h.executing x (mem_of_getElem? hx)) v
    | dispatches steps =>
      refine ⟨⟨?_, ?_⟩, h.cache, ?_, hleft.executing⟩
      · exact forall_mem_set h.recorded (h.recorded run hmem)
      · exact forall_mem_set h.result (h.result run hmem)
      · refine forall_mem_set h.children fun st hst => ?_
        rcases mem_append.mp hst with hst | hst
        · exact h.children run hmem st hst
        · exact hC st hst
    | suspends => exact hleft

/-- **In every sequence of runs without cached inline tasks and without arguments that hash alike,
the cache does not mix up steps and results**: what is recorded for a step was returned by its task
for its arguments, and the result of a workflow job by the workflow function for the arguments of
the job. -/
theorem cache_keeps_steps_apart {as : List Action} {t : State}
    (hC : Meets (Cache.step wf) (CachesApart wf) as {})
    (hrun : run (Cache.step wf) as {} = some t) : Unmixed t := by
  have hinit : Separate wf {} :=
    { recorded := nofun
      result := nofun
      cache := nofun
      children := nofun
      executing := fun x hx => by cases hx }
  exact (run_invariant (fun h hC hs => h.step hC hs) hinit hC hrun).toUnmixed

def cachedWorkflow : PulledJob :=
  { payload := .scriptHash 7 "f/etl/nightly", args := ⟨[], List.Pairwise.nil⟩, cacheTtl := some 60 }

def dayOne : JobArgs := ⟨[("day", "1")], List.pairwise_singleton _ _⟩

def noEtag (_ : String) : Option String := none

def runTwice : List Action :=
  [.starts dayOne, .pullsParent 0 noEtag, .ends 0 (.completes (.str "report")), .starts dayOne,
    .pullsParent 1 noEtag]

lemma pullParent_hit {run e} (hcache : s.cache = e :: rest)
    (hpath : cachedResPath etag (parentJob wf run) = some e.path) :
    Cache.pullParent wf s i run etag = { s with runs := s.runs.set i (run.complete e.value) } := by
  unfold Cache.pullParent
  rw [hpath, hcache]
  simp only [bind_some, getCached, find?_cons, BEq.rfl, map_some]

lemma pullChild_hit {c : ℕ} {run e} (hcache : s.cache = e :: rest)
    (hpath : cachedResPath etag (inlineChild (parentJob wf run) st) = some e.path) :
    Cache.pullChild wf s i run c st etag = { s with
      runs := s.runs.set i
        (WorkflowRun.record { run with children := run.children.eraseIdx c } st e.value) } := by
  unfold Cache.pullChild
  rw [hpath, hcache]
  simp only [bind_some, getCached, find?_cons, BEq.rfl, map_some]

def dayOnePath : List UInt8 := cachedResultPath noEtag { cachedWorkflow with args := dayOne }

def ranOnce : State :=
  { cache := [⟨dayOnePath, .str "report", .workflow dayOne⟩]
    runs := [{ args := dayOne, result := some (.str "report") }, { args := dayOne }]
    returned := [(.workflow dayOne, .str "report")] }

theorem second_run_from_cache : ∃ t, run (Cache.step cachedWorkflow) runTwice {} = some t ∧
      t.runs.map (·.result) = [some (.str "report"), some (.str "report")] ∧ Unmixed t := by
  have hpull : Cache.step cachedWorkflow ranOnce (.pullsParent 1 noEtag) = some _ :=
    congrArg some (pullParent_hit rfl rfl)
  have hrun : run (Cache.step cachedWorkflow) runTwice {} = some _ := hpull
  have hC : Meets (Cache.step cachedWorkflow) (CachesApart cachedWorkflow) runTwice {} := by
    refine meets_cons trivial rfl (meets_cons ?_ rfl (meets_cons trivial rfl
      (meets_cons trivial rfl (meets_cons ?_ hpull trivial))))
    · intro run _ e he
      cases he
    · intro run hrun e he _ args hargs
      cases hrun
      rw [mem_singleton.mp he] at hargs
      cases hargs
      rfl
  exact ⟨_, hrun, rfl, cache_keeps_steps_apart hC hrun⟩

def extract : WacStepDispatch := { key := "extract", name := "extract" }

def load : WacStepDispatch := { key := "load", name := "load" }

def twoTasksCached : List Action :=
  [.starts dayOne, .pullsParent 0 noEtag, .ends 0 (.dispatches [extract, load]),
    .pullsChild 0 0 noEtag,
   .ends 0 (.completes (.num "1")), .pullsChild 0 0 noEtag, .pullsParent 0 noEtag]

def extracted : State :=
  { cache := [⟨dayOnePath, .num "1", .task "extract" ∅⟩]
    runs := [{ args := dayOne, children := [load], recorded := [(extract, .num "1")] }]
    returned := [(.task "extract" ∅, .num "1")] }

def loadedFromCache : WorkflowRun :=
  { args := dayOne, recorded := [(extract, .num "1"), (load, .num "1")] }

/-- The second task is recorded with the value of the first, and the workflow job completes with it,
though neither the second task nor the workflow function has returned anything. -/
theorem task_value_for_workflow : ∃ t, run (Cache.step cachedWorkflow) twoTasksCached {} = some t ∧
      t.runs.map (·.recorded) = [[(extract, .num "1"), (load, .num "1")]] ∧ t.runs.map
      (·.result) = [some (.num "1")] ∧ t.returned = [(.task "extract" ∅, .num "1")] := by
  have hload : Cache.pullChild cachedWorkflow extracted 0
      { args := dayOne, children := [load], recorded := [(extract, .num "1")] } 0 load noEtag =
        { extracted with runs := [loadedFromCache] } :=
    (pullChild_hit rfl rfl).trans rfl
  have hres : Cache.pullParent cachedWorkflow { extracted with runs := [loadedFromCache] } 0
      loadedFromCache noEtag = { extracted with runs := [loadedFromCache.complete (.num "1")] } :=
    (pullParent_hit rfl rfl).trans rfl
  refine ⟨{ extracted with runs := [loadedFromCache.complete (.num "1")] }, ?_, rfl, rfl, rfl⟩
  calc run (Cache.step cachedWorkflow) twoTasksCached {}
      = run (Cache.step cachedWorkflow) [.pullsChild 0 0 noEtag, .pullsParent 0 noEtag]
          extracted := rfl
    _ = run (Cache.step cachedWorkflow) [.pullsParent 0 noEtag]
          { extracted with runs := [loadedFromCache] } := run_of_step (congrArg some hload)
    _ = _ := run_of_step (congrArg some hres)

end Windmill.Wac.Cache
