import Windmill.App.Execute
import Windmill.Lib.Run
import Windmill.Lib.Except

/-! # Requests to apps, one after the other

A request is judged by the policy of its own app when it ends as the first request to a new server
that brings no version. `judge` is what such a server says; `executeComponent_yields` compares it
with a server in any state whose entries come from earlier requests. -/

namespace Windmill.App.History

open Lib.Effect Lib.Memo Lib.Run Lib.Except Execute List

section

variable {U : Type} (W : World U)

def ownTriggerablePath (p : ExecuteApp) : Except Error String :=
  match p.path, p.rawCode, p.id with
  | some path, _, _ => pure path
  | none, some rawCode, none => pure (digest W rawCode.content)
  | none, some _, some id => appScriptPath W id
  | none, none, _ => .error .unreachable

def ownPolicy (req : Request U) : Except Error (Policy × PolicyTriggerableInputs) :=
  match req.payload.forceViewerStaticFields with
  | some staticInputs => pure (⟨none, none, none, none, .viewer⟩,
      ⟨staticInputs, req.payload.forceViewerOneOfFields.getD [],
        req.payload.forceViewerAllowUserResources.getD []⟩)
  | none => do
    let policy ← fetchPolicy W req.w (toPath req.path)
    let path ← ownTriggerablePath W req.payload
    let triggerables ← policyTriggerables policy req.payload.component path
    pure (policy, triggerables)

def ownPermit (policy : Policy) (req : Request U) : Except Error Unit :=
  match policy.executionMode, req.authed with
  | .publisher, some user => do
    let permit ← .ok (W.sees user (toPath req.path) req.w)
    if permit then .ok () else .error (notPermitted (toPath req.path) req.payload.component)
  | _, _ => pure ()

/-- What a new server says. -/
def judge (req : Request U) : Except Error Job := do
  checkFields req.payload
  let resolved ← ownPolicy W req
  ownPermit W resolved.1 req
  makeJob W req resolved.1 resolved.2

/-! ### Where entries come from -/

def Asked (reqs : List (Request U)) (q : Int64 × String × String) : Prop :=
  ∃ req ∈ reqs, req.payload.forceViewerStaticFields = none ∧ req.payload.version = some q.1 ∧
    req.w = q.2.1 ∧ toPath req.path = q.2.2

def Tried (reqs : List (Request U)) (q : U × String × String) : Prop :=
  ∃ req ∈ reqs, req.payload.forceViewerStaticFields = none ∧ req.authed = some q.1 ∧
    toPath req.path = q.2.1 ∧ req.w = q.2.2

structure Entries (reqs : List (Request U)) (s : Server) : Prop where
  policies : Backed (fun q : Int64 × String × String => q.1.toUInt64)
    (fun q policy => fetchPolicy W q.2.1 q.2.2 = .ok policy) (Asked reqs) s.policies
  appScriptPaths : Backed (fun id : Int64 => id.toUInt64)
    (fun id path => appScriptPath W id = .ok path) (fun _ => True) s.appScriptPaths
  permits : Backed (fun q : U × String × String => W.sha256 (permitText W q.1 q.2.1 q.2.2))
    (fun q permit => W.sees q.1 q.2.1 q.2.2 = permit) (Tried reqs) s.permits

def BelowLimit (req : Request U) (s : Server) : Prop :=
  ∀ policy limit, fetchPolicy W req.w (toPath req.path) = .ok policy → policy.executionMode =
    .anonymous → req.authed = none → W.publicAppRateLimit req.w = some limit → 0 < limit →
    countOf s req.w req.minute < limit

/-- For a request that is no preview: earlier requests with the version were for an app with the
same policy, and earlier permits with the same text say the same. -/
structure OwnKeys (reqs : List (Request U)) (req : Request U) : Prop where
  version : req.payload.forceViewerStaticFields = none → ∀ v, req.payload.version = some v → ∀ q,
    Asked reqs q → q.1 = v →
    ∀ policy, fetchPolicy W q.2.1 q.2.2 = .ok policy → fetchPolicy W req.w (toPath req.path) =
    .ok policy
  permit : req.payload.forceViewerStaticFields = none → ∀ user, req.authed = some user → ∀ q,
    Tried reqs q → permitText W q.1 q.2.1 q.2.2 = permitText W user (toPath req.path) req.w →
    W.sees q.1 q.2.1 q.2.2 = W.sees user (toPath req.path) req.w

variable {W} {reqs : List (Request U)} {req : Request U}

lemma toUInt64_injective : Function.Injective Int64.toUInt64 := by
  rintro ⟨a⟩ ⟨b⟩ h
  exact congrArg Int64.ofUInt64 h

lemma Entries.cons {s} (h : Entries W reqs s) : Entries W (req :: reqs) s where
  policies := h.policies.mono fun _ ⟨r, hr, hrest⟩ => ⟨r, mem_cons_of_mem _ hr, hrest⟩
  appScriptPaths := h.appScriptPaths
  permits := h.permits.mono fun _ ⟨r, hr, hrest⟩ => ⟨r, mem_cons_of_mem _ hr, hrest⟩

lemma OwnKeys.self (h : OwnKeys W reqs req) : OwnKeys W (req :: reqs) req where
  version := by
    rintro hown v hv q ⟨r, hr, hrun, hrv, hw, hpath⟩ hq policy hpol
    rcases mem_cons.mp hr with rfl | hr
    · rwa [hw, hpath]
    · exact h.version hown v hv q ⟨r, hr, hrun, hrv, hw, hpath⟩ hq policy hpol
  permit := by
    rintro hown user hu q ⟨r, hr, hrun, hru, hpath, hw⟩ htext
    rcases mem_cons.mp hr with rfl | hr
    · cases Option.some_inj.mp (hru.symm.trans hu)
      rw [hpath, hw]
    · exact h.permit hown user hu q ⟨r, hr, hrun, hru, hpath, hw⟩ htext

/-! ### The stages of a request -/

variable {P : Server → Prop}

lemma yields_cached {K V Q : Type} [DecidableEq K] {view : Server → Cache K V}
    {put : Server → Cache K V → Server}
    {key : Q → K} {val : Q → V → Prop} {made : Q → Prop} {k : K} {compute : Except Error V}
    (hback : ∀ s, P s → Backed key val made (view s)) (q : Q) (hk : key q = k)
    (hown : ∀ q' v, made q' → key q' = key q → val q' v → compute = .ok v)
    (hmade : ∀ v, compute = .ok v → made q ∧ val q v)
    (hput : ∀ s c, P s → Backed key val made c → P (put s c)) :
    Yields P (cached view put k compute) compute P := by
  subst hk
  exact fun s hs => ⟨getOrInsert_eq (hback s hs) hown, hput s _ hs ((hback s hs).getOrInsert hmade)⟩

def Ready (W : World U) (reqs : List (Request U)) (req : Request U) (s : Server) : Prop :=
  Entries W reqs s ∧ BelowLimit W req s

lemma getPolicy_yields (hown : OwnKeys W (req :: reqs) req)
    (hrun : req.payload.forceViewerStaticFields = none) :
    Yields (Ready W (req :: reqs) req) (getPolicy W req.w (toPath req.path) req.payload.version)
      (fetchPolicy W req.w (toPath req.path)) (Ready W (req :: reqs) req) := by
  cases hv : req.payload.version with
  | none => exact yields_lift _
  | some v =>
    have hback := fun s (hs : Ready W (req :: reqs) req s) => hs.1.policies
    refine yields_cached hback (v, req.w, toPath req.path) rfl ?_ ?_ ?_
    · intro q policy hq hkey hval
      exact hown.version hrun v hv q hq (toUInt64_injective hkey) policy hval
    · exact fun policy hpol => ⟨⟨req, mem_cons_self, hrun, hv, rfl, rfl⟩, hpol⟩
    · exact fun s c hs hc => ⟨⟨hc, hs.1.appScriptPaths, hs.1.permits⟩, hs.2⟩

lemma triggerablePath_yields : Yields (Ready W reqs req) (triggerablePath W req.payload)
    (ownTriggerablePath W req.payload) (Ready W reqs req) := by
  unfold triggerablePath ownTriggerablePath
  cases req.payload.path with
  | some path => exact yields_pure _
  | none =>
    cases req.payload.rawCode with
    | none => exact yields_lift _
    | some rawCode =>
      cases req.payload.id with
      | none => exact yields_pure _
      | some id =>
        have hback := fun s (hs : Ready W reqs req s) => hs.1.appScriptPaths
        refine yields_cached hback id rfl ?_ ?_ ?_
        · intro id' path _ hkey hval
          rwa [toUInt64_injective hkey] at hval
        · exact fun path hpath => ⟨trivial, hpath⟩
        · exact fun s c hs hc => ⟨⟨hs.1.policies, hc, hs.1.permits⟩, hs.2⟩

lemma resolvePolicy_yields (hown : OwnKeys W (req :: reqs) req) :
    Yields (Ready W (req :: reqs) req) (resolvePolicy W req) (ownPolicy W req)
    (Ready W (req :: reqs) req) := by
  unfold resolvePolicy ownPolicy
  cases hrun : req.payload.forceViewerStaticFields with
  | some staticInputs => exact yields_pure _
  | none =>
    refine (getPolicy_yields hown hrun).bind (fun policy _ => ?_) fun _ h => h
    refine triggerablePath_yields.bind (fun path _ => ?_) fun _ h => h
    exact (yields_lift _).bind (fun _ _ => yields_pure _) fun _ h => h

lemma checkRateLimit_yields {policy} (hpol : policy.executionMode = .anonymous →
      fetchPolicy W req.w (toPath req.path) = .ok policy) :
    Yields (Ready W reqs req) (checkRateLimit W policy req) (pure ()) (Entries W reqs) := by
  have hskip : Yields (Ready W reqs req) (pure () : Eff Server Error Unit) (pure ())
      (Entries W reqs) :=
    fun _ h => ⟨rfl, h.1⟩
  unfold checkRateLimit
  split
  · rename_i limit hmode hauthed hlim
    split_ifs with hpos
    · intro s hs
      have hcnt := hs.2 policy limit (hpol hmode) hmode hauthed hlim hpos
      unfold checkAndIncrement
      rw [exec_onState, if_neg (not_le.mpr hcnt)]
      exact ⟨rfl, hs.1.policies, hs.1.appScriptPaths, hs.1.permits⟩
    · exact hskip
  · exact hskip

lemma checkPermit_yields {policy : Policy} (hown : OwnKeys W (req :: reqs) req)
    (hrun : policy.executionMode = .publisher → req.payload.forceViewerStaticFields = none) :
    Yields (Entries W (req :: reqs)) (checkPermit W policy req) (ownPermit W policy req)
    (Entries W (req :: reqs)) := by
  unfold checkPermit ownPermit
  cases hmode : policy.executionMode with
  | publisher =>
    cases hu : req.authed with
    | none => exact yields_pure _
    | some user =>
      have hback := fun s (hs : Entries W (req :: reqs) s) => hs.permits
      refine Yields.bind (yields_cached hback (user, toPath req.path, req.w) rfl ?_ ?_ ?_)
        (fun _ _ => yields_lift _) fun _ h => h
      · intro q permit hq hkey hval
        rw [← hown.permit (hrun hmode) user hu q hq (W.sha256_injective hkey), hval]
      · intro permit hperm
        exact ⟨⟨req, mem_cons_self, hrun hmode, hu, rfl, rfl⟩, Except.ok.inj hperm⟩
      · exact fun s c hs hc => ⟨hs.policies, hs.appScriptPaths, hc⟩
  | anonymous | viewer => exact yields_pure _

lemma fetchPolicy_of_ownPolicy {resolved} (h : ownPolicy W req = .ok resolved)
    (hrun : req.payload.forceViewerStaticFields = none) :
    fetchPolicy W req.w (toPath req.path) = .ok resolved.1 := by
  unfold ownPolicy at h
  rw [hrun] at h
  obtain ⟨policy, hpol, h⟩ := bind_eq_ok.mp h
  obtain ⟨path, -, h⟩ := bind_eq_ok.mp h
  obtain ⟨triggerables, -, h⟩ := bind_eq_ok.mp h
  cases pure_eq_ok.mp h
  exact hpol

lemma ownPolicy_ok {resolved} (h : ownPolicy W req = .ok resolved) :
    resolved.1.executionMode = .viewer ∨ req.payload.forceViewerStaticFields = none ∧
      fetchPolicy W req.w (toPath req.path) = .ok resolved.1 := by
  cases hrun : req.payload.forceViewerStaticFields with
  | some staticInputs =>
    unfold ownPolicy at h
    rw [hrun] at h
    cases h
    exact .inl rfl
  | none => exact .inr ⟨rfl, fetchPolicy_of_ownPolicy h hrun⟩

/-- **A request ends as with a new server**, whatever has come before. -/
theorem executeComponent_yields (hown : OwnKeys W reqs req) :
    Yields (Ready W reqs req) (executeComponent W req) (judge W req) (Entries W (req :: reqs)) := by
  have hself := hown.self
  have hstart : Yields (Ready W (req :: reqs) req) (executeComponent W req) (judge W req)
      (Entries W (req :: reqs)) := by
    refine (yields_lift _).bind (fun _ _ => ?_) fun _ h => h.1
    refine (resolvePolicy_yields hself).bind (fun resolved hres => ?_) fun _ h => h.1
    have hpol := ownPolicy_ok hres
    have hlim := @checkRateLimit_yields U W (req :: reqs) req resolved.1 fun hmode => by
      rcases hpol with hviewer | ⟨-, hfetch⟩
      · simp [hmode] at hviewer
      · exact hfetch
    have hperm := @checkPermit_yields U W reqs req resolved.1 hself fun hmode => by
      rcases hpol with hviewer | ⟨hrun, -⟩
      · simp [hmode] at hviewer
      · exact hrun
    exact hlim.bind (g := fun _ => ownPermit W resolved.1 req >>= fun _ =>
        makeJob W req resolved.1 resolved.2)
      (fun _ _ => hperm.bind (fun _ _ => yields_lift _) fun _ h => h) fun _ h => h
  exact fun s hs => hstart s ⟨hs.1.cons, hs.2⟩

/-! ### Sequences of requests -/

/-- The server, with the requests so far. -/
structure State (U : Type) where
  server : Server
  log : List (Request U × Except Error Job)

def State.start : State U := ⟨.fresh, []⟩

def State.requests (s : State U) : List (Request U) := s.log.map Prod.fst

/-- One request. -/
def step (W : World U) (s : State U) (req : Request U) : Option (State U) :=
  let r := (executeComponent W req).exec s.server
  some ⟨r.2, (req, r.1) :: s.log⟩

def unversioned (req : Request U) : Request U :=
  { req with payload := { req.payload with version := none } }

/-- Every request has ended as the first one to a new server, without a version; a job that is
pushed in publisher mode is of a user who can read the app. -/
structure OwnPolicies (W : World U) (s : State U) : Prop where
  outcome : ∀ req outcome, (req, outcome) ∈ s.log →
    outcome = ((executeComponent W (unversioned req)).exec .fresh).1
  publisher : ∀ req job, (req, .ok job) ∈ s.log → req.payload.forceViewerStaticFields = none →
    ∃ policy, fetchPolicy W req.w (toPath req.path) = .ok policy ∧
    (policy.executionMode = .publisher →
      ∃ user, req.authed = some user ∧ W.sees user (toPath req.path) req.w = true)

/-- The keys of the request are its own, and it is below the limit. -/
def Unmixed (W : World U) (s : State U) (req : Request U) : Prop :=
  OwnKeys W s.requests req ∧ BelowLimit W req s.server

lemma ownKeys_nil : OwnKeys W [] req where
  version := by
    rintro - v _ q ⟨r, hr, -⟩
    cases hr
  permit := by
    rintro - user _ q ⟨r, hr, -⟩
    cases hr

lemma fresh_eq_judge : ((executeComponent W (unversioned req)).exec .fresh).1 = judge W req :=
  (executeComponent_yields ownKeys_nil .fresh ⟨⟨backed_nil, backed_nil, backed_nil⟩,
    fun _ _ _ _ _ _ hpos => hpos⟩).1

lemma judge_publisher {job : Job} (h : judge W req = .ok job)
    (hrun : req.payload.forceViewerStaticFields = none) :
    ∃ policy, fetchPolicy W req.w (toPath req.path) = .ok policy ∧
    (policy.executionMode = .publisher →
      ∃ user, req.authed = some user ∧ W.sees user (toPath req.path) req.w = true) := by
  obtain ⟨_, -, h⟩ := bind_eq_ok.mp h
  obtain ⟨resolved, hres, h⟩ := bind_eq_ok.mp h
  obtain ⟨_, hperm, h⟩ := bind_eq_ok.mp h
  refine ⟨resolved.1, fetchPolicy_of_ownPolicy hres hrun, fun hmode => ?_⟩
  unfold ownPermit at hperm
  rw [hmode] at hperm
  cases hu : req.authed with
  | none =>
    -- the job would have no user
    obtain ⟨details, hdet, -⟩ := bind_eq_ok.mp h
    unfold getOnBehalfDetailsFromPolicyAndAuthed at hdet
    simp [hmode, hu] at hdet
  | some user =>
    rw [hu] at hperm
    refine ⟨user, rfl, ?_⟩
    obtain ⟨permit, hsees, hperm⟩ := bind_eq_ok.mp hperm
    cases hsees
    split_ifs at hperm with hsees
    exact hsees

structure Inv (W : World U) (s : State U) : Prop where
  entries : Entries W s.requests s.server
  judged : ∀ req outcome, (req, outcome) ∈ s.log → outcome = judge W req

lemma Inv.ownPolicies {s} (h : Inv W s) : OwnPolicies W s where
  outcome req outcome hmem := by rw [h.judged req outcome hmem, fresh_eq_judge]
  publisher req job hmem hrun := judge_publisher (h.judged req (.ok job) hmem).symm hrun

lemma inv_step {s s'} (hI : Inv W s) (hC : Unmixed W s req) (h : step W s req = some s') :
    Inv W s' := by
  obtain ⟨hres, hents⟩ := executeComponent_yields hC.1 s.server ⟨hI.entries, hC.2⟩
  cases h
  refine ⟨hents, fun req' outcome hmem => ?_⟩
  rcases mem_cons.mp hmem with heq | hmem
  · cases heq
    exact hres
  · exact hI.judged req' outcome hmem

end

/-! ### The theorem -/

/-- **In every sequence of unmixed requests, each is judged by the policy of its own app.** -/
theorem requests_judged_by_own_policy {U : Type} {W : World U} {reqs : List (Request U)}
    {s : State U}
    (hC : Meets (step W) (Unmixed W) reqs .start) (hrun : run (step W) reqs .start = some s) :
    OwnPolicies W s :=
  have hstart : Inv W (State.start : State U) :=
    ⟨⟨backed_nil, backed_nil, backed_nil⟩, fun req outcome hmem => (by cases hmem)⟩
  (run_invariant inv_step hstart hC hrun).ownPolicies

def publisherPolicy (owner script : String) : Policy :=
  ⟨some ("u/" ++ owner), some (owner ++ "@example.com"), none, some [(script, ⟨[], [], []⟩)],
    .publisher⟩

def twoApps : World Bool where
  email first := if first then "alice@example.com" else "bob@example.com"
  username first := if first then "alice" else "bob"
  policyRow _ path := if path = "u/alice/admin" ∨ path = "u/bob/notes" then some path else none
  parsePolicy row := .ok (if row = "u/alice/admin"
    then publisherPolicy "alice" "script/u/alice/wipe"
    else publisherPolicy "bob" "script/u/bob/list")
  appScriptRow _ := .error (.other "no rows returned")
  sees first path _ := if first then path = "u/alice/admin" else path = "u/bob/notes"
  publicAppRateLimit _ := none
  scriptPathToPayload _ _ := .ok (1, none)
  latestFlowVersion _ _ := .error (.notFound "flow not found")
  buildArgs _ _ args _ _ := .ok args
  sha256 := id
  sha256_injective := Function.injective_id

def runScript (user : Bool) (app script : String) (version : Int64) : Request Bool :=
  ⟨some user, "demo", app, ⟨some version, none, [], some script, "button", none, none, none,
    none⟩, 0⟩

def aliceWipes : Request Bool := runScript true "u/alice/admin" "script/u/alice/wipe" 7

def bobLists : Request Bool := runScript false "u/bob/notes" "script/u/bob/list" 8

theorem own_apps_judged : ∃ s, run (step twoApps) [aliceWipes, bobLists] .start = some s ∧
    s.log.map (fun e => e.2.map Job.permissionedAs) = [.ok "u/bob", .ok "u/alice"] ∧
    OwnPolicies twoApps s := by
  refine ⟨_, rfl, rfl, @requests_judged_by_own_policy Bool twoApps [aliceWipes, bobLists] _ ?_ rfl⟩
  have hlim : ∀ {req : Request Bool} {s : Server}, BelowLimit twoApps req s :=
    nofun
  refine meets_cons ⟨ownKeys_nil, hlim⟩ rfl (meets_cons ⟨⟨?_, ?_⟩, hlim⟩ rfl trivial)
  · rintro - v hv ⟨v', w, path⟩ ⟨req, hreq, -, hv', -⟩ rfl
    cases mem_singleton.mp hreq
    cases hv
    exact absurd (Option.some_inj.mp hv') (show ¬(7 : Int64) = 8 by decide)
  · rintro - user hu ⟨user', path, w⟩ ⟨req, hreq, -, hu', hpath, hw⟩ htext
    cases mem_singleton.mp hreq
    cases hu
    cases hu'
    cases hpath
    cases hw
    exact absurd htext (by decide)

/-- The second user brings the version of the first user's app to an app of their own. -/
def bobWipes : Request Bool := runScript false "u/bob/notes" "script/u/alice/wipe" 7

theorem run_under_another_policy : ∃ s, run (step twoApps) [aliceWipes, bobWipes] .start = some s ∧
    (∃ job, (bobWipes, .ok job) ∈ s.log ∧ job.permissionedAs = "u/alice") ∧
    ((executeComponent twoApps (unversioned bobWipes)).exec .fresh).1 =
      .error (.badRequest "Path script/u/alice/wipe forbidden by policy") ∧
      ¬OwnPolicies twoApps s := by
  refine ⟨_, rfl, ⟨_, mem_cons_self, rfl⟩, rfl, fun h => ?_⟩
  cases h.outcome bobWipes _ mem_cons_self

end Windmill.App.History
