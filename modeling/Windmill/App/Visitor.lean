import Windmill.App.Execute
import Windmill.Lib.Except
import Windmill.Lib.Records

/-! # What a visitor of an app chooses

A job is pushed with what `execute_component` makes of a request (`push`,
`windmill-queue/src/jobs.rs`), and run by a worker (`handle_code_execution_job`,
`windmill-worker/src/worker.rs`). `visitor_chooses_arguments` says when the jobs of two requests
that the policy does not tell apart are the same but for the arguments. -/

namespace Windmill.App.Visitor

open Lib.Effect Lib.Memo Lib.Except Execute Option
open Lib.Records (countableString)

inductive JobKind where
  | script
  | scriptHub
  | flow
  | flowPreview
  | preview
  | appScript
deriving DecidableEq

structure Settings where
  language : Option String
  cacheTtl : Option ℤ
  cacheIgnoreS3Path : Option Bool
  dedicatedWorker : Option Bool
  concurrencySettings : ConcurrencySettings
  debouncingSettings : DebouncingSettings

def noConcurrency : ConcurrencySettings := ⟨none, none, none⟩

def noDebouncing : DebouncingSettings := ⟨none, none, none, none, none⟩

def Settings.plain (language : Option String) (cacheTtl : Option ℤ) : Settings :=
  ⟨language, cacheTtl, none, none, noConcurrency, noDebouncing⟩

/-- The runnables that are stored, by hash or version. -/
structure Runnables where
  script : ℤ → Settings
  scriptModules : ℤ → Option Modules
  flow : ℤ → Settings
  hubScriptLanguage : String → String
  hubFlow : String → Settings

structure ModulesFormat where
  write : Modules → String
  read : String → Option Modules
  read_write : ∀ modules, read (write modules) = some modules

structure Untagged where
  jobKind : JobKind
  runnableId : Option ℤ
  runnablePath : Option String
  rawCodeTuple : Option (String × Option String)
  settings : Settings

structure QueuedJob where
  untagged : Untagged
  args : StaticFields
  createdBy : String
  permissionedAs : String
  email : String

def isHubScript (path : String) : Bool := (stripStart "hub/" path).isSome

def isHubFlow (path : String) : Bool := (stripStart "hub/flows/" path).isSome

section

variable (R : Runnables) (F : ModulesFormat)

def untagged : JobPayload → Untagged
  | .script path hash =>
    if isHubScript path then ⟨.scriptHub, none, some path, none,
      .plain (some (R.hubScriptLanguage path)) none⟩
    else ⟨.script, some hash, some path, none, R.script hash⟩
  | .flow path version =>
    if isHubFlow path then ⟨.flowPreview, none, some path, none, R.hubFlow path⟩
    else ⟨.flow, some version, some path, none, R.flow version⟩
  | .code c =>
    ⟨.preview, c.hash.map Int64.toInt, c.path, some (c.content, c.lock), some c.language,
      c.cacheTtl, c.cacheIgnoreS3Path,
      c.dedicatedWorker, c.concurrencySettings, c.debouncingSettings⟩
  | .appScript id path language cacheTtl =>
    ⟨.appScript, some id.toInt, path, none, .plain (some language) cacheTtl⟩

def superadminNotificationEmail : String := "superadmin_notification@windmill.dev"

def sendsReports : JobPayload → Bool
  | .script path _ => path ∈ ["hub/7771/slack", "hub/7836/slack", "hub/9084/slack"]
  | _ => false

def requestModules : JobPayload → Option Modules
  | .code c => c.modules
  | _ => none

def withModules (modules : Option Modules) (args : StaticFields) : StaticFields :=
  match modules with
  | some modules => ("_MODULES", F.write modules) :: args
  | none => args

/-- `push`: the row of the job. -/
def push (job : Job) : QueuedJob where
  untagged := untagged R job.payload
  args := withModules F (requestModules job.payload) job.args
  createdBy := job.username
  permissionedAs := if sendsReports job.payload then superadminNotificationEmail
    else job.permissionedAs
  email := if sendsReports job.payload then superadminNotificationEmail else job.email

/-! ### The worker -/

def isCodebase (hash : ℤ) : Bool := hash ∈ [-42, -43, -44, -45]

inductive Code where
  | stored (hash : ℤ)
  | hub (path : Option String)
  | inline (raw : Option (String × Option String)) (language : Option String)
  | appScript (id : Option ℤ) (language : Option String)
  | flow (version : Option ℤ) (path : Option String)

def code (job : Untagged) : Code :=
  match job.jobKind, job.runnableId with
  | .script, some hash => .stored hash
  | .preview, some hash => if isCodebase hash then .inline job.rawCodeTuple job.settings.language
      else .stored hash
  | .script, none => .hub none
  | .preview, none => .inline job.rawCodeTuple job.settings.language
  | .scriptHub, _ => .hub job.runnablePath
  | .appScript, id => .appScript id job.settings.language
  | .flow, version => .flow version job.runnablePath
  | .flowPreview, version => .flow version job.runnablePath

def modulesFromData (job : Untagged) : Option Modules :=
  match code job with
  | .stored hash => R.scriptModules hash
  | _ => none

def runsSteps (job : Untagged) : Bool := job.jobKind = .flow ∨ job.jobKind = .flowPreview

def modules (job : QueuedJob) : Option Modules :=
  if runsSteps job.untagged then none
  else (modulesFromData R job.untagged).or ((job.args.lookup "_MODULES").bind F.read)

structure Program where
  code : Code
  modules : Option Modules
  runnablePath : Option String
  permissionedAs : String
  email : String

def program (job : QueuedJob) : Program where
  code := code job.untagged
  modules := modules R F job
  runnablePath := job.untagged.runnablePath
  permissionedAs := job.permissionedAs
  email := job.email

/-- The jobs run the same program, and differ at most in their arguments and the name of the
visitor. -/
structure SameButArguments (job job' : QueuedJob) : Prop where
  program : program R F job = program R F job'
  untagged : job.untagged = job'.untagged
  permissionedAs : job.permissionedAs = job'.permissionedAs
  email : job.email = job'.email

end

/-! ### What the requests have to agree on -/

section

variable {U : Type} (W : World U) (R : Runnables) (F : ModulesFormat)

def codeFields (p : ExecuteApp) : Option RawCode :=
  match p.rawCode, p.id with
  | none, _ => none
  | some c, none => some { c with modules := none }
  | some c, some _ =>
    some ⟨"", c.path, none, c.language, none, c.cacheTtl, none, none, noConcurrency,
      noDebouncing, none⟩

def found (s : Server) (req : Request U) : Except Error (Policy × PolicyTriggerableInputs) :=
  ((resolvePolicy W req).exec s).1

/-- The identity that the policy gives, with the email. -/
def policyIdentity (s : Server) (req : Request U) : Except Error (String × String) := do
  let entry ← found W s req
  let details ← getOnBehalfDetailsFromPolicyAndAuthed W entry.1 req.authed
  .ok details.2

def OwnIdentity (req : Request U) : Prop :=
  ∃ payload o, jobPayload W req.payload req.w = .ok (payload, o) ∧
    (o.isSome = true ∨ sendsReports payload = true)

def broughtModules (s : Server) (req : Request U) : Except Error (Option Modules) := do
  let entry ← found W s req
  let args ← W.buildArgs entry.1 entry.2 req.payload.args req.authed req.w
  let payload ← jobPayload W req.payload req.w
  .ok ((requestModules payload.1).or ((args.lookup "_MODULES").bind F.read))

def OwnModules (req : Request U) : Prop :=
  ∃ payload o, jobPayload W req.payload req.w = .ok (payload, o) ∧
    (runsSteps (untagged R payload) = true ∨ (modulesFromData R (untagged R payload)).isSome = true)

/-- The requests agree on what the policy leaves open. -/
structure Agree (s s' : Server) (req req' : Request U) : Prop where
  code : codeFields req.payload = codeFields req'.payload
  modules : OwnModules W R req ∨ broughtModules W F s req = broughtModules W F s' req'
  identity : OwnIdentity W req ∨ policyIdentity W s req = policyIdentity W s' req'

/-- A policy that is cached under the version of the request is that of the app. -/
def OwnPolicy (s : Server) (req : Request U) : Prop :=
  ∀ v policy, req.payload.version = some v → s.policies.lookup v.toUInt64 = some policy →
    fetchPolicy W req.w (toPath req.path) = .ok policy

end

section

variable {U : Type} {W : World U} {R : Runnables} {F : ModulesFormat} {s s' : Server}
  {req req' : Request U} {job job' : Job} {identity identity' : String × String}

/-! ### Requests that are accepted -/

structure Made (W : World U) (F : ModulesFormat) (s : Server) (req : Request U) (job : Job)
  (o : Option OnBehalfOf)
    (identity : String × String) : Prop where
  payload : jobPayload W req.payload req.w = .ok (job.payload, o)
  given : policyIdentity W s req = .ok identity
  brought : broughtModules W F s req =
    .ok ((requestModules job.payload).or ((job.args.lookup "_MODULES").bind F.read))
  permissionedAs : job.permissionedAs = (o.map OnBehalfOf.permissionedAs).getD identity.1
  email : job.email = (o.map OnBehalfOf.email).getD identity.2

lemma made_of_accepted (F : ModulesFormat) (h : ((executeComponent W req).exec s).1 = .ok job) :
    ∃ o identity, Made W F s req job o identity := by
  obtain ⟨_, t, hfs, h⟩ := exec_bind_ok h
  cases congrArg Prod.snd hfs
  obtain ⟨entry, t, hent, h⟩ := exec_bind_ok h
  obtain ⟨_, t, -, h⟩ := exec_bind_ok h
  obtain ⟨_, t, -, h⟩ := exec_bind_ok h
  have hfound : found W s req = .ok entry := congrArg Prod.fst hent
  have hmade : makeJob W req entry.1 entry.2 = .ok job := h
  obtain ⟨⟨username, permissionedAs, email⟩, hdet, hmade⟩ := bind_eq_ok.mp hmade
  obtain ⟨args, hargs, hmade⟩ := bind_eq_ok.mp hmade
  obtain ⟨⟨payload, o⟩, hpay, hmade⟩ := bind_eq_ok.mp hmade
  have hgiven : policyIdentity W s req = .ok (permissionedAs, email) :=
    bind_eq_ok.mpr ⟨entry, hfound, bind_eq_ok.mpr ⟨_, hdet, rfl⟩⟩
  have hbrought : broughtModules W F s req =
      .ok ((requestModules payload).or ((args.lookup "_MODULES").bind F.read)) :=
    bind_eq_ok.mpr ⟨entry, hfound, bind_eq_ok.mpr ⟨args, hargs, bind_eq_ok.mpr ⟨_, hpay, rfl⟩⟩⟩
  refine ⟨o, (permissionedAs, email), ?_⟩
  cases o with
  | none | some o =>
    cases hmade
    exact ⟨hpay, hgiven, hbrought, rfl, rfl⟩

/-! ### Two payloads -/

/-- The requests name the same runnable, for all that the policy looks at. -/
structure SameRunnable (p p' : ExecuteApp) : Prop where
  path : p.path = p'.path
  id : p.id = p'.id
  content : p.rawCode.map RawCode.content = p'.rawCode.map RawCode.content

/-- What two such payloads have in common, and when they are queued alike. -/
structure SamePayload (R : Runnables) (p p' : ExecuteApp) (x x' : JobPayload × Option OnBehalfOf) :
  Prop where
  onBehalfOf : x.2 = x'.2
  sendsReports : sendsReports x.1 = sendsReports x'.1
  untagged : untagged R x.1 = untagged R x'.1 ↔ codeFields p = codeFields p'

lemma untagged_code {c c'} (hcont : c.content = c'.content) :
    untagged R (.code c) = untagged R (.code c') ↔
    { c with modules := none } = { c' with modules := none } := by
  obtain ⟨content, path, hash, language, lock, cacheTtl, ignore, dedicated, concurrency, debouncing,
      modules⟩ := c
  obtain ⟨content', path', hash', language', lock', cacheTtl', ignore', dedicated', concurrency',
    debouncing', modules'⟩ := c'
  have hhash : hash.map Int64.toInt = hash'.map Int64.toInt ↔ hash = hash' :=
    ⟨fun h => map_injective (fun _ _ => Int64.toInt_inj.mp) h, fun h => by rw [h]⟩
  simp only [untagged, Untagged.mk.injEq, Settings.mk.injEq, RawCode.mk.injEq, some.injEq,
    Prod.mk.injEq, hhash]
  tauto

lemma samePayload {w p p' x x'} (hsame : SameRunnable p p') (h : jobPayload W p w = .ok x)
    (h' : jobPayload W p' w = .ok x') : SamePayload R p p' x x' := by
  unfold jobPayload at h h'
  obtain ⟨hpath, hid, hcont⟩ := hsame
  rw [← hpath, ← hid] at h'
  cases hp : p.path with
  | some path =>
    -- the runnable is found by its path
    cases hc : p.rawCode with
    | some c =>
      simp [hp, hc] at h
    | none =>
      have hc' : p'.rawCode = none := by
        rw [hc] at hcont
        exact map_eq_none_iff.mp hcont.symm
      cases hi : p.id with
      | some id =>
        simp [hp, hc, hi] at h
      | none =>
        rw [hp, hc, hi] at h
        rw [hp, hc', hi] at h'
        cases Except.ok.inj (h.symm.trans h')
        refine ⟨rfl, rfl, ⟨fun _ => ?_, fun _ => rfl⟩⟩
        unfold codeFields
        rw [hc, hc']
  | none =>
    cases hc : p.rawCode with
    | none =>
      simp [hp, hc] at h
    | some c =>
      rw [hc] at hcont
      obtain ⟨c', hc', heq⟩ := map_eq_some_iff.mp hcont.symm
      cases hi : p.id with
      | none =>
        rw [hp, hc, hi] at h
        rw [hp, hc', hi] at h'
        cases h
        cases h'
        refine ⟨rfl, rfl, (untagged_code heq.symm).trans ?_⟩
        unfold codeFields
        rw [hc, hc', ← hid, hi]
        exact some_inj.symm
      | some id =>
        rw [hp, hc, hi] at h
        rw [hp, hc', hi] at h'
        cases h
        cases h'
        refine ⟨rfl, rfl, ?_⟩
        unfold codeFields
        rw [hc, hc', ← hid, hi]
        simp [untagged, Settings.plain]

/-! ### Identities and modules -/

lemma identity_iff {o o'} (hmade : Made W F s req job o identity)
    (hmade' : Made W F s' req' job' o' identity')
    (hsame : SamePayload R req.payload req'.payload (job.payload, o) (job'.payload, o')) :
    (push R F job).permissionedAs = (push R F job').permissionedAs ∧ (push R F job).email =
    (push R F job').email ↔
      OwnIdentity W req ∨ policyIdentity W s req = policyIdentity W s' req' := by
  have ho : o = o' := hsame.onBehalfOf
  have hrep : sendsReports job.payload = sendsReports job'.payload := hsame.sendsReports
  subst ho
  have hown : OwnIdentity W req ↔ o.isSome = true ∨ sendsReports job.payload = true := by
    refine ⟨fun ⟨payload, o', hpay, hor⟩ => ?_, fun hor => ⟨_, _, hmade.payload, hor⟩⟩
    cases Except.ok.inj (hmade.payload.symm.trans hpay)
    exact hor
  rw [hown, hmade.given, hmade'.given]
  unfold push
  rw [← hrep]
  cases hsends : sendsReports job.payload with
  | true => simp
  | false =>
    rw [hmade.permissionedAs, hmade'.permissionedAs, hmade.email, hmade'.email]
    cases o with
    | none => simp [Prod.ext_iff]
    | some o => simp

lemma lookup_withModules (brought : Option Modules) (args : StaticFields) :
    ((withModules F brought args).lookup "_MODULES").bind F.read =
      brought.or ((args.lookup "_MODULES").bind F.read) := by
  cases brought with
  | none => rfl
  | some modules =>
    unfold withModules
    rw [List.lookup_cons_self, bind_some, F.read_write, some_or]

lemma modules_iff {o o'} (hmade : Made W F s req job o identity)
    (hmade' : Made W F s' req' job' o' identity')
    (huntag : untagged R job.payload = untagged R job'.payload) :
    modules R F (push R F job) = modules R F (push R F job') ↔
      OwnModules W R req ∨ broughtModules W F s req = broughtModules W F s' req' := by
  have hown : OwnModules W R req ↔ runsSteps (untagged R job.payload) = true ∨
      (modulesFromData R (untagged R job.payload)).isSome = true := by
    refine ⟨fun ⟨payload, o', hpay, hor⟩ => ?_, fun hor => ⟨_, _, hmade.payload, hor⟩⟩
    cases Except.ok.inj (hmade.payload.symm.trans hpay)
    exact hor
  rw [hown, hmade.brought, hmade'.brought]
  unfold modules push
  rw [← huntag, lookup_withModules, lookup_withModules]
  cases hsteps : runsSteps (untagged R job.payload) with
  | true => simp
  | false =>
    cases hdata : modulesFromData R (untagged R job.payload) with
    | none => simp
    | some stored => simp

/-! ### The policy of the app -/

lemma fetchPolicy_of_found (hrun : req.payload.forceViewerStaticFields = none)
    (hown : OwnPolicy W s req) {entry} (h : found W s req = .ok entry) :
    fetchPolicy W req.w (toPath req.path) = .ok entry.1 := by
  unfold found resolvePolicy at h
  rw [hrun] at h
  obtain ⟨policy, t, hpol, h⟩ := exec_bind_ok h
  obtain ⟨path, t, -, h⟩ := exec_bind_ok h
  obtain ⟨triggerables, t, -, h⟩ := exec_bind_ok h
  cases h
  unfold getPolicy at hpol
  cases hv : req.payload.version with
  | none =>
    rw [hv] at hpol
    exact congrArg Prod.fst hpol
  | some v =>
    rw [hv] at hpol
    have hcache := congrArg Prod.fst hpol
    dsimp only [cached, exec_onState, getOrInsert] at hcache
    cases hlook : s.policies.lookup v.toUInt64 with
    | some policy' =>
      rw [hlook] at hcache
      cases hcache
      exact hown v _ hv hlook
    | none =>
      rw [hlook] at hcache
      cases hfetch : fetchPolicy W req.w (toPath req.path) with
      | error e =>
        simp [hfetch] at hcache
      | ok policy' =>
        rw [hfetch] at hcache
        cases hcache
        rfl

lemma policyIdentity_eq (hrun : req.payload.forceViewerStaticFields = none)
    (hown : OwnPolicy W s req) {policy} (hfetch : fetchPolicy W req.w (toPath req.path) = .ok
      policy) (hmode : policy.executionMode ≠ .viewer) (h : policyIdentity W s req = .ok identity) :
    getOnBehalfOf policy = .ok identity := by
  obtain ⟨entry, hfound, h⟩ := bind_eq_ok.mp h
  obtain ⟨details, hdet, h⟩ := bind_eq_ok.mp h
  cases h
  cases Except.ok.inj (hfetch.symm.trans (fetchPolicy_of_found hrun hown hfound))
  unfold getOnBehalfDetailsFromPolicyAndAuthed at hdet
  split at hdet
  · obtain ⟨identity, hid, rfl⟩ := map_eq_ok.mp hdet
    exact hid
  · obtain ⟨identity, hid, rfl⟩ := map_eq_ok.mp hdet
    exact hid
  · cases hdet
  · case _ hviewer _ => exact absurd hviewer hmode
  · cases hdet

end

/-- **The jobs of two requests that the policy cannot tell apart are the same but for the arguments
if and only if the requests agree** on the rest of the code and on the modules that the worker
takes, and the policies that the servers have give the same identity. -/
theorem visitor_chooses_arguments {U : Type} {W : World U} {R : Runnables} {F : ModulesFormat}
    {s s' : Server} {req req' : Request U} {job job' : Job} {policy : Policy} (hw : req.w = req'.w)
    (happ : toPath req.path = toPath req'.path)
    (hpolicy : fetchPolicy W req.w (toPath req.path) = .ok policy)
    (hmode : policy.executionMode ≠ .viewer) (hrun : req.payload.forceViewerStaticFields = none)
    (hrun' : req'.payload.forceViewerStaticFields = none)
    (hsame : SameRunnable req.payload req'.payload)
    (h : ((executeComponent W req).exec s).1 = .ok job)
    (h' : ((executeComponent W req').exec s').1 = .ok job') :
    (SameButArguments R F (push R F job) (push R F job') ↔ Agree W R F s s' req req') ∧
      (OwnPolicy W s req → OwnPolicy W s' req' → policyIdentity W s req =
        policyIdentity W s' req') := by
  obtain ⟨o, identity, hmade⟩ := made_of_accepted F h
  obtain ⟨o', identity', hmade'⟩ := made_of_accepted F h'
  have hpay' := hmade'.payload
  rw [← hw] at hpay'
  have hpays : SamePayload R req.payload req'.payload (job.payload, o) (job'.payload, o') :=
    samePayload hsame hmade.payload hpay'
  refine ⟨⟨fun hjobs => ?_, fun hagree => ?_⟩, fun hown hown' => ?_⟩
  · have hmods := (modules_iff hmade hmade' hjobs.untagged).mp
      (congrArg Program.modules hjobs.program)
    exact ⟨hpays.untagged.mp hjobs.untagged, hmods,
      (identity_iff hmade hmade' hpays).mp ⟨hjobs.permissionedAs, hjobs.email⟩⟩
  · have huntag : untagged R job.payload = untagged R job'.payload := hpays.untagged.mpr hagree.code
    obtain ⟨hperm, hemail⟩ := (identity_iff hmade hmade' hpays).mpr hagree.identity
    have hmods := (modules_iff hmade hmade' huntag).mpr hagree.modules
    refine ⟨?_, huntag, hperm, hemail⟩
    have hqueued : (push R F job).untagged = (push R F job').untagged := huntag
    unfold program
    rw [hmods, hperm, hemail, hqueued]
  · have hpolicy' : fetchPolicy W req'.w (toPath req'.path) = .ok policy := by
      rw [← hw, ← happ, hpolicy]
    have hid := policyIdentity_eq hrun hown hpolicy hmode hmade.given
    have hid' := policyIdentity_eq hrun' hown' hpolicy' hmode hmade'.given
    rw [hmade.given, hmade'.given, ← hid, ← hid']

/-! ### Instances -/

lemma exists_write_modules : ∃ write : Modules → String, Function.Injective write := by
  have hmod : Function.Injective fun m : ScriptModule => (m.content, m.language, m.lock) := by
    rintro ⟨content, language, lock⟩ ⟨content', language', lock'⟩ h
    cases h
    rfl
  have hctb : Countable ScriptModule := hmod.countable
  obtain ⟨number, hnum⟩ := exists_injective_nat Modules
  refine ⟨fun m => String.ofList (List.replicate (number m) '1'), fun m m' h => hnum ?_⟩
  have hlen := congrArg (fun text => text.toList.length) h
  simpa using hlen

noncomputable def someFormat : ModulesFormat where
  write := exists_write_modules.choose
  read := Function.partialInv exists_write_modules.choose
  read_write := Function.partialInv_left exists_write_modules.choose_spec

def publicApp : World Bool where
  email first := if first then "alice@example.com" else "bob@example.com"
  username first := if first then "alice" else "bob"
  policyRow _ path := some path
  parsePolicy _ := .ok
    ⟨some "u/alice", some "alice@example.com", none, some [("rawscript/return 1", ⟨[], [], []⟩)],
      .anonymous⟩
  appScriptRow _ := .ok "return 1"
  sees _ _ _ := true
  publicAppRateLimit _ := none
  scriptPathToPayload _ _ := .error (.notFound "script not found")
  latestFlowVersion _ _ := .error (.notFound "flow not found")
  buildArgs _ _ args _ _ := .ok args
  sha256 := id
  sha256_injective := Function.injective_id

def runnables : Runnables where
  script _ := .plain (some "bash") none
  scriptModules _ := none
  flow _ := .plain none none
  hubScriptLanguage _ := "deno"
  hubFlow _ := .plain none none

def inlineCode : RawCode :=
  ⟨"return 1", none, none, "deno", none, none, none, none, noConcurrency, noDebouncing, none⟩

def runInline (user : Option Bool) (id : Option Int64) (code : RawCode) (args : StaticFields) :
    Request Bool :=
  ⟨user, "demo", "u/alice/app", ⟨none, id, args, none, "button", some code, none, none, none⟩, 0⟩

theorem inline_same_but_arguments : ∃ job job',
    ((executeComponent publicApp (runInline none none inlineCode [])).exec .fresh).1 = .ok job ∧
    ((executeComponent publicApp (runInline (some false) none inlineCode [("x", "1")])).exec
      .fresh).1 = .ok job' ∧
    SameButArguments runnables someFormat (push runnables someFormat job)
    (push runnables someFormat job') := by
  refine ⟨_, _, rfl, rfl, ?_⟩
  have hmode : ExecutionMode.anonymous ≠ .viewer := by decide
  exact (@visitor_chooses_arguments Bool publicApp runnables someFormat .fresh .fresh
    (runInline none none inlineCode [])
    (runInline (some false) none inlineCode [("x", "1")]) _ _ _ rfl rfl rfl hmode rfl rfl
    ⟨rfl, rfl, rfl⟩ rfl rfl).1.mpr
    ⟨rfl, .inr rfl, .inr rfl⟩

/-- Code with the hash of another script runs that script, with its language; and an argument of a
stored script becomes its modules. -/
theorem visitor_chooses_code : (∃ job job',
    ((executeComponent publicApp (runInline none none inlineCode [])).exec .fresh).1 = .ok job ∧
    ((executeComponent publicApp (runInline none none { inlineCode with hash := some 7 } [])).exec
      .fresh).1 = .ok job' ∧
    (program runnables someFormat (push runnables someFormat job')).code = .stored 7 ∧
    ¬SameButArguments runnables someFormat (push runnables someFormat job)
      (push runnables someFormat job')) ∧
    ∃ job job',
    ((executeComponent publicApp (runInline none (some 1) inlineCode [])).exec .fresh).1 = .ok job ∧
    ((executeComponent publicApp (runInline none (some 1) inlineCode
      [("_MODULES", someFormat.write [("helper.ts", ⟨"steal()", "deno", none⟩)])])).exec .fresh).1 =
      .ok job' ∧
    ¬SameButArguments runnables someFormat (push runnables someFormat job)
    (push runnables someFormat job') := by
  refine ⟨⟨_, _, rfl, rfl, rfl, fun h => ?_⟩, _, _, rfl, rfl, fun h => ?_⟩
  · cases h.untagged
  · have hmods : none = someFormat.read (someFormat.write _) := congrArg Program.modules h.program
    simp [someFormat.read_write] at hmods

end Windmill.App.Visitor
