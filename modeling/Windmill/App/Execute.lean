import Windmill.Lib.Effect
import Windmill.Lib.Memo

/-! # Requests to apps

`execute_component` (`windmill-api/src/apps.rs`) runs a component of an app, as the policy of the
app allows. The server keeps the policies it has read under the version number that the request
brings, the paths of inline scripts under their ids, the permits of users under a hash, and a count
of the anonymous requests of the current minute. The tables do not change; what the code reads from
them and from libraries is given by `World`. -/

namespace Windmill.App.Execute

open Lib.Effect Lib.Memo

inductive ExecutionMode where
  | anonymous
  | publisher
  | viewer
deriving DecidableEq

abbrev StaticFields := List (String × String)

structure PolicyTriggerableInputs where
  staticInputs : StaticFields
  oneOfInputs : List (String × List String)
  allowUserResources : List String
deriving DecidableEq

/-- `Policy` of an app. -/
structure Policy where
  onBehalfOf : Option String
  onBehalfOfEmail : Option String
  triggerables : Option (List (String × StaticFields))
  triggerablesV2 : Option (List (String × PolicyTriggerableInputs))
  executionMode : ExecutionMode
deriving DecidableEq

inductive Error where
  | badRequest (message : String)
  | notFound (message : String)
  | notAuthorized (message : String)
  | tooManyRequests (message : String)
  | other (message : String)
  | unreachable
deriving DecidableEq

structure ScriptModule where
  content : String
  language : String
  lock : Option String
deriving DecidableEq

abbrev Modules := List (String × ScriptModule)

structure ConcurrencySettings where
  concurrencyKey : Option String
  concurrentLimit : Option ℤ
  concurrencyTimeWindowS : Option ℤ
deriving DecidableEq

structure DebouncingSettings where
  debounceKey : Option String
  debounceDelayS : Option ℤ
  maxTotalDebouncingTime : Option ℤ
  maxTotalDebouncesAmount : Option ℤ
  debounceArgsToAccumulate : Option (List String)
deriving DecidableEq

structure RawCode where
  content : String
  path : Option String
  hash : Option Int64
  language : String
  lock : Option String
  cacheTtl : Option ℤ
  cacheIgnoreS3Path : Option Bool
  dedicatedWorker : Option Bool
  concurrencySettings : ConcurrencySettings
  debouncingSettings : DebouncingSettings
  modules : Option Modules
deriving DecidableEq

structure ExecuteApp where
  version : Option Int64
  id : Option Int64
  args : StaticFields
  path : Option String
  component : String
  rawCode : Option RawCode
  forceViewerStaticFields : Option StaticFields
  forceViewerOneOfFields : Option (List (String × List String))
  forceViewerAllowUserResources : Option (List String)

inductive JobPayload where
  | script (path : String) (hash : ℤ)
  | flow (path : String) (version : ℤ)
  | code (rawCode : RawCode)
  | appScript (id : Int64) (path : Option String) (language : String) (cacheTtl : Option ℤ)
deriving DecidableEq

structure OnBehalfOf where
  email : String
  permissionedAs : String
deriving DecidableEq

/-- The job that `execute_component` pushes. -/
structure Job where
  payload : JobPayload
  args : StaticFields
  username : String
  email : String
  permissionedAs : String
deriving DecidableEq

/-- What the database holds. -/
structure World (U : Type) where
  email : U → String
  username : U → String
  policyRow : String → String → Option String
  parsePolicy : String → Except Error Policy
  appScriptRow : Int64 → Except Error String
  sees : U → String → String → Bool
  publicAppRateLimit : String → Option ℤ
  scriptPathToPayload : String → String → Except Error (ℤ × Option OnBehalfOf)
  latestFlowVersion : String → String → Except Error ℤ
  buildArgs : Policy → PolicyTriggerableInputs → StaticFields → Option U → String →
    Except Error StaticFields
  sha256 : String → String
  sha256_injective : Function.Injective sha256

/-- A request to run a component. -/
structure Request (U : Type) where
  authed : Option U
  w : String
  path : String
  payload : ExecuteApp
  minute : ℤ

/-- The caches and counters of the server. -/
structure Server where
  policies : Cache UInt64 Policy
  appScriptPaths : Cache UInt64 String
  permits : Cache String Bool
  rateLimits : Cache String (ℤ × ℤ)

def Server.fresh : Server := ⟨[], [], [], []⟩

def toPath (path : String) : String :=
  match path.toList with
  | '/' :: rest => String.ofList rest
  | _ => path

def stripStart (start s : String) : Option String :=
  if start.toList.isPrefixOf s.toList then some (String.ofList (s.toList.drop start.toList.length))
    else none

def usernameToPermissionedAs (user : String) : String :=
  if '@' ∈ user.toList then user
  else match stripStart "group-" user with
    | some group => "g/" ++ group
    | none => "u/" ++ user

def emptyTriggerables (policy : Policy) : Policy :=
  match policy.triggerables with
  | none => policy
  | some triggerables => { policy with
      triggerables := none
      triggerablesV2 := some (triggerables.map (fun t => (t.1, ⟨t.2, [], []⟩)) ++
        policy.triggerablesV2.getD []) }

section

variable {U : Type} (W : World U)

def digest (code : String) : String := "rawscript/" ++ W.sha256 code

/-! ### The policy -/

/-- The stored policy of an app. -/
def fetchPolicy (w path : String) : Except Error Policy :=
  match W.policyRow w path with
  | none => .error (.notFound ("App not found at name " ++ path ++ " (apps.rs:2121)"))
  | some row => (W.parsePolicy row).map emptyTriggerables

def appScriptPath (id : Int64) : Except Error String := (W.appScriptRow id).map ("rawscript/" ++ ·)

/-- A value that is cached; `put` writes the cache back. -/
def cached {K V : Type} [DecidableEq K] (view : Server → Cache K V)
    (put : Server → Cache K V → Server) (key : K) (compute : Except Error V) : Eff Server Error V :=
  onState fun s =>
    let r := getOrInsert (view s) key compute
    (r.1, put s r.2)

def getPolicy (w path : String) (version : Option Int64) : Eff Server Error Policy :=
  match version with
  | some id => cached Server.policies (fun s c => { s with policies := c }) id.toUInt64
      (fetchPolicy W w path)
  | none => lift (fetchPolicy W w path)

def triggerablePath (p : ExecuteApp) : Eff Server Error String :=
  match p.path, p.rawCode, p.id with
  | some path, _, _ => pure path
  | none, some rawCode, none => pure (digest W rawCode.content)
  | none, some _, some id =>
    cached Server.appScriptPaths (fun s c => { s with appScriptPaths := c }) id.toUInt64
      (appScriptPath W id)
  | none, none, _ => lift (.error .unreachable)

variable (policy : Policy)

def policyTriggerables (component path : String) : Except Error PolicyTriggerableInputs :=
  match policy.triggerablesV2 with
  | none => .error (.badRequest "Policy is missing triggerables")
  | some triggerables =>
    match triggerables.lookup path, triggerables.lookup (component ++ ":" ++ path),
      policy.executionMode with
    | some t, _, _ => .ok t
    | none, some t, _ => .ok t
    | none, none, .viewer => .ok ⟨[], [], []⟩
    | none, none, _ => .error (.badRequest ("Path " ++ path ++ " forbidden by policy"))

variable (req : Request U)

/-- In preview mode the policy is the default one, in viewer mode; in run mode it is that of the
app. -/
def resolvePolicy : Eff Server Error (Policy × PolicyTriggerableInputs) :=
  match req.payload.forceViewerStaticFields with
  | some staticInputs => pure (⟨none, none, none, none, .viewer⟩,
      ⟨staticInputs, req.payload.forceViewerOneOfFields.getD [],
        req.payload.forceViewerAllowUserResources.getD []⟩)
  | none => do
    let policy ← getPolicy W req.w (toPath req.path) req.payload.version
    let path ← triggerablePath W req.payload
    let triggerables ← lift (policyTriggerables policy req.payload.component path)
    pure (policy, triggerables)

/-! ### Limits and permits -/

def countOf (s : Server) (w : String) (minute : ℤ) : ℤ :=
  match s.rateLimits.lookup w with
  | some (count, bucket) => if bucket = minute then count else 0
  | none => 0

def checkAndIncrement (w : String) (limit minute : ℤ) : Eff Server Error Unit :=
  onState fun s =>
    let count := countOf s w minute
    if limit ≤ count then
      (.error (.tooManyRequests
        ("Rate limit exceeded for public app executions in workspace '" ++ w ++
        "'. Limit: " ++ toString limit ++ " per minute per server.")),
        { s with rateLimits := (w, count, minute) :: s.rateLimits })
    else (.ok (), { s with rateLimits := (w, count + 1, minute) :: s.rateLimits })

def checkRateLimit : Eff Server Error Unit :=
  match policy.executionMode, req.authed, W.publicAppRateLimit req.w with
  | .anonymous, none, some limit =>
    if 0 < limit then checkAndIncrement req.w limit req.minute else pure ()
  | _, _, _ => pure ()

def permitText (user : U) (path w : String) : String := W.email user ++ path ++ w

def notPermitted (path component : String) : Error :=
  .notAuthorized ("Missing read permissions on the `" ++ path ++ "` app to execute `" ++
    component ++ "` runnable")

def checkPermit : Eff Server Error Unit :=
  match policy.executionMode, req.authed with
  | .publisher, some user => do
    let permit ← cached Server.permits (fun s c => { s with permits := c })
      (W.sha256 (permitText W user (toPath req.path) req.w))
      (.ok (W.sees user (toPath req.path) req.w))
    lift (if permit then .ok () else .error (notPermitted (toPath req.path) req.payload.component))
  | _, _ => pure ()

/-! ### The job -/

def getOnBehalfOf : Except Error (String × String) :=
  match policy.onBehalfOf, policy.onBehalfOfEmail with
  | none, _ => .error (.badRequest
      "on_behalf_of is missing in the app policy and is required for anonymous execution")
  | some _, none => .error (.badRequest
      "on_behalf_of_email is missing in the app policy and is required for anonymous execution")
  | some permissionedAs, some email => .ok (permissionedAs, email)

def getOnBehalfDetailsFromPolicyAndAuthed (authed : Option U) :
    Except Error (String × String × String) :=
  match policy.executionMode, authed with
  | .anonymous, authed => (getOnBehalfOf policy).map fun d =>
      ((authed.map W.username).getD "anonymous", d)
  | .publisher, some user => (getOnBehalfOf policy).map fun d => (W.username user, d)
  | .publisher, none => .error (.badRequest "publisher execution mode requires authentication")
  | .viewer, some user => .ok (W.username user, usernameToPermissionedAs (W.username user),
      W.email user)
  | .viewer, none => .error (.badRequest "Required to be authed in viewer mode")

def getPayloadTagFromPrefixedPath (path w : String) :
    Except Error (JobPayload × Option OnBehalfOf) :=
  match stripStart "script/" path, stripStart "flow/" path with
  | some script, _ => (W.scriptPathToPayload script w).map fun r => (.script script r.1, r.2)
  | none, some flow => (W.latestFlowVersion flow w).map fun version => (.flow flow version, none)
  | none, none =>
    .error (.badRequest ("path must start with script/ or flow/ (got " ++ path ++ ")"))

def jobPayload (p : ExecuteApp) (w : String) : Except Error (JobPayload × Option OnBehalfOf) :=
  match p.path, p.rawCode, p.id with
  | some path, none, none => getPayloadTagFromPrefixedPath W path w
  | none, some rawCode, none => .ok (.code rawCode, none)
  | none, some rawCode, some id =>
    .ok (.appScript id rawCode.path rawCode.language rawCode.cacheTtl, none)
  | _, _, _ => .error .unreachable

def makeJob (policy : Policy) (triggerables : PolicyTriggerableInputs) : Except Error Job := do
  let (username, permissionedAs, email) ← getOnBehalfDetailsFromPolicyAndAuthed W policy req.authed
  let args ← W.buildArgs policy triggerables req.payload.args req.authed req.w
  let (payload, onBehalfOf) ← jobPayload W req.payload req.w
  match onBehalfOf with
  | some o => return ⟨payload, args, username, o.email, o.permissionedAs⟩
  | none => return ⟨payload, args, username, email, permissionedAs⟩

def checkFields (p : ExecuteApp) : Except Error Unit :=
  match p.path.isSome, p.rawCode.isSome with
  | false, false => .error (.badRequest "path or raw_code is required")
  | true, true => .error (.badRequest "path and raw_code cannot be set at the same time")
  | _, _ => .ok ()

/-- `execute_component`: the checks of a request, and the job it gives. -/
def executeComponent : Eff Server Error Job := do
  lift (checkFields req.payload)
  let resolved ← resolvePolicy W req
  checkRateLimit W resolved.1 req
  checkPermit W resolved.1 req
  lift (makeJob W req resolved.1 resolved.2)

end

end Windmill.App.Execute
