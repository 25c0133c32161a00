import Windmill.Lib.Memo
import Windmill.Lib.Fuel

/-! # Values of variables and resources

`get_value_internal` (`windmill-store/src/variables.rs`) reads a variable and
`get_resource_value_interpolated_internal` (`windmill-store/src/resources.rs`) a resource, whose
references to variables, resources and the context of a job are resolved for the caller. Both look
into a cache that all callers share (`windmill-store/src/var_resource_cache.rs`). Nothing bounds the
resolution of a resource that refers to itself, so `transformJsonValue` has fuel. -/

namespace Windmill.Store.Values

open Lib.Memo Lib.Fuel

inductive Json where
  | null
  | bool (b : Bool)
  | number (text : String)
  | string (s : String)
  | array (items : List Json)
  | object (fields : List (String × Json))

inductive Error where
  | notFound (message : String)
  | notAuthorized (message : String)
  | internalErr (message : String)
deriving DecidableEq

/-! ### Tables -/

structure Variable where
  value : String
  account : Option ℤ
  isExpired : Option Bool
  isSecret : Bool
  extraPerms : String

structure Resource where
  value : Option Json
  extraPerms : String

structure Job where
  permissionedAsEmail : String
  createdBy : String
  parentJob : Option String
  permissionedAs : String
  runnablePath : Option String
  schedulePath : Option String
  flowStepId : Option String
  flowInnermostRootJob : Option String
  rootJob : Option String
  scheduledFor : String

/-- What reads depend on: the tables, the rows that row-level security shows to a user, and the
environment. -/
structure World (U : Type) where
  email : U → String
  debug : U → String
  superAdmin : String → Bool
  variableRow : String → String → Option Variable
  resourceRow : String → String → Option Resource
  folderPerms : String → String → Option String
  jobRow : String → String → Option Job
  jobPath : String → Option String
  seesVariable : U → String → String → Bool
  seesResource : U → String → String → Bool
  seesJob : U → String → Bool
  getSecretValue : String → String → String → Except Error String
  refreshToken : String → String → ℤ → Except Error String
  pgCreds : String → Except Error Json
  parseJson : String → Except String Json
  customEnvs : String → List (String × String)
  baseUrl : String
  workerGroup : String
  nowMillis : String

/-- `DbWithOptAuthed`: a user with its row-level security, or the server itself. -/
inductive DbWithOptAuthed (U : Type) where
  | userDb (authed : U)
  | db (auditAuthor : String)

variable {U : Type} (W : World U)

def DbWithOptAuthed.email : DbWithOptAuthed U → String
  | .userDb authed => W.email authed
  | .db auditAuthor => auditAuthor

def visible {α : Type} (sees : U → Bool) (row : Option α) : DbWithOptAuthed U → Option α
  | .userDb authed => if sees authed then row else none
  | .db _ => row

/-! ### Strings -/

def stripStart (start s : String) : Option String :=
  if start.toList.isPrefixOf s.toList then some (String.ofList (s.toList.drop start.toList.length))
    else none

def secondComponent (path : String) : String :=
  String.ofList (((path.toList.dropWhile (· != '/')).drop 1).takeWhile (· != '/'))

def joinUnderscore (path : String) : String := path.map fun c => if c = '/' then '_' else c

def notFoundIfNone {α : Type} (location kind name : String) : Option α → Except Error α
  | some a => .ok a
  | none => .error (.notFound (kind ++ " not found at name " ++ name ++ " (" ++ location ++ ")"))

/-! ### Refusals -/

def folderPermsText (w path : String) : String :=
  (W.folderPerms w (secondComponent path)).getD "null"

def explainVariablePermError (path w : String) : Error :=
  match W.variableRow w path with
  | none => .notFound ("Variable " ++ path ++ " not found")
  | some row =>
    if (stripStart "f/" path).isSome then
      .notAuthorized ("Variable exists but you don't have access to it:\nvariable perms: " ++
        row.extraPerms ++ "\nfolder perms: " ++ folderPermsText W w path)
    else .notAuthorized ("Variable exists but you don't have access to it:\nvariable perms: " ++
      row.extraPerms)

def explainResourcePermError (path w : String) (authed : U) : Error :=
  match W.resourceRow w path with
  | none => .notFound ("Resource " ++ path ++ " not found")
  | some row =>
    if (stripStart "f/" path).isSome then
      .notAuthorized ("Resource exists but you don't have access to it:\nresource perms: " ++
        row.extraPerms ++
        "\nfolder perms: " ++ folderPermsText W w path ++ "\nauthed as: " ++ W.debug authed)
    else .notAuthorized ("Resource exists but you don't have access to it:\nresource perms: " ++
      row.extraPerms ++ "\nauthed as: " ++ W.debug authed)

/-! ### Caches -/

structure Caches where
  variableCache : Cache String String
  resourceCache : Cache String Json

def Caches.empty : Caches := ⟨[], []⟩

def cacheKey (w path : String) : String := w ++ ":" ++ path

def variableCacheKey (email w path : String) : String := email ++ ":" ++ cacheKey w path

/-! ### Variables -/

def variableValue (c : DbWithOptAuthed U) (w path : String) : Except Error String :=
  match visible (W.seesVariable · w path) (W.variableRow w path) c with
  | none => .error (explainVariablePermError W path w)
  | some row =>
    if row.isSecret then
      match row.isExpired.getD false, row.account with
      | true, some account => W.refreshToken w path account
      | _, _ => if row.value = "" then .ok "" else W.getSecretValue w path row.value
    else .ok row.value

/-- `get_value_internal`. The cache is read under one key and written under another. -/
def getValueInternal (caches : Caches) (c : DbWithOptAuthed U) (w path : String)
    (allowCache : Bool) : Except Error String × Caches :=
  match if allowCache then caches.variableCache.lookup (cacheKey w path) else none with
  | some value => (.ok value, caches)
  | none => match variableValue W c w path with
    | .error e => (.error e, caches)
    | .ok value =>
      (.ok value, if allowCache then
        { caches with variableCache := (variableCacheKey (c.email W) w path, value) ::
          caches.variableCache } else caches)

/-! ### Resources -/

def getReservedVariables (w token jobId : String) (job : Job) (flowPath : Option String) :
    List (String × String) :=
  let trigger := if job.schedulePath.isSome then job.createdBy else "user"
  let statePath := match flowPath, job.runnablePath with
    | some flowPath, _ => flowPath ++ "/" ++ job.flowStepId.getD "nostep" ++ "_" ++ trigger
    | none, some path => (if path.toList.getLast? = some '/' then path ++ "state" else path) ++
        "/" ++ trigger
    | none, none => "u/" ++ job.createdBy ++ "/tmp_state"
  let schedule := joinUnderscore (job.schedulePath.getD "manual")
  let objectPath := match flowPath with
    | some flowPath => joinUnderscore flowPath ++ "/" ++ schedule ++ "/" ++
        job.flowStepId.getD "" ++ "/" ++ W.nowMillis ++ "_" ++ jobId
    | none => joinUnderscore (job.runnablePath.getD "") ++ "/" ++ schedule ++ "/" ++ W.nowMillis ++
        "_" ++ jobId
  [("WM_WORKSPACE", w), ("WM_TOKEN", token), ("WM_EMAIL", job.permissionedAsEmail),
    ("WM_USERNAME", job.createdBy), ("WM_BASE_URL", W.baseUrl), ("WM_JOB_ID", jobId),
    ("WM_SCHEDULED_FOR", job.scheduledFor), ("WM_JOB_PATH", job.runnablePath.getD ""),
    ("WM_FLOW_JOB_ID", job.parentJob.getD ""),
    ("WM_ROOT_FLOW_JOB_ID", job.flowInnermostRootJob.getD ""),
    ("WM_ROOT_JOB_ID", job.rootJob.getD ""), ("WM_FLOW_PATH", flowPath.getD ""),
    ("WM_SCHEDULE_PATH", job.schedulePath.getD ""), ("WM_PERMISSIONED_AS", job.permissionedAs),
    ("WM_STATE_PATH", statePath), ("WM_FLOW_STEP_ID", job.flowStepId.getD ""),
    ("WM_OBJECT_PATH", objectPath),
    ("WM_WORKER_GROUP", W.workerGroup), ("WM_RUNNABLE_ID", ""), ("WM_END_USER_EMAIL", "")] ++
    W.customEnvs w

/-- Who reads a resource: the caller, its job and its token. -/
structure Reader (U : Type) where
  caller : DbWithOptAuthed U
  jobId : Option String
  token : Option String

def contextValue (r : Reader U) (w jobId name whole : String) : Except Error Json := do
  let job ← notFoundIfNone "resources.rs:650" "Job" jobId
    (visible (W.seesJob · jobId) (W.jobRow jobId w) r.caller)
  let flowPath := job.parentJob.bind fun parent =>
    visible (W.seesJob · parent) (W.jobPath parent) r.caller
  let reserved := getReservedVariables W w (r.token.getD "no_token_available") jobId job flowPath
  return .string ((reserved.lookup name).getD whole)

inductive Reference where
  | var (path : String)
  | jsonVar (path : String)
  | res (path : String)
  | context (jobId name : String)
  | plain

def reference (jobId : Option String) (y : String) : Reference :=
  match stripStart "$var:" y, stripStart "$jsonvar:" y, stripStart "$res:" y, stripStart "$" y,
    jobId with
  | some path, _, _, _, _ => .var path
  | _, some path, _, _, _ => .jsonVar path
  | _, _, some path, _, _ => .res path
  | _, _, _, some name, some jobId => .context jobId name
  | _, _, _, _, _ => .plain

def transformJsonValue (r : Reader U) (w : String) : ℕ → UInt8 → Json → Option (Except Error Json)
  | 0, _, _ => none
  | fuel + 1, depth, .string y => match reference r.jobId y with
    | .var path => some ((variableValue W r.caller w path).map .string)
    | .jsonVar path => some do
      let text ← variableValue W r.caller w path
      match W.parseJson text with
      | .ok value => return value
      | .error e => throw (.internalErr ("Failed to parse $jsonvar value as JSON: " ++ e))
    | .res path =>
      if '/' ∉ path.toList then some (.error (.internalErr ("Invalid resource path: " ++ path)))
      else match visible (W.seesResource · w path) (W.resourceRow w path) r.caller with
        | none => some (notFoundIfNone "resources.rs:618" "Resource" path none)
        | some row => match row.value with
          | some value => transformJsonValue r w fuel (depth + 1) value
          | none => some (.ok .null)
    | .context jobId name => some (contextValue W r w jobId name y)
    | .plain => some (.ok (.string y))
  | fuel + 1, depth, .array items =>
    if depth ≤ 2 ∧ items.length ≤ 1000 then
      andThen (traverse (transformJsonValue r w fuel (depth + 1)) items) fun items =>
        some (.ok (.array items))
    else some (.ok (.array items))
  | fuel + 1, depth, .object fields =>
    andThen (traverse (fun field => andThen (transformJsonValue r w fuel (depth + 1) field.2)
      fun value =>
      some (.ok (field.1, value))) fields) fun fields => some (.ok (.object fields))
  | _ + 1, _, v => some (.ok v)

def followed (r : Reader U) (w y : String) : Option Json :=
  match reference r.jobId y with
  | .res path =>
    if '/' ∈ path.toList then (visible (W.seesResource · w path) (W.resourceRow w path)
      r.caller).bind Resource.value else none
  | _ => none

def readString (r : Reader U) (w y : String) : Except Error Json :=
  match reference r.jobId y with
  | .var path => (variableValue W r.caller w path).map .string
  | .jsonVar path => do
    let text ← variableValue W r.caller w path
    (W.parseJson text).mapError fun e =>
      .internalErr ("Failed to parse $jsonvar value as JSON: " ++ e)
  | .res path =>
    if '/' ∉ path.toList then .error (.internalErr ("Invalid resource path: " ++ path))
    else (notFoundIfNone "resources.rs:618" "Resource" path
      (visible (W.seesResource · w path) (W.resourceRow w path) r.caller)).map fun _ => .null
  | .context jobId name => contextValue W r w jobId name y
  | .plain => .ok (.string y)

lemma transformJsonValue_string {W : World U} {r : Reader U} {w : String} {n : ℕ} {depth : UInt8}
    (y : String) : transformJsonValue W r w (n + 1) depth (.string y) = match followed W r w y with
    | some value => transformJsonValue W r w n (depth + 1) value
    | none => some (readString W r w y) := by
  rw [transformJsonValue, followed, readString]
  cases reference r.jobId y with
  | res path =>
    dsimp only
    by_cases hpath : '/' ∈ path.toList
    · rw [if_neg (not_not.mpr hpath), if_pos hpath, if_neg (not_not.mpr hpath)]
      cases visible (W.seesResource · w path) (W.resourceRow w path) r.caller with
      | none => rfl
      | some row => cases hval : row.value <;> simp [hval, notFoundIfNone, Except.map]
    · rw [if_pos hpath, if_neg hpath, if_pos hpath]
  | jsonVar path =>
    dsimp only
    congr 2
    funext text
    cases W.parseJson text <;> rfl
  | _ => rfl

def resourceValue (fuel : ℕ) (r : Reader U) (w path : String) :
    Option (Except Error (Option Json)) :=
  match visible (W.seesResource · w path) (W.resourceRow w path) r.caller, r.caller with
  | none, .userDb authed => some (.error (explainResourcePermError W path w authed))
  | none, .db _ => some (notFoundIfNone "resources.rs:554" "Resource" path none)
  | some row, _ => match row.value with
    | some value => andThen (transformJsonValue W r w fuel 0 value) fun value =>
        some (.ok (some value))
    | none => some (.ok none)

def customInstanceDb (c : DbWithOptAuthed U) (dbname : String) : Except Error (Option Json) :=
  if W.superAdmin (c.email W) then (W.pgCreds dbname).map some
  else .error (.notAuthorized "This endpoint requires the caller to be a super admin")

def getResourceValueInterpolatedInternal (fuel : ℕ) (caches : Caches) (r : Reader U)
    (w path : String) (allowCache : Bool) : Option (Except Error (Option Json) × Caches) :=
  match stripStart "CUSTOM_INSTANCE_DB/" path with
  | some dbname => some (customInstanceDb W r.caller dbname, caches)
  | none =>
    match if allowCache then caches.resourceCache.lookup (cacheKey w path) else none with
    | some value => some (.ok (some value), caches)
    | none => (resourceValue W fuel r w path).map fun result => match result with
      | .ok (some value) =>
        (.ok (some value), if allowCache then
          { caches with resourceCache := (cacheKey w path, value) :: caches.resourceCache }
            else caches)
      | other => (other, caches)

end Windmill.Store.Values
