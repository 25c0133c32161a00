import Windmill.Lib.Bytes

/-! # HTTP routes

The table `http_trigger`, the requests that change it (`windmill-trigger-http/src/handler.rs` and
the handlers of `windmill-trigger/src/handler.rs` that call it), and the router that
`refresh_routers` builds for a method (`windmill-trigger-http/src/lib.rs`). What the transaction of
a request does to the rows is a list of statements, each followed by a `nextval` on the version
(`handle_eq_statements`). -/

namespace Windmill.Trigger.Routes

inductive HttpMethod where
  | get
  | post
  | put
  | delete
  | patch
deriving DecidableEq

inductive TriggerMode where
  | enabled
  | disabled
  | suspended
deriving DecidableEq

inductive AuthenticationMethod where
  | none
  | windmill
  | apiKey
  | basicHttp
  | customScript
  | signature
deriving DecidableEq

/-- The constraint `proper_id` of the workspaces leaves out these characters. -/
structure WorkspaceId where
  text : List Char
  proper : ∀ c ∈ text, c ≠ '/' ∧ c ≠ ':' ∧ c ≠ '*'
deriving DecidableEq

structure Settings where
  cloudHosted : Bool
  routeWorkspaced : Bool
  name : Char → Bool
  name_proper : ∀ c, name c = true → c ≠ '/' ∧ c ≠ ':' ∧ c ≠ '*'

/-- A row of `http_trigger`. -/
structure Row (D : Type) where
  workspaceId : WorkspaceId
  path : String
  routePath : List Char
  routePathKey : List Char
  workspacedRoute : Bool
  httpMethod : HttpMethod
  mode : TriggerMode
  isStaticWebsite : Bool
  details : D

structure HttpConfigRequest where
  routePath : List Char
  authenticationMethod : AuthenticationMethod
  httpMethod : HttpMethod
  staticAsset : Bool
  isStaticWebsite : Bool
  workspacedRoute : Option Bool
  rawString : Option Bool

structure TriggerData (D : Type) where
  path : String
  mode : TriggerMode
  config : HttpConfigRequest
  details : D

/-- The user, with the rows that row-level security lets them write. -/
structure Authed (D : Type) where
  isAdmin : Bool
  mayWrite : Row D → Bool

inductive Error where
  | badRequest (text : String)
  | notAuthorized (text : String)
  | notFound (text : String)
  | sql (text : String)
  | atRoute (routePath : String) (error : Error)

variable {D : Type}

def Row.key (row : Row D) : WorkspaceId × String := (row.workspaceId, row.path)

/-! ### Keys and full paths -/

def replaceNames (name : Char → Bool) : List Char → ℕ → List Char
  | [], _ => []
  | _ :: rest, skip + 1 => replaceNames name rest skip
  | c :: rest, 0 =>
    if (c = ':' ∨ c = '*') ∧ rest.head?.any name then
      c :: 'k' :: 'e' :: 'y' :: replaceNames name rest (rest.takeWhile name).length
    else c :: replaceNames name rest 0

variable (cfg : Settings)

def generateRoutePathKey (routePath : List Char) : List Char := replaceNames cfg.name routePath 0

def segments : List Char → List (List Char)
  | [] => [[]]
  | c :: rest =>
    if c = '/' then [] :: segments rest
    else match segments rest with
      | [] => [[c]]
      | segment :: others => (c :: segment) :: others

def isName (segment : List Char) : Bool := segment ≠ [] && segment.all cfg.name

def isPart : List Char → Bool
  | ':' :: segment => isName cfg segment
  | segment => isName cfg segment

def isWildcard : List Char → Bool
  | '*' :: segment => isName cfg segment
  | _ => false

def validSegments (cfg : Settings) : List (List Char) → Bool
  | [] => false
  | [segment] => isWildcard cfg segment || isPart cfg segment
  | segment :: others => isPart cfg segment && validSegments cfg others

def validRoutePath (routePath : List Char) : Bool := validSegments cfg (segments routePath)

def Row.prefixed (row : Row D) : Bool :=
  row.workspacedRoute || cfg.cloudHosted || cfg.routeWorkspaced

def fullPath (row : Row D) : List Char :=
  if row.prefixed cfg then '/' :: (row.workspaceId.text ++ '/' :: row.routePath)
    else '/' :: row.routePath

/-! ### Checks -/

def validateAuthenticationMethod (config : HttpConfigRequest) : Except Error Unit :=
  if config.authenticationMethod = .customScript ∧ ¬config.rawString.getD false then
    .error (.badRequest "To use custom script authentication, please enable the raw body option.")
  else .ok ()

def validateEdit (config : HttpConfigRequest) : Except Error Unit :=
  if cfg.cloudHosted ∧ (config.isStaticWebsite ∨ config.staticAsset) then
    .error (.badRequest "Static website and static asset are not supported on cloud")
  else validateAuthenticationMethod config

def validateNew (config : HttpConfigRequest) : Except Error Unit :=
  if cfg.cloudHosted ∧ (config.isStaticWebsite ∨ config.staticAsset) then
    .error (.badRequest "Static website and static asset are not supported on cloud")
  else if ¬validRoutePath cfg config.routePath then .error (.badRequest "Invalid route path")
  else validateAuthenticationMethod config

def effectiveWorkspaced (config : HttpConfigRequest) : Bool :=
  config.workspacedRoute.getD false || cfg.routeWorkspaced

def trimMatches (text : List Char) : List Char :=
  ((text.dropWhile (· == '/')).reverse.dropWhile (· == '/')).reverse

def routePathKeyExists (rows : List (Row D)) (routePathKey : List Char) (config : HttpConfigRequest)
    (wId : WorkspaceId) (triggerPath : Option String) : Bool :=
  if cfg.cloudHosted then
    rows.any fun row => row.routePathKey = routePathKey ∧ row.workspaceId = wId ∧ row.httpMethod =
      config.httpMethod ∧ (triggerPath = none ∨ some row.path ≠ triggerPath)
  else
    let key := if effectiveWorkspaced cfg config then wId.text ++ '/' :: trimMatches routePathKey
      else routePathKey
    rows.any fun row =>
      (if row.workspacedRoute then row.workspaceId.text ++ '/' :: row.routePathKey
        else row.routePathKey) = key ∧
        row.httpMethod = config.httpMethod ∧ (triggerPath = none ∨ some row.path ≠ triggerPath)

def checkIfRouteExist (rows : List (Row D)) (config : HttpConfigRequest) (wId : WorkspaceId)
    (triggerPath : Option String) : Except Error Unit :=
  if routePathKeyExists cfg rows (generateRoutePathKey cfg config.routePath)
    config wId triggerPath then
    .error (.badRequest "A route already exists with this path")
  else .ok ()

def checkNoDuplicates (cfg : Settings) : List (TriggerData D) → List
    (List Char × HttpMethod × Option Bool) → Except Error Unit
  | [], _ => .ok ()
  | trigger :: triggers, seen =>
    let route :=
      (generateRoutePathKey cfg trigger.config.routePath, trigger.config.httpMethod,
        trigger.config.workspacedRoute)
    if route ∈ seen then
      .error (.badRequest ("Duplicate HTTP route detected: '" ++
        String.ofList trigger.config.routePath ++
        "'. Each HTTP route must have a unique 'route_path'."))
    else checkNoDuplicates cfg triggers (route :: seen)

variable (authed : Authed D)

def requireAdminForInstanceWideRoute (config : HttpConfigRequest) : Except Error Unit :=
  if ¬authed.isAdmin ∧ ¬effectiveWorkspaced cfg config then
    .error (.notAuthorized ("Non-admin users can only create workspaced HTTP triggers. " ++
      "Enable the workspace prefix for this route."))
  else .ok ()

/-! ### Statements -/

def newRow (wId : WorkspaceId) (trigger : TriggerData D) : Row D where
  workspaceId := wId
  path := trigger.path
  routePath := trigger.config.routePath
  routePathKey := generateRoutePathKey cfg trigger.config.routePath
  workspacedRoute := effectiveWorkspaced cfg trigger.config
  httpMethod := trigger.config.httpMethod
  mode := trigger.mode
  isStaticWebsite := trigger.config.isStaticWebsite
  details := trigger.details

/-- What an update sets; the route only for administrators and for routes with the workspace in
front. -/
def editRow (trigger : TriggerData D) (row : Row D) : Row D :=
  if authed.isAdmin || effectiveWorkspaced cfg trigger.config
    then newRow cfg row.workspaceId trigger
  else
    { row with
      path := trigger.path
      mode := trigger.mode
      httpMethod := trigger.config.httpMethod
      isStaticWebsite := trigger.config.isStaticWebsite
      details := trigger.details }

def switchRow (mode : TriggerMode) (edited : D → D) (row : Row D) : Row D :=
  { row with mode, details := edited row.details }

def updateRows (key : WorkspaceId × String) (edit : Row D → Row D) (rows : List (Row D)) :
    List (Row D) :=
  rows.map fun row => if row.key = key ∧ authed.mayWrite row then edit row else row

def deleteRows (key : WorkspaceId × String) (rows : List (Row D)) : List (Row D) :=
  rows.filter fun row => ¬(row.key = key ∧ authed.mayWrite row)

inductive Request (D : Type) where
  | create (authed : Authed D) (wId : WorkspaceId) (trigger : TriggerData D)
  | createMany (authed : Authed D) (wId : WorkspaceId) (triggers : List (TriggerData D))
  | update (authed : Authed D) (wId : WorkspaceId) (path : String) (trigger : TriggerData D)
  | delete (authed : Authed D) (wId : WorkspaceId) (path : String)
  /-- With what becomes of the columns `permissioned_as` and `edited_by`. -/
  | setMode (authed : Authed D) (wId : WorkspaceId) (path : String) (mode : TriggerMode)
    (edited : D → D)

def statements : Request D → List (List (Row D) → List (Row D))
  | .create _ wId trigger => [(· ++ [newRow cfg wId trigger])]
  | .createMany _ wId triggers => triggers.map fun trigger => (· ++ [newRow cfg wId trigger])
  | .update authed wId path trigger => [updateRows authed (wId, path) (editRow cfg authed trigger)]
  | .delete authed wId path => [deleteRows authed (wId, path)]
  | .setMode authed wId path mode edited => [updateRows authed (wId, path) (switchRow mode edited)]

/-! ### Requests -/

instance lawfulBEqKey : LawfulBEq (WorkspaceId × String) := inferInstance

/-- The primary key of the table, and row-level security. -/
def insertRow (row : Row D) (rows : List (Row D)) : Except Error (List (Row D)) :=
  if row.key ∈ rows.map Row.key then .error (.sql "duplicate key value violates unique constraint")
  else if ¬authed.mayWrite row then .error (.sql "new row violates row-level security policy")
  else .ok (rows ++ [row])

def insertNewTriggerIntoDb (wId : WorkspaceId) (rows : List (Row D))
    (trigger : TriggerData D) : Except Error (List (Row D)) := do
  requireAdminForInstanceWideRoute cfg authed trigger.config
  insertRow authed (newRow cfg wId trigger) rows

def wrapError {α : Type} (config : HttpConfigRequest) (x : Except Error α) : Except Error α :=
  x.mapError (.atRoute (String.ofList config.routePath))

def insertAll (cfg : Settings) (authed : Authed D) (wId : WorkspaceId) :
    List (TriggerData D) → List (Row D) → Except Error (List (Row D))
  | [], rows => .ok rows
  | trigger :: triggers, rows => do
    let rows ← wrapError trigger.config (insertNewTriggerIntoDb cfg authed wId rows trigger)
    insertAll cfg authed wId triggers rows

def checkAll (cfg : Settings) (rows : List (Row D)) (wId : WorkspaceId) :
    List (TriggerData D) → Except Error Unit
  | [] => .ok ()
  | trigger :: triggers => do
    wrapError trigger.config (validateNew cfg trigger.config)
    checkIfRouteExist cfg rows trigger.config wId none
    checkAll cfg rows wId triggers

def checkUpdate (rows : List (Row D)) (wId : WorkspaceId) (path : String)
    (config : HttpConfigRequest) : Except Error Unit :=
  if authed.isAdmin || effectiveWorkspaced cfg config then
    if config.routePath = [] then .error (.badRequest "route_path is required")
    else if ¬validRoutePath cfg config.routePath then .error (.badRequest "Invalid route path")
    else checkIfRouteExist cfg rows config wId (some path)
  else .ok ()

def handle (rows : List (Row D)) : Request D → Except Error (List (Row D))
  | .create authed wId trigger => do
    validateNew cfg trigger.config
    checkIfRouteExist cfg rows trigger.config wId none
    insertNewTriggerIntoDb cfg authed wId rows trigger
  | .createMany authed wId triggers => do
    checkAll cfg rows wId triggers
    checkNoDuplicates cfg triggers []
    insertAll cfg authed wId triggers rows
  | .update authed wId path trigger => do
    validateEdit cfg trigger.config
    checkUpdate cfg authed rows wId path trigger.config
    let rows' := updateRows authed (wId, path) (editRow cfg authed trigger) rows
    if (rows'.map Row.key).Nodup then .ok rows'
      else .error (.sql "duplicate key value violates unique constraint")
  | .delete authed wId path =>
    let rows' := deleteRows authed (wId, path) rows
    if rows'.length < rows.length then .ok rows'
      else .error (.notFound ("Trigger not found at path: " ++ path))
  | .setMode authed wId path mode edited =>
    if rows.any fun row => row.key = (wId, path) ∧ authed.mayWrite row then
      .ok (updateRows authed (wId, path) (switchRow mode edited) rows)
    else .error (.notFound ("Trigger not found at path: " ++ path))

def apply (rows : List (Row D)) (request : Request D) : List (Row D) :=
  match handle cfg rows request with
  | .ok rows' => rows'
  | .error _ => rows

/-! ### Routers -/

/-- The routes of a `matchit::Router`. The crate refuses a path if it is in conflict with one that
it has. -/
abbrev Router (D : Type) := List (List Char × Row D)

variable (conflict : List Char → List Char → Bool)

/-- `Router::insert`; a path that is refused is only logged. -/
def Router.insert (router : Router D) (path : List Char) (trigger : Row D) : Router D :=
  if router.any fun route => conflict path route.1 then router else router ++ [(path, trigger)]

def Row.active (row : Row D) : Bool := row.mode == .enabled || row.mode == .suspended

def subpath (trigger : Row D) : List Char := fullPath cfg trigger ++ "/*wm_subpath".toList

def insertTrigger (router : Router D) (trigger : Row D) : Router D :=
  let router := if trigger.isStaticWebsite then router.insert conflict (subpath cfg trigger) trigger
    else router
  router.insert conflict (fullPath cfg trigger) trigger

/-- The router that `refresh_routers` builds for a method from the rows that it reads. -/
def buildRouter (rows : List (Row D)) (method : HttpMethod) : Router D :=
  (rows.filter fun row => row.httpMethod == method && row.active).foldl
    (insertTrigger cfg conflict) []

end Windmill.Trigger.Routes
