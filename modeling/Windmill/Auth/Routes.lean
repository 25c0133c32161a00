import Windmill.Auth.Scopes
import Windmill.Lib.Except

/-! # Scopes and routes

`check_route_access` (`windmill-api-auth/src/scopes.rs`) decides from the scopes of a token whether
a request may go on. A scope with an unknown domain or action ends the search with an error, so that
the scopes behind it do not count: `route_access_iff` says when the order of the scopes, and a
further one, make no difference. -/

namespace Windmill.Auth.Routes

open Scopes List

/-! ### Domains and actions -/

inductive ScopeDomain where
  | jobs | scripts | flows | apps | variables | resources | schedules | folders | users | groups
  | workspaces | httpTriggers | websocketTriggers | kafkaTriggers | natsTriggers | mqttTriggers
  | sqsTriggers | gcpTriggers | postgresTriggers | emailTriggers | nativeTriggers | audit | settings
  | workers | serviceLogs | configs | oAuth | ai | indexer | teams | gitSync | capture | drafts
  | favorites | inputs | jobHelpers | concurrencyGroups | oidc
  | openapi | acls | rawApps | agentWorkers | mcp
  deriving DecidableEq, Repr

def ScopeDomain.asStr : ScopeDomain → String
  | .jobs => "jobs"
  | .scripts => "scripts"
  | .flows => "flows"
  | .apps => "apps"
  | .variables => "variables"
  | .resources => "resources"
  | .schedules => "schedules"
  | .folders => "folders"
  | .users => "users"
  | .groups => "groups"
  | .workspaces => "workspaces"
  | .httpTriggers => "http_triggers"
  | .websocketTriggers => "websocket_triggers"
  | .kafkaTriggers => "kafka_triggers"
  | .natsTriggers => "nats_triggers"
  | .mqttTriggers => "mqtt_triggers"
  | .sqsTriggers => "sqs_triggers"
  | .gcpTriggers => "gcp_triggers"
  | .postgresTriggers => "postgres_triggers"
  | .emailTriggers => "email_triggers"
  | .nativeTriggers => "native_triggers"
  | .audit => "audit"
  | .settings => "settings"
  | .workers => "workers"
  | .serviceLogs => "service_logs"
  | .configs => "configs"
  | .oAuth => "oauth"
  | .ai => "ai"
  | .indexer => "indexer"
  | .teams => "teams"
  | .gitSync => "git_sync"
  | .capture => "capture"
  | .drafts => "drafts"
  | .favorites => "favorites"
  | .inputs => "inputs"
  | .jobHelpers => "job_helpers"
  | .concurrencyGroups => "concurrency_groups"
  | .oidc => "oidc"
  | .openapi => "openapi"
  | .acls => "acls"
  | .rawApps => "raw_apps"
  | .agentWorkers => "agent_workers"
  | .mcp => "mcp"

def domainNames : List (String × ScopeDomain) :=
  [("jobs", .jobs), ("jobs_u", .jobs), ("scripts", .scripts), ("flows", .flows), ("apps", .apps),
    ("apps_u", .apps), ("variables", .variables), ("resources", .resources),
    ("schedules", .schedules),
    ("folders", .folders), ("users", .users), ("groups", .groups), ("workspaces", .workspaces),
    ("http_triggers", .httpTriggers), ("websocket_triggers", .websocketTriggers),
    ("kafka_triggers", .kafkaTriggers), ("nats_triggers", .natsTriggers),
    ("mqtt_triggers", .mqttTriggers),
    ("sqs_triggers", .sqsTriggers), ("gcp_triggers", .gcpTriggers),
    ("postgres_triggers", .postgresTriggers),
    ("email_triggers", .emailTriggers), ("audit", .audit), ("settings", .settings),
    ("workers", .workers),
    ("service_logs", .serviceLogs), ("configs", .configs), ("oauth", .oAuth), ("ai", .ai),
    ("indexer", .indexer),
    ("srch", .indexer), ("teams", .teams), ("native_triggers", .nativeTriggers),
    ("git_sync", .gitSync),
    ("github_app", .gitSync), ("capture", .capture), ("drafts", .drafts), ("favorites", .favorites),
    ("inputs", .inputs), ("job_helpers", .jobHelpers), ("concurrency_groups", .concurrencyGroups),
    ("oidc", .oidc),
    ("openapi", .openapi), ("acls", .acls), ("raw_apps", .rawApps),
    ("agent_workers", .agentWorkers),
    ("mcp", .mcp)]

def ScopeDomain.fromStr (s : List Char) : Option ScopeDomain := domainNames.lookup (String.ofList s)

inductive ScopeAction where
  | read
  | write
  | run
  deriving DecidableEq, Repr

def ScopeAction.asStr : ScopeAction → String
  | .read => "read"
  | .write => "write"
  | .run => "run"

def ScopeAction.fromStr (s : List Char) : Option ScopeAction :=
  if s = "read".toList then some .read
  else if s = "write".toList then some .write
  else if s = "delete".toList then some .write
  else if s = "run".toList then some .run
  else none

def ScopeAction.includes (action other : ScopeAction) : Bool :=
  other = .read && action ≠ .read || action = other

/-! ### Routes -/

def scriptJobs : List String :=
  ["jobs/run/p", "jobs/run/h", "jobs/run_wait_result/p", "jobs/run_wait_result/h",
    "jobs/run/preview_bundle", "jobs/run/preview", "jobs/run_and_stream/p", "jobs/run_and_stream/h"]

def flowJobs : List String :=
  ["jobs/run/f", "jobs/run_wait_result/f", "jobs/run/preview_flow", "jobs/restart/f",
    "jobs/flow/resume", "jobs/run_and_stream/f"]

def runPathActions : List String :=
  ["jobs/resume/", "jobs/run/batch_rerun_jobs", "jobs/run/workflow_as_code",
    "jobs/run/dependencies",
    "jobs/run/flow_dependencies", "apps_u/execute_component"] ++ scriptJobs ++ flowJobs

def writeMethods : List (List Char) :=
  ["POST".toList, "PUT".toList, "PATCH".toList, "DELETE".toList]

def mapHttpMethodToAction (method routePath : List Char) : ScopeAction :=
  if runPathActions.any fun runPath => decide (runPath.toList <:+: routePath) then .run
  else if method.map Char.toUpper ∈ writeMethods then .write
  else .read

def determineKindFromRoute (routePath : List Char) : Option String :=
  if "jobs".toList.isPrefixOf routePath then
    if flowJobs.any fun path => path.toList.isPrefixOf routePath then some "flows"
    else if scriptJobs.any fun path => path.toList.isPrefixOf routePath then some "scripts"
    else none
  else none

structure Required where
  domain : ScopeDomain
  action : ScopeAction
  kind : Option String
  suffix : List Char
  deriving DecidableEq

def joinSlash (parts : List (List Char)) : List Char := List.intercalate ['/'] parts

def extractDomainFromRoute (routePath : List Char) :
    Except Error (ScopeDomain × Option String × List Char) :=
  let parts := routePath.splitOn '/'
  let found :=
    if 5 ≤ parts.length ∧ parts[1]? = some "api".toList ∧ parts[2]? = some "w".toList then
      let suffix := joinSlash (parts.drop 4)
      (ScopeDomain.fromStr (parts.getD 4 [])).map fun domain =>
        (domain, determineKindFromRoute suffix, suffix)
    else if 3 ≤ parts.length ∧ parts[1]? = some "api".toList then
      (ScopeDomain.fromStr (parts.getD 2 [])).map fun domain =>
        (domain, none, joinSlash (parts.drop 2))
    else none
  match found with
  | some found => .ok found
  | none =>
    .error (.badRequest ("Could not extract domain from route: " ++ String.ofList routePath))

def requiredFor (routePath method : List Char) : Except Error Required :=
  (extractDomainFromRoute routePath).map fun (domain, kind, suffix) =>
    ⟨domain, mapHttpMethodToAction method routePath, kind, suffix⟩

def runWhitelistedGetPaths : List String :=
  ["jobs_u/get_flow/", "jobs_u/get_root_job_id/", "jobs_u/get/", "jobs_u/get_logs/",
    "jobs_u/get_flow_all_logs/",
    "jobs_u/get_args/", "jobs_u/get_flow_debug_info/", "jobs_u/completed/get/",
    "jobs_u/completed/get_result/",
    "jobs_u/completed/get_result_maybe/", "jobs_u/getupdate/", "jobs_u/getupdate_sse/",
    "jobs_u/get_log_file/",
    "jobs/result_by_id/", "jobs/resume_urls/", "jobs/flow/user_states/", "jobs/job_signature/",
    "jobs/completed/get/",
    "jobs/completed/get_result/", "jobs/completed/get_result_maybe/"]

/-! ### Access -/

def Required.whitelisted (required : Required) : Bool :=
  required.domain = .jobs && required.action = .read &&
    runWhitelistedGetPaths.any fun path => path.toList.isPrefixOf required.suffix

def kindAllows (scope : ScopeDefinition) (required : Required) : Bool :=
  if required.domain = .jobs ∧ required.action = .run then
    match scope.kind, required.kind with
    | some scopeKind, some kind => scopeKind = kind.toList
    | none, _ => true
    | some _, none => false
  else true

def scopeGrantsAccess (scope : ScopeDefinition) (required : Required) : Except Error Bool :=
  match ScopeDomain.fromStr scope.domain with
  | none => .error (.badRequest ("Invalid scope domain: " ++ String.ofList scope.domain))
  | some scopeDomain =>
    if scopeDomain ≠ required.domain then .ok false
    else
      match ScopeAction.fromStr scope.action with
      | none => .error (.badRequest ("Invalid scope action: " ++ String.ofList scope.action))
      | some scopeAction =>
        if !scopeAction.includes required.action && !required.whitelisted then .ok false
        else .ok (kindAllows scope required)

def isTagFilter (scope : List Char) : Bool := "if_jobs:filter_tags:".toList.isPrefixOf scope

def isMcpScope (scope : List Char) : Bool := "mcp:".toList.isPrefixOf scope

def Required.denied (required : Required) : Error :=
  .notAuthorized ("Access denied. Required scope: " ++ required.domain.asStr ++ ":" ++
    required.action.asStr ++ required.kind.elim "" (":" ++ ·))

def checkScopes (required : Required) : List (List Char) → Bool → Except Error Unit
  | [], isScopedToken => if isScopedToken then .error required.denied else .ok ()
  | scope :: rest, isScopedToken =>
    if isTagFilter scope then checkScopes required rest isScopedToken
    else
      match ScopeDefinition.fromScopeString scope with
      | .error _ => checkScopes required rest true
      | .ok definition =>
        match scopeGrantsAccess definition required with
        | .error error => .error error
        | .ok true => .ok ()
        | .ok false => checkScopes required rest true

variable (tokenScopes : List (List Char))

def checkMcp : Except Error Unit :=
  if !tokenScopes.any fun scope => !isTagFilter scope then .ok ()
  else if tokenScopes.any isMcpScope then .ok ()
  else .error (.notAuthorized "Access denied. Required scope: mcp:*")

def checkRouteAccess (routePath method : List Char) : Except Error Unit :=
  match requiredFor routePath method with
  | .error error => .error error
  | .ok required => if required.domain = .mcp then checkMcp tokenScopes
      else checkScopes required tokenScopes false

/-! ### The set of scopes -/

def Granted (routePath method : List Char) : Prop :=
  checkRouteAccess tokenScopes routePath method = .ok ()

def isRead (scope : List Char) : Bool :=
  match ScopeDefinition.fromScopeString scope with
  | .ok definition => definition.action = "read".toList
  | .error _ => false

/-- Only the set of scopes counts, more of them grant more, and those for reading only that. -/
structure SetLike (tokenScopes : List (List Char)) (added routePath method : List Char) : Prop where
  perm : ∀ scopes, scopes.Perm tokenScopes →
    (Granted scopes routePath method ↔ Granted tokenScopes routePath method)
  mono : Granted tokenScopes routePath method → ∀ before behind, tokenScopes = before ++ behind →
    Granted (before ++ added :: behind) routePath method
  read : (∀ scope ∈ tokenScopes, isRead scope = true) → method ∈ writeMethods →
    (∀ required, requiredFor routePath method = .ok required → required.domain ≠ .mcp) →
    ¬Granted tokenScopes routePath method

def grants (required : Required) (scope : List Char) : Bool :=
  !isTagFilter scope && match ScopeDefinition.fromScopeString scope with
    | .ok definition => match scopeGrantsAccess definition required with
      | .ok granted => granted
      | .error _ => false
    | .error _ => false

/-- The scope has an unknown domain, or the domain that is needed and an unknown action. -/
def malformed (required : Required) (scope : List Char) : Bool :=
  !isTagFilter scope && match ScopeDefinition.fromScopeString scope with
    | .ok definition => match ScopeDomain.fromStr definition.domain with
      | none => true
      | some domain => domain = required.domain && (ScopeAction.fromStr definition.action).isNone
    | .error _ => false

/-- Where a scope grants the access, no scope is malformed. -/
def WellFormed (added routePath method : List Char) : Prop :=
  ∀ required, requiredFor routePath method = .ok required → required.domain ≠ .mcp →
    (∃ scope ∈ tokenScopes, grants required scope = true) → ∀ scope ∈ added :: tokenScopes,
    malformed required scope = false

section

variable {required : Required} {scope added routePath method : List Char}
  {scopes rest tokenScopes : List (List Char)}
  {isScopedToken : Bool} {error : Error} {definition : ScopeDefinition}

lemma scopeGrantsAccess_eq_error (h : scopeGrantsAccess definition required = .error error) :
    ScopeDomain.fromStr definition.domain = none ∨
    ScopeDomain.fromStr definition.domain = some required.domain ∧
    ScopeAction.fromStr definition.action = none := by
  unfold scopeGrantsAccess at h
  split at h
  · case _ hnone => exact .inl hnone
  · case _ scopeDomain hdom =>
    split_ifs at h with hne
    split at h
    · case _ hact =>
      rw [not_not] at hne
      subst hne
      exact .inr ⟨hdom, hact⟩
    · split_ifs at h

lemma checkScopes_of_grants (h : grants required scope = true) :
    checkScopes required (scope :: rest) isScopedToken = .ok () := by
  obtain ⟨htag, h⟩ := (Bool.and_eq_true _ _).mp h
  rw [Bool.not_eq_true'] at htag
  rw [checkScopes, htag, if_neg Bool.false_ne_true]
  split at h
  · case _ definition hscope =>
    split at h
    · case _ granted hgrant =>
      subst h
      rw [hscope]
      dsimp only
      rw [hgrant]
    · cases h
  · cases h

lemma checkScopes_of_malformed (h : malformed required scope = true) :
    checkScopes required (scope :: rest) isScopedToken ≠ .ok () := by
  obtain ⟨htag, h⟩ := (Bool.and_eq_true _ _).mp h
  rw [Bool.not_eq_true'] at htag
  rw [checkScopes, htag]
  split at h
  · case _ definition hscope =>
    have herr : ∃ error, scopeGrantsAccess definition required = .error error := by
      unfold scopeGrantsAccess
      split at h
      · exact ⟨_, rfl⟩
      · obtain ⟨hreq, hact⟩ := (Bool.and_eq_true _ _).mp h
        rw [decide_eq_true_eq] at hreq
        rw [Option.isNone_iff_eq_none] at hact
        rw [hact, if_neg (not_not.mpr hreq)]
        exact ⟨_, rfl⟩
    obtain ⟨error, herr⟩ := herr
    rw [hscope]
    dsimp only
    rw [herr]
    exact nofun
  · cases h

lemma checkScopes_cons (hgrants : grants required scope = false)
    (hmal : malformed required scope = false) : checkScopes required (scope :: rest) isScopedToken =
      checkScopes required rest (isScopedToken || !isTagFilter scope) := by
  cases htag : isTagFilter scope with
  | true => rw [checkScopes, htag, if_pos rfl, Bool.not_true, Bool.or_false]
  | false =>
    rw [checkScopes, htag, Bool.not_false, Bool.or_true]
    cases hscope : ScopeDefinition.fromScopeString scope with
    | error error => rfl
    | ok definition =>
      dsimp only
      cases hgrant : scopeGrantsAccess definition required with
      | error error =>
        unfold malformed at hmal
        rw [htag, hscope] at hmal
        dsimp only at hmal
        rcases scopeGrantsAccess_eq_error hgrant with hdom | ⟨hdom, hact⟩
        · simp [hdom] at hmal
        · rw [hdom, hact] at hmal
          simp at hmal
      | ok granted =>
        cases granted with
        | false => rfl
        | true =>
          unfold grants at hgrants
          rw [htag, hscope] at hgrants
          dsimp only at hgrants
          simp [hgrant] at hgrants

lemma checkScopes_of_wellFormed : ∀ {scopes isScopedToken},
    (∀ scope ∈ scopes, malformed required scope = false) →
    (∃ scope ∈ scopes, grants required scope = true) →
    checkScopes required scopes isScopedToken = .ok ()
  | [], _, _, h => by
    obtain ⟨scope, hscope, -⟩ := h
    cases hscope
  | scope :: rest, isScopedToken, hmal, h => by
    cases hgrants : grants required scope with
    | true => exact checkScopes_of_grants hgrants
    | false =>
      rw [checkScopes_cons hgrants (hmal scope mem_cons_self)]
      refine checkScopes_of_wellFormed (fun s hs => hmal s (mem_cons_of_mem scope hs)) ?_
      obtain ⟨s, hs, hs'⟩ := h
      rcases mem_cons.mp hs with rfl | hs
      · simp [hgrants] at hs'
      · exact ⟨s, hs, hs'⟩

lemma checkScopes_of_no_grants : ∀ {scopes isScopedToken},
    (∀ scope ∈ scopes, grants required scope = false) →
    isScopedToken = true ∨ (∃ scope ∈ scopes, isTagFilter scope = false) →
    checkScopes required scopes isScopedToken ≠ .ok ()
  | [], isScopedToken, _, h => by
    rcases h with rfl | ⟨scope, hscope, -⟩
    · exact nofun
    · cases hscope
  | scope :: rest, isScopedToken, hgrants, h => by
    cases hmal : malformed required scope with
    | true => exact checkScopes_of_malformed hmal
    | false =>
      rw [checkScopes_cons (hgrants scope mem_cons_self) hmal]
      refine checkScopes_of_no_grants (fun s hs => hgrants s (mem_cons_of_mem scope hs)) ?_
      rcases h with rfl | ⟨s, hs, hs'⟩
      · exact .inl rfl
      · rcases mem_cons.mp hs with rfl | hs
        · rw [hs', Bool.not_false, Bool.or_true]
          exact .inl rfl
        · exact .inr ⟨s, hs, hs'⟩

lemma grants_of_isRead (h : isRead scope = true) (hact : required.action ≠ .read) :
    grants required scope = false := by
  have hwhite : required.whitelisted = false := by
    unfold Required.whitelisted
    rw [decide_eq_false hact, Bool.and_false, Bool.false_and]
  unfold isRead at h
  unfold grants
  split at h
  · case _ definition hscope =>
    have hread : ScopeAction.fromStr definition.action = some .read := by
      rw [of_decide_eq_true h]
      rfl
    have hincludes : ScopeAction.includes .read required.action = false := by
      cases hreq : required.action with
      | read => exact absurd hreq hact
      | write | run => rfl
    unfold scopeGrantsAccess
    split
    · case _ granted hgrant =>
      split at hgrant
      · cases hgrant
      split_ifs at hgrant
      · cases hgrant
        exact Bool.and_false _
      · rw [hread] at hgrant
        dsimp only at hgrant
        rw [hincludes, hwhite] at hgrant
        cases hgrant
        exact Bool.and_false _
    · exact Bool.and_false _
  · cases h

lemma requiredFor_action (hreq : requiredFor routePath method = .ok required)
    (hmeth : method ∈ writeMethods) : required.action ≠ .read := by
  have hupper : ∀ m ∈ writeMethods, m.map Char.toUpper ∈ writeMethods := by decide
  obtain ⟨found, -, rfl⟩ := Lib.Except.map_eq_ok.mp hreq
  dsimp only
  unfold mapHttpMethodToAction
  split_ifs with hrun hwr
  · decide
  · decide
  · exact absurd (hupper method hmeth) hwr

lemma granted_iff_of_error (h : requiredFor routePath method = .error error) :
    ¬Granted scopes routePath method := by
  unfold Granted checkRouteAccess
  rw [h]
  exact nofun

lemma granted_iff_checkScopes (h : requiredFor routePath method = .ok required)
    (hdom : required.domain ≠ .mcp) :
    Granted scopes routePath method ↔ checkScopes required scopes false = .ok () := by
  unfold Granted checkRouteAccess
  rw [h]
  dsimp only
  rw [if_neg hdom]

lemma granted_iff_mcp (h : requiredFor routePath method = .ok required)
    (hdom : required.domain = .mcp) (hscoped : ∃ scope ∈ scopes, isTagFilter scope = false) :
    Granted scopes routePath method ↔ ∃ scope ∈ scopes, isMcpScope scope = true := by
  have hany : (scopes.any fun scope => !isTagFilter scope) = true := by
    obtain ⟨scope, hscope, htag⟩ := hscoped
    refine any_eq_true.mpr ⟨scope, hscope, ?_⟩
    rw [htag]
    rfl
  unfold Granted checkRouteAccess
  rw [h]
  dsimp only
  unfold checkMcp
  rw [hany, Bool.not_true, if_neg Bool.false_ne_true]
  split_ifs with hmcp
  · exact iff_of_true rfl (any_eq_true.mp hmcp)
  · exact iff_of_false nofun fun h => hmcp (any_eq_true.mpr h)

lemma exists_mem_insert {P : List Char → Prop} {before behind}
    (h : ∃ scope ∈ before ++ behind, P scope) : ∃ scope ∈ before ++ added :: behind, P scope := by
  obtain ⟨scope, hscope, hP⟩ := h
  exact ⟨scope, ((sublist_cons_self added behind).append_left before).subset hscope, hP⟩

lemma SetLike.wellFormed (h : SetLike tokenScopes added routePath method) :
    WellFormed tokenScopes added routePath method := by
  rintro required hreq hdom ⟨granting, hmem, hgrants⟩
  have hno : ∀ scope ∈ tokenScopes, malformed required scope = false := by
    intro scope hscope
    by_contra hmal
    rw [Bool.not_eq_false] at hmal
    have hfirst := (h.perm _ (perm_cons_erase hmem).symm).mp
      ((granted_iff_checkScopes hreq hdom).mpr (checkScopes_of_grants hgrants))
    have hlast := (h.perm _ (perm_cons_erase hscope).symm).mpr hfirst
    exact checkScopes_of_malformed hmal ((granted_iff_checkScopes hreq hdom).mp hlast)
  have hgrant : Granted tokenScopes routePath method :=
    (granted_iff_checkScopes hreq hdom).mpr
      (checkScopes_of_wellFormed hno ⟨granting, hmem, hgrants⟩)
  intro scope hscope
  rcases mem_cons.mp hscope with rfl | hscope
  · by_contra hmal
    rw [Bool.not_eq_false] at hmal
    exact checkScopes_of_malformed hmal
      ((granted_iff_checkScopes hreq hdom).mp (h.mono hgrant [] tokenScopes rfl))
  · exact hno scope hscope

/-- **Only the set of scopes counts** if and only if no malformed scope stands beside one that
grants the access. -/
theorem route_access_iff (hscoped : ∃ scope ∈ tokenScopes, isTagFilter scope = false) :
    SetLike tokenScopes added routePath method ↔ WellFormed tokenScopes added routePath method := by
  refine ⟨SetLike.wellFormed, fun h => ?_⟩
  cases hreq : requiredFor routePath method with
  | error error =>
    exact ⟨fun scopes _ => iff_of_false (granted_iff_of_error hreq) (granted_iff_of_error hreq),
      fun hgrant => absurd hgrant (granted_iff_of_error hreq), fun _ _ _ =>
      granted_iff_of_error hreq⟩
  | ok required =>
    by_cases hdom : required.domain = .mcp
    · refine ⟨fun scopes hperm => ?_, fun hgrant before behind heq => ?_, fun _ _ hnot =>
        absurd hdom (hnot required hreq)⟩
      · have hscoped' : ∃ scope ∈ scopes, isTagFilter scope = false := by
          simpa only [hperm.mem_iff] using hscoped
        rw [granted_iff_mcp hreq hdom hscoped', granted_iff_mcp hreq hdom hscoped]
        simp only [hperm.mem_iff]
      · have hmcp := (granted_iff_mcp hreq hdom hscoped).mp hgrant
        rw [heq] at hmcp hscoped
        exact (granted_iff_mcp hreq hdom (exists_mem_insert hscoped)).mpr (exists_mem_insert hmcp)
    have hiff : ∀ scopes : List (List Char), (∃ scope ∈ scopes, isTagFilter scope = false) →
        ((∃ scope ∈ scopes, grants required scope = true) → ∀ scope ∈ scopes,
          malformed required scope = false) →
        (Granted scopes routePath method ↔ ∃ scope ∈ scopes, grants required scope = true) := by
      intro scopes hscoped hno
      rw [granted_iff_checkScopes hreq hdom]
      constructor
      · intro hok
        by_contra hnone
        refine checkScopes_of_no_grants (fun scope hscope => ?_) (.inr hscoped) hok
        exact Bool.eq_false_iff.mpr fun hgrants => hnone ⟨scope, hscope, hgrants⟩
      · intro hgrants
        exact checkScopes_of_wellFormed (hno hgrants) hgrants
    have hno := h required hreq hdom
    have htok := hiff tokenScopes hscoped fun hgrants scope hscope =>
      hno hgrants scope (mem_cons_of_mem _ hscope)
    refine ⟨fun scopes hperm => ?_, fun hgrant before behind heq => ?_,
      fun hread hmeth _ hgrant => ?_⟩
    · rw [htok, hiff scopes (by simpa only [hperm.mem_iff] using hscoped)]
      · simp only [hperm.mem_iff]
      · simp only [hperm.mem_iff]
        exact fun hgrants scope hscope => hno hgrants scope (mem_cons_of_mem _ hscope)
    · have hgrants := htok.mp hgrant
      have hwell := hno hgrants
      rw [heq] at hgrants hscoped hwell
      refine (hiff _ (exists_mem_insert hscoped) fun _ scope hscope => hwell scope ?_).mpr
        (exists_mem_insert hgrants)
      rw [mem_append, mem_cons] at hscope
      rw [mem_cons, mem_append]
      tauto
    · obtain ⟨scope, hscope, hgrants⟩ := htok.mp hgrant
      simp [grants_of_isRead (hread scope hscope) (requiredFor_action hreq hmeth)] at hgrants

end

/-! ### Tokens -/

def listJobs : List Char := "/api/w/acme/jobs/list".toList

def readJobs : List Char := "jobs:read".toList

def writeScripts : List Char := "scripts:write:f/etl/*".toList

def oldScope : List Char := "job:read".toList

lemma wellFormed_token : WellFormed
    [writeScripts, readJobs] "flows:read".toList listJobs "GET".toList := by
  have hreq : requiredFor listJobs "GET".toList = .ok ⟨.jobs, .read, none, "jobs/list".toList⟩ := by
    decide +kernel
  rintro required hreq' - - scope hscope
  cases hreq.symm.trans hreq'
  revert scope
  decide +kernel

theorem token_setLike : (∃ scope ∈ [writeScripts, readJobs], isTagFilter scope = false) ∧
    SetLike [writeScripts, readJobs] "flows:read".toList listJobs "GET".toList :=
  ⟨by decide +kernel, (route_access_iff (by decide +kernel)).mpr wellFormed_token⟩

/-- The order of two scopes decides, and a scope in front of the one that grants the access takes it
away. -/
theorem scope_order_counts : checkRouteAccess [readJobs, oldScope] listJobs "GET".toList = .ok () ∧
    checkRouteAccess [oldScope, readJobs] listJobs "GET".toList = .error
    (.badRequest "Invalid scope domain: job") ∧
    checkRouteAccess [readJobs] listJobs "GET".toList = .ok () ∧
    ¬SetLike [readJobs] oldScope listJobs "GET".toList := by
  have hfirst : checkRouteAccess [readJobs] listJobs "GET".toList = .ok () := by decide +kernel
  have hbefore : checkRouteAccess [oldScope, readJobs] listJobs "GET".toList =
      .error (.badRequest "Invalid scope domain: job") := by decide +kernel
  refine ⟨by decide +kernel, hbefore, hfirst, fun h => ?_⟩
  have hgrant : checkRouteAccess [oldScope, readJobs] listJobs "GET".toList = .ok () :=
    h.mono hfirst [] [readJobs] rfl
  cases hgrant

end Windmill.Auth.Routes
