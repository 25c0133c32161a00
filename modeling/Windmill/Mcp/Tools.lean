import Windmill.Lib.Except
import Windmill.Mcp.Names

/-! # The tools of a token

`list_tools` and `call_tool` (`windmill-mcp/src/server/runner.rs`), with the scopes of the token
(`windmill-mcp/src/common/scope.rs`) and the queries behind them (`windmill-api/src/mcp/utils.rs`).
Listing asks for the favourites where the token has that scope, and for the scripts of its apps of
the hub. Calling asks neither for a short name: `call_iff_covered` says for which names what is
called is listed. -/

namespace Windmill.Mcp.Tools

open Names Lib.Except List
open Sql.Signature (byteLength trim)

/-! ### Scopes -/

structure McpScopeConfig where
  scripts : List Text := []
  flows : List Text := []
  endpoints : List Text := []
  all : Bool := false
  favorites : Bool := false
  granular : Bool := false
  hubApps : Option Text := none

def parseResourceList (resources : Text) : List Text :=
  if resources = [] then [] else ((resources.splitOn ',').map trim).filter (· ≠ [])

def stripStart (start : String) (scope : Text) : Option Text :=
  if start.toList.isPrefixOf scope then some (scope.drop start.length) else none

/-- One turn of the loop of `parse_mcp_scopes`. -/
def addScope (config : McpScopeConfig) (scope : Text) : McpScopeConfig :=
  if scope = "mcp:all".toList then
    { config with all := true, scripts := config.scripts ++ [['*']], flows :=
      config.flows ++ [['*']],
                  endpoints := config.endpoints ++ [['*']] }
  else if scope = "mcp:favorites".toList then { config with favorites := true }
  else if let some folder := stripStart "mcp:all:" scope then
    { config with scripts := config.scripts ++ [folder], flows := config.flows ++ [folder],
                  endpoints := config.endpoints ++ [['*']] }
  else if let some apps := stripStart "mcp:hub:" scope then { config with hubApps := some apps }
  else if let some resources := stripStart "mcp:scripts:" scope then
    { config with scripts := config.scripts ++ parseResourceList resources }
  else if let some resources := stripStart "mcp:flows:" scope then
    { config with flows := config.flows ++ parseResourceList resources }
  else if let some resources := stripStart "mcp:endpoints:" scope then
    { config with endpoints := config.endpoints ++ parseResourceList resources }
  else config

/-- `parse_mcp_scopes`: what the scopes of a token allow. -/
def parseMcpScopes (scopes : List Text) : McpScopeConfig :=
  let config := scopes.foldl addScope {}
  { config with granular := !config.all && !config.favorites }

/-- The length of the start is in bytes, the position in characters. -/
def resourceMatchesPattern (path pattern : Text) : Bool :=
  if pattern = path then true
  else if "/*".toList.isSuffixOf pattern then
    let start := pattern.dropLast.dropLast
    if !start.isPrefixOf path then false
    else if byteLength path = byteLength start then true
    else path[byteLength start]? = some '/'
  else false

def isResourceAllowed (path : Text) (patterns : List Text) : Bool :=
  if patterns = [] then false
  else if ['*'] ∈ patterns then true
  else patterns.any (resourceMatchesPattern path)

def McpScopeConfig.patterns (config : McpScopeConfig) : ItemType → List Text
  | .script => config.scripts
  | .flow => config.flows

def McpScopeConfig.isAllowed (config : McpScopeConfig) (type : ItemType) (path : Text) : Bool :=
  if config.all then true else isResourceAllowed path (config.patterns type)

def McpScopeConfig.isAllowedEndpoint (config : McpScopeConfig) (name : Text) : Bool :=
  if config.all then true else isResourceAllowed name config.endpoints

/-! ### The workspace -/

/-- A row of `script` or `flow`; only scripts have an automatic kind. -/
structure Item where
  path : Text
  archived : Bool
  draftOnly : Bool
  autoKind : Option String
  deriving DecidableEq

structure HubScript where
  versionId : ℕ
  summary : Option Text
  app : Option Text
  deriving DecidableEq

structure Hub where
  scripts : List HubScript
  get : Text → Option HubScript
  get_mem : ∀ version script, get version = some script → script ∈ scripts

structure Endpoint where
  name : Text
  method : String
  path : String
  deriving DecidableEq

structure Content where
  items : ItemType → List Item
  favorites : ItemType → List Text
  endpoints : List Endpoint
  hub : Hub
  calculateHash : Text → Text

def Item.deployed (item : Item) : Bool := !item.archived && !item.draftOnly

section

variable (C : Content)

def getItems (type : ItemType) (favoritesOnly : Bool) (start : Option Text) : List Item :=
  (C.items type).filter fun item => item.deployed && (type = .flow || item.autoKind.isNone) &&
    (!favoritesOnly || item.path ∈ C.favorites type) && start.all (·.isPrefixOf item.path)

def getItemSchema (type : ItemType) (path : Text) : Except Failure Unit :=
  if (C.items type).any fun item => item.path = path && item.deployed then .ok ()
  else .error (.error ("failed to fetch item schema: " ++
    "no rows returned by a query that expected to return at least one row"))

def requested (apps : Text) (script : HubScript) : Bool := script.app.any (· ∈ apps.splitOn ',')

def listHubScripts (apps : Text) : List HubScript := C.hub.scripts.filter (requested apps)

def getHubScriptSchema (version : Text) : Except Failure Unit :=
  match C.hub.get version with
  | some _ => .ok ()
  | none => .error (.error "Failed to get hub script")

/-! ### Listing -/

inductive Target where
  | item (type : ItemType) (path : Text)
  | hub (script : HubScript)
  | endpoint (e : Endpoint)

structure Tool where
  name : Text
  target : Target

variable (scopes : List Text)

def hasMcpScope : Bool := scopes.any fun scope => "mcp:".toList.isPrefixOf scope

def unauthorized : Failure := .error "Unauthorized: missing mcp scope"

variable (config : McpScopeConfig)

def itemTools (type : ItemType) : List Tool :=
  ((getItems C type config.favorites none).filter fun item => !config.granular ||
    config.isAllowed type item.path).map
    fun item => ⟨transformPath C.calculateHash item.path type, .item type item.path⟩

def hubTools : List Tool :=
  (config.hubApps.elim [] (listHubScripts C)).map fun script =>
    ⟨transformHubPath C.calculateHash script.versionId (script.summary.getD "No summary".toList),
      .hub script⟩

def endpointTools : List Tool :=
  (C.endpoints.filter fun e => !(config.granular && !config.isAllowedEndpoint e.name)).map fun e =>
    ⟨e.name, .endpoint e⟩

def listTools : Except Failure (List Tool) :=
  if !hasMcpScope scopes then .error unauthorized
  else
    let config := parseMcpScopes scopes
    .ok (itemTools C config .script ++ itemTools C config .flow ++ hubTools C config ++
      endpointTools C config)

/-! ### Calling -/

inductive Call where
  | item (type : ItemType) (path : Text)
  | hub (version : Text)
  | endpoint (e : Endpoint)
  deriving DecidableEq

def findMatchingPath (type : ItemType) (candidates : List Item) (name : Text) : Option Text :=
  (candidates.find? fun item => transformPath C.calculateHash item.path type = name).map Item.path

def resolve (name : Text) : Except Failure (ItemType × Text × Bool) := do
  let (type, isHub, isHashed) ← parseToolPrefix name
  if !isHashed then reverseTransform name
  else if isHub then
    let version ← extractHubVersionIdFromHashed name
    .ok (type, version, true)
  else
    let start ← extractPathPrefixFromHashed name
    match findMatchingPath C type (getItems C type config.favorites start) name with
    | some path => .ok (type, path, false)
    | none => .error (.error ("No " ++ type.text ++ " found matching hashed tool name '" ++
        name.str ++ "'"))

def runItem : ItemType × Text × Bool → Except Failure Call
  | (_, version, true) => do
    getHubScriptSchema C version
    .ok (.hub version)
  | (type, path, false) =>
    if config.granular && !config.isAllowed type path then
      .error (.error ("Access denied: " ++ type.text ++ " '" ++ path.str ++ "' not in token scope"))
    else do
      getItemSchema C type path
      .ok (.item type path)

/-- `call_tool`: what a call by this name runs. -/
def callTool (name : Text) : Except Failure Call :=
  if !hasMcpScope scopes then .error unauthorized
  else
    let config := parseMcpScopes scopes
    match C.endpoints.find? (·.name = name) with
    | some e =>
      if config.granular && !config.isAllowedEndpoint e.name then
        .error (.error ("Access denied: endpoint '" ++ e.name.str ++ "' not in token scope"))
      else .ok (.endpoint e)
    | none => resolve C config name >>= runItem C config

/-! ### What is called is listed -/

def Target.For : Target → Call → Prop
  | .item type path, .item type' path' => type = type' ∧ path = path'
  | .hub script, .hub version => C.hub.get version = some script
  | .endpoint e, .endpoint e' => e = e'
  | _, _ => False

/-- The tool of the call is listed. -/
def Listed (call : Call) : Prop :=
  ∃ tools, listTools C scopes = .ok tools ∧ ∃ tool ∈ tools, tool.target.For C call

def hubVersion (name : Text) : Option Text :=
  match parseToolPrefix name with
  | .ok (_, true, true) => (extractHubVersionIdFromHashed name).toOption
  | .ok (_, true, false) => some ((name.drop 3).takeWhile (· ≠ '-'))
  | _ => none

structure Covered (config : McpScopeConfig) (name : Text) : Prop where
  /-- A short name of an item that is deployed: it is listed among the favourites if only these are,
  and it is no library or test. -/
  items : ∀ type path, C.endpoints.find? (·.name = name) = none → reverseTransform name =
    .ok (type, path, false) → (config.granular = true → config.isAllowed type path = true) →
    (∃ item ∈ C.items type, item.path = path ∧ item.deployed = true) →
    (config.favorites = true → path ∈ C.favorites type) ∧
      ∃ item ∈ C.items type, item.path = path ∧ item.deployed = true ∧
      (type = .script → item.autoKind = none)
  /-- A name of a script of the hub: the token has a scope for one of its apps. -/
  hub : ∀ version script, C.endpoints.find? (·.name = name) = none →
    hubVersion name = some version →
    C.hub.get version = some script → ∃ apps, config.hubApps = some apps ∧
    requested apps script = true

end

variable {call : Call} {tool : Tool} {version : Text}

section

variable {C : Content} {scopes : List Text} {config : McpScopeConfig} {name : Text}
  {type : ItemType} {path : Text}

lemma mem_getItems {fav start item} : item ∈ getItems C type fav start ↔
    item ∈ C.items type ∧ item.deployed = true ∧ (type = .script → item.autoKind = none) ∧
      (fav = true → item.path ∈ C.favorites type) ∧ ∀ s ∈ start, s <+: item.path := by
  have htype : (type = .flow ∨ item.autoKind = none) ↔ (type = .script → item.autoKind = none) := by
    cases type <;> simp
  have hfav : (fav = false ∨ item.path ∈ C.favorites type) ↔
      (fav = true → item.path ∈ C.favorites type) := by
    cases fav <;> simp
  have hstart : start.all (·.isPrefixOf item.path) = true ↔ ∀ s ∈ start, s <+: item.path := by
    cases start <;> simp
  unfold getItems
  rw [mem_filter]
  simp only [Bool.and_eq_true, Bool.or_eq_true, decide_eq_true_eq, Option.isNone_iff_eq_none,
    Bool.not_eq_true', hstart, htype, hfav, and_assoc]

lemma granular_iff {granular allowed : Bool} : (!granular || allowed) = true ↔
    (granular = true → allowed = true) := by
  cases granular <;> simp

lemma listed_iff : Listed C scopes call ↔ hasMcpScope scopes = true ∧
    ∃ tool, (tool ∈ itemTools C (parseMcpScopes scopes) .script ∨
      tool ∈ itemTools C (parseMcpScopes scopes) .flow ∨
      tool ∈ hubTools C (parseMcpScopes scopes) ∨ tool ∈ endpointTools C (parseMcpScopes scopes)) ∧
      tool.target.For C call := by
  unfold Listed listTools
  cases hasMcpScope scopes with
  | false => simp
  | true => simp

def Lists (C : Content) (config : McpScopeConfig) : Target → Prop
  | .item type path => (∃ item ∈ getItems C type config.favorites none, item.path = path) ∧
      (config.granular = true → config.isAllowed type path = true)
  | .hub script => ∃ apps, config.hubApps = some apps ∧ requested apps script = true
  | .endpoint _ => True

lemma lists_of_mem (h : tool ∈ itemTools C config .script ∨ tool ∈ itemTools C config .flow ∨
    tool ∈ hubTools C config ∨ tool ∈ endpointTools C config) : Lists C config tool.target := by
  have hitem : ∀ type, tool ∈ itemTools C config type → Lists C config tool.target := by
    intro type hmem
    obtain ⟨item, hitem, rfl⟩ := mem_map.mp hmem
    obtain ⟨hget, hallow⟩ := mem_filter.mp hitem
    exact ⟨⟨item, hget, rfl⟩, granular_iff.mp hallow⟩
  rcases h with hscr | hflow | hhub | hend
  · exact hitem .script hscr
  · exact hitem .flow hflow
  · obtain ⟨script, hscr, rfl⟩ := mem_map.mp hhub
    cases happs : config.hubApps with
    | none =>
      rw [happs] at hscr
      cases hscr
    | some apps =>
      rw [happs] at hscr
      exact ⟨apps, happs, (mem_filter.mp hscr).2⟩
  · obtain ⟨e, -, rfl⟩ := mem_map.mp hend
    trivial

lemma listed_item : Listed C scopes (.item type path) ↔ hasMcpScope scopes = true ∧
    (∃ item ∈ getItems C type (parseMcpScopes scopes).favorites none, item.path = path) ∧
      ((parseMcpScopes scopes).granular = true → (parseMcpScopes scopes).isAllowed type path =
        true) := by
  rw [listed_iff]
  refine and_congr_right fun _ => ⟨?_, ?_⟩
  · rintro ⟨tool, htool, hfor⟩
    have hlists := lists_of_mem htool
    cases htarget : tool.target with
    | item type' path' =>
      rw [htarget] at hlists hfor
      obtain ⟨rfl, rfl⟩ := hfor
      exact hlists
    | hub script | endpoint e =>
      rw [htarget] at hfor
      exact hfor.elim
  · rintro ⟨⟨item, hget, rfl⟩, hallow⟩
    have hmem : ⟨transformPath C.calculateHash item.path type, .item type item.path⟩ ∈
        itemTools C (parseMcpScopes scopes) type :=
      mem_map.mpr ⟨item, mem_filter.mpr ⟨hget, granular_iff.mpr hallow⟩, rfl⟩
    refine ⟨⟨transformPath C.calculateHash item.path type, .item type item.path⟩, ?_, rfl, rfl⟩
    cases type with
    | script => exact .inl hmem
    | flow => exact .inr (.inl hmem)

lemma listed_hub : Listed C scopes (.hub version) ↔ hasMcpScope scopes = true ∧
    ∃ apps script, (parseMcpScopes scopes).hubApps = some apps ∧ C.hub.get version = some script ∧
      requested apps script = true := by
  rw [listed_iff]
  refine and_congr_right fun _ => ⟨?_, ?_⟩
  · rintro ⟨tool, htool, hfor⟩
    have hlists := lists_of_mem htool
    cases htarget : tool.target with
    | hub script =>
      rw [htarget] at hlists hfor
      obtain ⟨apps, happs, hreq⟩ := hlists
      exact ⟨apps, script, happs, hfor, hreq⟩
    | item type path | endpoint e =>
      rw [htarget] at hfor
      exact hfor.elim
  · rintro ⟨apps, script, happs, hget, hreq⟩
    refine ⟨⟨transformHubPath C.calculateHash script.versionId
      (script.summary.getD "No summary".toList), .hub script⟩, .inr (.inr (.inl ?_)), hget⟩
    unfold hubTools
    rw [happs]
    exact mem_map_of_mem (mem_filter.mpr ⟨C.hub.get_mem version script hget, hreq⟩)

/-! ### Calls -/

lemma getItemSchema_eq_ok {u : Unit} : getItemSchema C type path = .ok u ↔
    ∃ item ∈ C.items type, item.path = path ∧ item.deployed = true := by
  unfold getItemSchema
  split_ifs with h
  · simpa using h
  · simpa using h

lemma getHubScriptSchema_eq_ok {u : Unit} : getHubScriptSchema C version = .ok u ↔
    ∃ script, C.hub.get version = some script := by
  unfold getHubScriptSchema
  cases C.hub.get version <;> simp

lemma runItem_item : runItem C config (type, path, false) = .ok call ↔
    (config.granular = true → config.isAllowed type path = true) ∧
      (∃ item ∈ C.items type, item.path = path ∧ item.deployed = true) ∧
      call = .item type path := by
  have hdenied : (config.granular && !config.isAllowed type path) = true ↔
      ¬(config.granular = true → config.isAllowed type path = true) := by
    cases config.granular <;> simp
  have hrun : runItem C config (type, path, false) = if config.granular &&
    !config.isAllowed type path then
        .error (.error ("Access denied: " ++ type.text ++ " '" ++ path.str ++
          "' not in token scope"))
      else getItemSchema C type path >>= fun _ => .ok (.item type path) := rfl
  rw [hrun]
  split_ifs with h
  · exact iff_of_false nofun fun hand => hdenied.mp h hand.1
  rw [bind_eq_ok, and_iff_right (not_not.mp fun hnot => h (hdenied.mpr hnot))]
  constructor
  · rintro ⟨u, hsch, heq⟩
    cases heq
    exact ⟨getItemSchema_eq_ok.mp hsch, rfl⟩
  · rintro ⟨hitem, rfl⟩
    exact ⟨(), getItemSchema_eq_ok.mpr hitem, rfl⟩

lemma runItem_hub : runItem C config (type, version, true) = .ok call ↔
    (∃ script, C.hub.get version = some script) ∧ call = .hub version := by
  have hrun : runItem C config (type, version, true) = getHubScriptSchema C version >>= fun _ =>
      .ok (.hub version) := rfl
  rw [hrun, bind_eq_ok]
  constructor
  · rintro ⟨u, hsch, heq⟩
    cases heq
    exact ⟨getHubScriptSchema_eq_ok.mp hsch, rfl⟩
  · rintro ⟨hscr, rfl⟩
    exact ⟨(), getHubScriptSchema_eq_ok.mpr hscr, rfl⟩

lemma resolve_item (h : resolve C config name = .ok (type, path, false)) :
    reverseTransform name = .ok (type, path, false) ∨
      ∃ item ∈ getItems C type config.favorites none, item.path = path := by
  obtain ⟨⟨type', isHub, isHashed⟩, hparse, h⟩ := bind_eq_ok.mp h
  cases isHashed with
  | false => exact .inl h
  | true =>
    cases isHub with
    | true =>
      obtain ⟨version, -, heq⟩ := bind_eq_ok.mp h
      cases heq
    | false =>
      obtain ⟨start, -, hfind⟩ := bind_eq_ok.mp h
      split at hfind
      · case _ path' hmatch =>
        cases hfind
        obtain ⟨item, hitem, rfl⟩ := Option.map_eq_some_iff.mp hmatch
        obtain ⟨hmem, hdep, hkind, hfav, -⟩ := mem_getItems.mp (mem_of_find?_eq_some hitem)
        exact .inr ⟨item, mem_getItems.mpr ⟨hmem, hdep, hkind, hfav, nofun⟩, rfl⟩
      · cases hfind

lemma resolve_of_reverseTransform {isHub : Bool}
    (h : reverseTransform name = .ok (type, path, isHub)) :
    resolve C config name = .ok (type, path, isHub) := by
  have hrev := h
  obtain ⟨⟨type', isHub', isHashed⟩, hparse, h⟩ := bind_eq_ok.mp h
  cases isHashed with
  | true => cases h
  | false =>
    unfold resolve
    rw [hparse]
    exact hrev

lemma resolve_hub (h : resolve C config name = .ok (type, version, true)) :
    hubVersion name = some version := by
  obtain ⟨⟨type', isHub, isHashed⟩, hparse, h⟩ := bind_eq_ok.mp h
  unfold hubVersion
  rw [hparse]
  cases isHashed with
  | false =>
    have hrev : reverseTransform name = .ok (type, version, true) := h
    unfold reverseTransform at hrev
    rw [hparse] at hrev
    cases isHub with
    | true =>
      cases hrev
      rfl
    | false => cases hrev
  | true =>
    cases isHub with
    | true =>
      obtain ⟨version', hver, heq⟩ := bind_eq_ok.mp h
      cases heq
      rw [hver]
      rfl
    | false =>
      obtain ⟨start, -, hfind⟩ := bind_eq_ok.mp h
      split at hfind
      · cases hfind
      · cases hfind

lemma resolve_of_hubVersion (h : hubVersion name = some version) :
    ∃ type, resolve C config name = .ok (type, version, true) := by
  unfold hubVersion at h
  split at h
  · case _ type hparse =>
    cases hver : extractHubVersionIdFromHashed name with
    | error e =>
      rw [hver] at h
      cases h
    | ok version' =>
      rw [hver] at h
      cases h
      refine ⟨type, ?_⟩
      unfold resolve
      rw [hparse]
      exact bind_eq_ok.mpr ⟨_, rfl, bind_eq_ok.mpr ⟨version, hver, rfl⟩⟩
  · case _ type hparse =>
    cases h
    refine ⟨type, resolve_of_reverseTransform ?_⟩
    unfold reverseTransform
    rw [hparse]
    rfl
  · cases h

lemma callTool_of_none (hscope : hasMcpScope scopes = true)
    (hnone : C.endpoints.find? (·.name = name) = none) :
    callTool C scopes name = resolve C (parseMcpScopes scopes) name >>= runItem C
    (parseMcpScopes scopes) := by
  unfold callTool
  rw [hscope, hnone]
  rfl

lemma Covered.listed (h : Covered C (parseMcpScopes scopes) name)
    (hscope : hasMcpScope scopes = true) (hnone : C.endpoints.find? (·.name = name) = none)
    {resolved} (hres : resolve C (parseMcpScopes scopes) name = .ok resolved)
    (hrun : runItem C (parseMcpScopes scopes) resolved = .ok call) : Listed C scopes call := by
  obtain ⟨type, path, isHub⟩ := resolved
  cases isHub with
  | true =>
    obtain ⟨⟨script, hscr⟩, rfl⟩ := runItem_hub.mp hrun
    obtain ⟨apps, happs, hreq⟩ := h.hub path script hnone (resolve_hub hres) hscr
    exact listed_hub.mpr ⟨hscope, apps, script, happs, hscr, hreq⟩
  | false =>
    obtain ⟨hallow, hitem, rfl⟩ := runItem_item.mp hrun
    refine listed_item.mpr ⟨hscope, ?_, hallow⟩
    rcases resolve_item hres with hrev | hlisted
    · obtain ⟨hfav, item, hmem, rfl, hdep, hkind⟩ := h.items type path hnone hrev hallow hitem
      exact ⟨item, mem_getItems.mpr ⟨hmem, hdep, hkind, hfav, nofun⟩, rfl⟩
    · exact hlisted

/-- **What is called is listed** if and only if the scopes cover the name. -/
theorem call_iff_covered : (∀ call, callTool C scopes name = .ok call → Listed C scopes call) ↔
    (hasMcpScope scopes = true → Covered C (parseMcpScopes scopes) name) := by
  constructor
  · intro h hscope
    refine ⟨fun type path hnone hrev hallow hitem => ?_, fun version script hnone hver hscr => ?_⟩
    · rw [callTool_of_none hscope hnone] at h
      have hcall := h (.item type path)
        (bind_eq_ok.mpr ⟨_, resolve_of_reverseTransform hrev,
          runItem_item.mpr ⟨hallow, hitem, rfl⟩⟩)
      obtain ⟨-, ⟨item, hget, rfl⟩, -⟩ := listed_item.mp hcall
      obtain ⟨hmem, hdep, hkind, hfav, -⟩ := mem_getItems.mp hget
      exact ⟨hfav, item, hmem, rfl, hdep, hkind⟩
    · rw [callTool_of_none hscope hnone] at h
      obtain ⟨type, hres⟩ : ∃ type, resolve C (parseMcpScopes scopes) name =
          .ok (type, version, true) :=
        resolve_of_hubVersion hver
      have hcall := h (.hub version)
        (bind_eq_ok.mpr ⟨_, hres, runItem_hub.mpr ⟨⟨script, hscr⟩, rfl⟩⟩)
      obtain ⟨-, apps, script', happs, hscr', hreq⟩ := listed_hub.mp hcall
      cases hscr.symm.trans hscr'
      exact ⟨apps, happs, hreq⟩
  · intro h call hcall
    cases hscope : hasMcpScope scopes with
    | false =>
      unfold callTool at hcall
      rw [hscope] at hcall
      cases hcall
    | true =>
      cases hfind : C.endpoints.find? (·.name = name) with
      | none =>
        rw [callTool_of_none hscope hfind] at hcall
        obtain ⟨resolved, hres, hrun⟩ := bind_eq_ok.mp hcall
        exact (h hscope).listed hscope hfind hres hrun
      | some e =>
        have hcallE : callTool C scopes name =
            if (parseMcpScopes scopes).granular &&
            !(parseMcpScopes scopes).isAllowedEndpoint e.name then
              .error (.error ("Access denied: endpoint '" ++ e.name.str ++ "' not in token scope"))
            else .ok (.endpoint e) := by
          unfold callTool
          rw [hscope, hfind]
          rfl
        rw [hcallE] at hcall
        split_ifs at hcall with hdenied
        cases hcall
        rw [listed_iff]
        refine ⟨hscope, ⟨e.name, .endpoint e⟩, .inr (.inr (.inr ?_)), rfl⟩
        exact mem_map.mpr ⟨e, mem_filter.mpr ⟨mem_of_find?_eq_some hfind, by simp [hdenied]⟩, rfl⟩

end

/-! ### Short names and the hub -/

def sampleContent : Content where
  items
    | .script => [⟨"u/bob/job".toList, false, false, none⟩]
    | .flow => []
  favorites _ := []
  endpoints := []
  hub :=
    { scripts := [⟨42, none, some "slack".toList⟩]
      get := fun version => if version = "42".toList then some ⟨42, none, some "slack".toList⟩
      else none
      get_mem := by
        intro version script h
        split_ifs at h with heq
        cases h
        exact List.mem_singleton_self _ }
  calculateHash text := text

/-- A token for the favourites calls a script that is none, and one without a scope for the hub
calls a script of it. -/
theorem unlisted_called :
    (callTool sampleContent ["mcp:favorites".toList] "s-u_bob_job".toList = .ok
    (.item .script "u/bob/job".toList) ∧
      ¬Listed sampleContent ["mcp:favorites".toList] (.item .script "u/bob/job".toList)) ∧
    (callTool sampleContent ["mcp:scripts:u/bob/job".toList] "hs-42-x".toList = .ok
    (.hub "42".toList) ∧
      ¬Listed sampleContent ["mcp:scripts:u/bob/job".toList] (.hub "42".toList)) := by
  refine ⟨⟨by decide +kernel, fun hlisted => ?_⟩, by decide +kernel, fun hlisted => ?_⟩
  · obtain ⟨-, ⟨item, hitem, -⟩, -⟩ := listed_item.mp hlisted
    cases hitem
  · obtain ⟨-, apps, script, happs, -⟩ := listed_hub.mp hlisted
    cases happs

end Windmill.Mcp.Tools
