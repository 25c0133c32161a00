import Mathlib.Data.List.ReduceOption
import Windmill.Deps.AppLocks

/-! # Rebuilding the dependency map

`rebuild_map_unchecked` finds the inline scripts of flows and apps with traversals of its own. They
differ from those of the dependency jobs in the tools of agents, in scripts that have a path of
their own, and in objects of an app whose `inlineScript` has no recognised language. `agrees_iff`
says for which values this shows. -/

namespace Windmill.Deps.Rebuild

open Lib.Records Reconcile AppLocks List Option

/-- An inline script of a flow; `path` is a path of its own. -/
structure RawScript where
  content : String
  language : ScriptLang
  path : Option String

/-- `other` stands for `Script`, `Flow` and `Identity`, `loop` for both kinds of loops; a tool of an
agent that is no module (`Mcp`, `Websearch`) is `none`. -/
inductive FlowModule where
  | rawScript (id : String) (script : RawScript)
  | flowScript (id : String)
  | other (id : String)
  | loop (id : String) (modules : List FlowModule)
  | branchOne (id : String) (branches : List (List FlowModule)) (default : List FlowModule)
  | branchAll (id : String) (branches : List (List FlowModule))
  | aiAgent (id : String) (tools : List (Option FlowModule))

/-- The modules of a flow, with those for failures and for the input. -/
structure FlowValue where
  modules : List FlowModule
  failureModule : Option FlowModule
  preprocessorModule : Option FlowModule

def FlowValue.all (value : FlowValue) : List FlowModule :=
  value.modules ++ value.failureModule.toList ++ value.preprocessorModule.toList

def FlowModule.script : FlowModule → Option (String × RawScript)
  | .rawScript id script => some (id, script)
  | _ => none

def FlowModule.isFlowScript : FlowModule → Bool
  | .flowScript _ => true
  | _ => false

def FlowModule.isAgent : FlowModule → Bool
  | .aiAgent _ _ => true
  | _ => false

def FlowModule.isLeaf : FlowModule → Bool
  | .rawScript _ _ | .flowScript _ | .other _ => true
  | _ => false

/-! ### Flows -/

/-- The modules inside a module. -/
def FlowModule.parts : FlowModule → List FlowModule
  | .loop _ modules => modules
  | .branchOne _ branches default => branches.flatten ++ default
  | .branchAll _ branches => branches.flatten
  | .aiAgent _ tools => tools.reduceOption
  | _ => []

variable {m : FlowModule}

lemma sizeOf_lt_of_mem_flatten {branches : List (List FlowModule)}
    (h : m ∈ branches.flatten) : sizeOf m < sizeOf branches := by
  obtain ⟨branch, hbranch, hm⟩ := mem_flatten.mp h
  exact (sizeOf_lt_of_mem hm).trans (sizeOf_lt_of_mem hbranch)

lemma sizeOf_lt_of_mem_parts {part : FlowModule} (h : part ∈ m.parts) : sizeOf part < sizeOf m := by
  cases m with
  | rawScript _ _ | flowScript _ | other _ => exact absurd h not_mem_nil
  | loop _ modules =>
    have := sizeOf_lt_of_mem (show part ∈ modules from h)
    simp
    omega
  | branchAll _ branches =>
    have := sizeOf_lt_of_mem_flatten (show part ∈ branches.flatten from h)
    simp
    omega
  | branchOne _ branches default =>
    rcases mem_append.mp h with h | h
    · have := sizeOf_lt_of_mem_flatten h
      simp
      omega
    · have := sizeOf_lt_of_mem h
      simp
      omega
  | aiAgent _ tools =>
    have hmem : some part ∈ tools := reduceOption_mem_iff.mp h
    have := sizeOf_lt_of_mem hmem
    simp at this ⊢
    omega

/-- `lock_modules`: the scripts that are locked, in whatever module they are. -/
def lockModules (m : FlowModule) : List (String × RawScript) :=
  m.script.toList ++ m.parts.attach.flatMap fun part => lockModules part.1
termination_by sizeOf m
decreasing_by exact sizeOf_lt_of_mem_parts part.2

/-- `traverse_leafs`: the modules that it calls back with. The tools of an agent are among them, but
not what is inside a tool. -/
def traverseLeafs (m : FlowModule) : List FlowModule :=
  if m.isLeaf then [m]
  else if m.isAgent then m.parts
  else m.parts.attach.flatMap fun part => traverseLeafs part.1
termination_by sizeOf m
decreasing_by exact sizeOf_lt_of_mem_parts part.2

/-- The scripts inside the tools of agents. -/
def insideTools (m : FlowModule) : List (String × RawScript) :=
  if m.isAgent then (m.parts.filter (·.script.isNone)).flatMap lockModules
  else m.parts.attach.flatMap fun part => insideTools part.1
termination_by sizeOf m
decreasing_by exact sizeOf_lt_of_mem_parts part.2

lemma lockModules_eq (m : FlowModule) :
    lockModules m = m.script.toList ++ m.parts.flatMap lockModules := by
  rw [lockModules]
  simp

lemma mem_flatMap_or {α β γ : Type} {f h : α → List β} {g : α → List γ} {b : β} {c : γ} {l : List α}
    (hf : ∀ a ∈ l, b ∈ f a ↔ c ∈ g a ∨ b ∈ h a) : b ∈ l.flatMap f ↔ c ∈ l.flatMap g ∨
    b ∈ l.flatMap h := by
  simp only [mem_flatMap, ← exists_or, ← and_or_left]
  exact exists_congr fun a => and_congr_right (hf a)

lemma mem_tool (x : String × RawScript) (tool : FlowModule) :
    x ∈ lockModules tool ↔ tool.script = some x ∨ tool.script = none ∧ x ∈ lockModules tool := by
  rw [lockModules_eq]
  cases tool <;> simp [FlowModule.script, FlowModule.parts, eq_comm]

/-- **A deployment comes to the scripts of the rebuild and to those inside the tools of agents.** -/
theorem mem_lockModules (x : String × RawScript) (m : FlowModule) :
    x ∈ lockModules m ↔ x ∈ (traverseLeafs m).filterMap FlowModule.script ∨ x ∈ insideTools m := by
  have hparts : x ∈ m.parts.flatMap lockModules ↔
      x ∈ m.parts.flatMap (fun part => (traverseLeafs part).filterMap FlowModule.script) ∨
        x ∈ m.parts.flatMap insideTools := mem_flatMap_or fun part _ => mem_lockModules x part
  rw [lockModules_eq, traverseLeafs, insideTools]
  cases m with
  | rawScript _ _ | flowScript _ | other _ =>
    simp [FlowModule.isLeaf, FlowModule.isAgent, FlowModule.script, FlowModule.parts, eq_comm]
  | loop _ _ | branchOne _ _ _ | branchAll _ _ =>
    simpa [FlowModule.isLeaf, FlowModule.isAgent, FlowModule.script, filterMap_flatMap] using hparts
  | aiAgent _ tools =>
    simp only [FlowModule.isLeaf, FlowModule.isAgent, FlowModule.script, toList_none,
      nil_append, if_true,
      Bool.false_eq_true, if_false, mem_flatMap, mem_filterMap, mem_filter, isNone_iff_eq_none]
    constructor
    · rintro ⟨tool, htool, hx⟩
      rcases (mem_tool x tool).mp hx with h | ⟨h, hx⟩
      · exact .inl ⟨tool, htool, h⟩
      · exact .inr ⟨tool, ⟨htool, h⟩, hx⟩
    · rintro (⟨tool, htool, h⟩ | ⟨tool, ⟨htool, h⟩, hx⟩)
      · exact ⟨tool, htool, (mem_tool x tool).mpr (.inl h)⟩
      · exact ⟨tool, htool, hx⟩
termination_by sizeOf m
decreasing_by exact sizeOf_lt_of_mem_parts ‹_›

/-! ### Apps -/

variable (cfg : Settings)

mutual

/-- The outermost `inlineScript` objects of a value, with the closest id around them. -/
def outermost (containerId : Option String) : Json → List (Option String × Fields)
  | .obj m => match inlineObject m with
    | some script => [(containerId, script)]
    | none => outermostMembers (closest m containerId) m
  | .arr a => outermostElems containerId a
  | _ => []

def outermostMembers (containerId : Option String) :
    List (String × Json) → List (Option String × Fields)
  | [] => []
  | (_, value) :: rest => outermost containerId value ++ outermostMembers containerId rest

def outermostElems (containerId : Option String) : List Json → List (Option String × Fields)
  | [] => []
  | value :: rest => outermost containerId value ++ outermostElems containerId rest

end

def hasContent (script : Fields) : Bool := ((script.lookup "content").bind asStr).isSome

/-- `traverse_app_inline_scripts`: it fails at an object without a content, and calls back with the
scripts that have a recognised language. -/
def traverseAppInlineScripts (value : Json) : Option (List (String × Script)) :=
  if (outermost none value).any fun x => !hasContent x.2 then none
  else some ((outermost none value).filterMap fun x =>
    (scriptOf cfg x.2).map fun script => (x.1.getD "", script))

variable {cfg}

mutual

variable {x : Option String × Script}

/-- **An inline script without another above it is an outermost one, or it stands beside one of an
unknown language.** -/
theorem mem_outermost : ∀ {place : Place} {containerId : Option String}
    {value : Json}, (∃ o ∈ inlineScripts cfg place containerId [] false value,
      o.above = [] ∧ o.beside = false ∧ (o.containerId, o.script) = x) ↔
      ∃ y ∈ outermost containerId value, scriptOf cfg y.2 = some x.2 ∧ y.1 = x.1
  | place, containerId, .obj m => by
    rw [inlineScripts, outermost, inlineScript]
    cases hobj : inlineObject m with
    | none => simpa using mem_outermostMembers
    | some v =>
      simp only [bind_some, mem_singleton, exists_eq_left, isSome_some, Bool.or_true]
      cases hscr : scriptOf cfg v with
      | none =>
        refine iff_of_false ?_ (by simp)
        rintro ⟨o, ho, -, hbeside, -⟩
        simp [(of_mem_members ho).2 rfl] at hbeside
      | some script =>
        simp only [exists_mem_cons_iff, true_and]
        constructor
        · rintro (rfl | ⟨o, ho, habove, -⟩)
          · exact ⟨rfl, rfl⟩
          · have := (of_mem_members ho).1 mem_cons_self
            rw [habove] at this
            cases this
        · rintro ⟨hs, rfl⟩
          exact .inl (Prod.ext rfl (some.inj hs))
  | _, _, .arr a => mem_outermostElems
  | _, _, .null | _, _, .bool _ | _, _, .int _ | _, _, .float _ | _, _, .str _ => by
    simp [inlineScripts, outermost]

theorem mem_outermostMembers : ∀ {place : Place}
    {containerId : Option String} {i : ℕ} {m : List (String × Json)},
    (∃ o ∈ memberScripts cfg place containerId [] false i m,
      o.above = [] ∧ o.beside = false ∧ (o.containerId, o.script) = x) ↔
      ∃ y ∈ outermostMembers containerId m, scriptOf cfg y.2 = some x.2 ∧ y.1 = x.1
  | _, _, _, [] => by simp [memberScripts, outermostMembers]
  | _, _, _, (_, _) :: _ => by
    simp only [memberScripts, outermostMembers, mem_append, or_and_right, exists_or]
    exact or_congr mem_outermost mem_outermostMembers

theorem mem_outermostElems : ∀ {place : Place}
    {containerId : Option String} {i : ℕ} {a : List Json},
    (∃ o ∈ elemScripts cfg place containerId [] false i a,
      o.above = [] ∧ o.beside = false ∧ (o.containerId, o.script) = x) ↔
      ∃ y ∈ outermostElems containerId a, scriptOf cfg y.2 = some x.2 ∧ y.1 = x.1
  | _, _, _, [] => by simp [elemScripts, outermostElems]
  | _, _, _, _ :: _ => by
    simp only [elemScripts, outermostElems, mem_append, or_and_right, exists_or]
    exact or_congr mem_outermost mem_outermostElems

end

/-! ### The rows -/

/-- An item with its path. The locks of an app are those that the job computes. -/
inductive Item where
  | flow (path : String) (value : FlowValue)
  | app (path : String) (cfg : Settings) (locks : Place → String) (value : Json)

section

-- `extract_referenced_paths`, of the content, the base path and the language
variable (extract : String → String → ScriptLang → Option (List String))

/-- What a script of a flow references, resolved against the given path. -/
def referencesAt (base : String) (x : String × RawScript) : Patch :=
  (x.1, extract x.2.content (base ++ "/flow") x.2.language)

/-- The settings of a job in which every lock succeeds. -/
def settings (path : String) (cfg : Settings) (locks : Place → String) : Settings :=
  { cfg with
    extractReferencedPaths := fun content language => extract content (path ++ "/app") language
    newLock := fun place => some (locks place) }

def leafs (value : FlowValue) : List FlowModule := value.all.flatMap traverseLeafs

def leafScripts (value : FlowValue) : List (String × RawScript) :=
  (leafs value).filterMap FlowModule.script

/-- The rows of a dependency job: the scripts of a flow are resolved against their own path. -/
def deployRows : Item → Option (List (String × String))
  | .flow path value => some (pairs ((value.all.flatMap lockModules).map fun x =>
      referencesAt extract (x.2.path.getD path) x))
  | .app path cfg locks value =>
    (handleAppDependencyJob (settings extract path cfg locks) value).map fun r => pairs r.2

/-- The rows of `rebuild_map_unchecked`. -/
def rebuildRows : Item → Option (List (String × String))
  | .flow path value =>
    if (leafs value).any FlowModule.isFlowScript then none
    else some (pairs ((leafScripts value).map (referencesAt extract path)))
  | .app path cfg locks value =>
    (traverseAppInlineScripts (settings extract path cfg locks) value).map fun scripts =>
      pairs (scripts.map fun x => (x.1, x.2.referencedPaths (settings extract path cfg locks)))

/-- A dependency job that ends has the rows of the rebuild. -/
def Agrees (item : Item) : Prop :=
  ∀ W, deployRows extract item = some W → ∃ R, rebuildRows extract item = some R ∧ ∀ p,
    p ∈ R ↔ p ∈ W

/-- The row is one of those that a script references. -/
def Patched (patch : Patch) (p : String × String) : Prop := p.1 = patch.1 ∧ p.2 ∈ patch.2.getD []

/-- The dependency job does not panic: no lock that is looked at is something else than a string. -/
def Deployable : Item → Prop
  | .flow _ _ => True
  | .app path cfg locks value => ∀ o ∈ scriptsOf (settings extract path cfg locks) value,
      o.above = [] → o.LockIsText (settings extract path cfg locks)

/-- The rebuild fails: a leaf is a `FlowScript`, or an outermost `inlineScript` has no content. -/
def Failing : Item → Prop
  | .flow _ value => ∃ m ∈ leafs value, m.isFlowScript = true
  | .app _ _ _ value => ∃ x ∈ outermost none value, hasContent x.2 = false

/-- Rows on both sides: of leafs without a path of their own, and of outermost inline scripts. -/
def Common (p : String × String) : Item → Prop
  | .flow path value =>
    ∃ x ∈ leafScripts value, x.2.path = none ∧ Patched (referencesAt extract path x) p
  | .app path cfg locks value => ∃ y ∈ outermost none value,
      ∃ script, scriptOf (settings extract path cfg locks) y.2 = some script ∧
        Patched (y.1.getD "", script.referencedPaths (settings extract path cfg locks)) p

/-- Rows of a deployment: of scripts inside the tools of agents, of leafs resolved against a path of
their own, and of inline scripts beside one of an unknown language. -/
def DeployOnly (p : String × String) : Item → Prop
  | .flow path value =>
    (∃ x ∈ value.all.flatMap insideTools, Patched (referencesAt extract (x.2.path.getD path) x) p) ∨
      ∃ x ∈ leafScripts value, ∃ own, x.2.path = some own ∧ Patched (referencesAt extract own x) p
  | .app path cfg locks value => ∃ o ∈ scriptsOf (settings extract path cfg locks) value,
      o.above = [] ∧ o.beside = true ∧
        Patched (o.node, o.script.referencedPaths (settings extract path cfg locks)) p

/-- Rows of a rebuild: of leafs with a path of their own, resolved against that of the flow. -/
def RebuildOnly (p : String × String) : Item → Prop
  | .flow path value =>
    ∃ x ∈ leafScripts value, x.2.path.isSome ∧ Patched (referencesAt extract path x) p
  | .app _ _ _ _ => False

variable {extract} {W R : List (String × String)} {path : String} {p : String × String}

lemma mem_pairs_map {α : Type} {f : α → Patch} {l : List α} :
    p ∈ pairs (l.map f) ↔ ∃ x ∈ l, Patched (f x) p := by
  simp [pairs, Patched, flatMap_map, Prod.ext_iff, eq_comm, and_comm]

variable {value : FlowValue} {item : Item}

lemma deploy_flow (hW : deployRows extract (.flow path value) = some W) :
    p ∈ W ↔ Common extract p (.flow path value) ∨ DeployOnly extract p (.flow path value) := by
  have hmem : ∀ x, x ∈ value.all.flatMap lockModules ↔
      x ∈ leafScripts value ∨ x ∈ value.all.flatMap insideTools := fun x => by
    rw [leafScripts, leafs, filterMap_flatMap]
    exact mem_flatMap_or fun m _ => mem_lockModules x m
  cases hW
  simp only [mem_pairs_map, hmem, Common, DeployOnly]
  constructor
  · rintro ⟨x, hx | hx, hp⟩
    · cases hpath : x.2.path with
      | none => exact .inl ⟨x, hx, hpath, by rwa [hpath] at hp⟩
      | some own => exact .inr (.inr ⟨x, hx, own, hpath, by rwa [hpath] at hp⟩)
    · exact .inr (.inl ⟨x, hx, hp⟩)
  · rintro (⟨x, hx, hpath, hp⟩ | ⟨x, hx, hp⟩ | ⟨x, hx, own, hpath, hp⟩)
    · exact ⟨x, .inl hx, by rwa [hpath]⟩
    · exact ⟨x, .inr hx, hp⟩
    · exact ⟨x, .inl hx, by rwa [hpath]⟩

lemma rebuild_flow (hR : rebuildRows extract (.flow path value) = some R) :
    p ∈ R ↔ Common extract p (.flow path value) ∨ RebuildOnly extract p (.flow path value) := by
  rw [rebuildRows] at hR
  split_ifs at hR
  cases hR
  simp only [mem_pairs_map, Common, RebuildOnly]
  constructor
  · rintro ⟨x, hx, hp⟩
    cases hpath : x.2.path with
    | none => exact .inl ⟨x, hx, hpath, hp⟩
    | some own => exact .inr ⟨x, hx, by rw [hpath]; rfl, hp⟩
  · rintro (⟨x, hx, -, hp⟩ | ⟨x, hx, -, hp⟩)
    · exact ⟨x, hx, hp⟩
    · exact ⟨x, hx, hp⟩

section App

variable {cfg : Settings} {locks : Place → String} {value : Json}

/-- In a job in which every lock succeeds, exactly the scripts without another above them are come
to. -/
lemma cameTo_iff {o : Occurrence} : o.CameTo (settings extract path cfg locks) ↔ o.above = [] := by
  constructor
  · intro h
    refine eq_nil_iff_forall_not_mem.mpr fun f hf => ?_
    cases (h f hf).2
  · intro h f hf
    simp [h] at hf

lemma deployable_iff : Deployable extract (.app path cfg locks value) ↔
    (deployRows extract (.app path cfg locks value)).isSome := by
  have hpanic := @any_panicked_iff (settings extract path cfg locks) value
  simp only [cameTo_iff] at hpanic
  rw [deployRows, isSome_map, handleAppDependencyJob, Deployable]
  split_ifs with h
  · obtain ⟨o, ho, habove, hno⟩ := hpanic.mp h
    exact iff_of_false (fun hall => hno (hall o ho habove)) (by simp)
  · refine iff_of_true (fun o ho habove => ?_) rfl
    by_contra hno
    exact h (hpanic.mpr ⟨o, ho, habove, hno⟩)

lemma settles_of_lockIsText {f : Found} (h : f.LockIsText (settings extract path cfg locks)) :
    f.Settles (settings extract path cfg locks) := by
  have hpanic := mt choice_eq_panic_iff.mp (not_not_intro h)
  unfold Found.Settles
  cases hc : choice (settings extract path cfg locks) f.containerId f.script with
  | keep => exact .inl rfl
  | panic => exact absurd hc hpanic
  | compute => exact .inr ⟨rfl, some_ne_none _⟩

lemma deploy_app (hW : deployRows extract (.app path cfg locks value) = some W) :
    p ∈ W ↔ Common extract p (.app path cfg locks value) ∨
      DeployOnly extract p (.app path cfg locks value) := by
  have hdep := deployable_iff.mpr (by rw [hW]; rfl)
  rw [deployRows, handleAppDependencyJob] at hW
  split_ifs at hW
  · cases hW
  obtain rfl := some.inj hW
  have hrow : p ∈ pairs _ ↔ _ := @mem_pairs_visits (settings extract path cfg locks) value p.1 p.2
  simp only [cameTo_iff] at hrow
  refine hrow.trans ⟨?_, ?_⟩
  · rintro ⟨o, ho, habove, -, hnode, hpath⟩
    cases hbeside : o.beside with
    | true => exact .inr ⟨o, ho, habove, hbeside, hnode.symm, hpath⟩
    | false =>
      obtain ⟨y, hy, hscr, hid⟩ := mem_outermost.mp ⟨o, ho, habove, hbeside, rfl⟩
      exact .inl ⟨y, hy, o.script, hscr, by rw [hid]; exact hnode.symm, hpath⟩
  · rintro (⟨y, hy, script, hscr, hnode, hpath⟩ | ⟨o, ho, habove, -, hnode, hpath⟩)
    · obtain ⟨o, ho, habove, -, heq⟩ := (mem_outermost (x := (y.1, script))).mpr ⟨y, hy, hscr, rfl⟩
      obtain ⟨hid, rfl⟩ := Prod.mk.inj heq
      refine ⟨o, ho, habove, settles_of_lockIsText (hdep o ho habove), ?_, hpath⟩
      rw [Found.node, hid]
      exact hnode.symm
    · exact ⟨o, ho, habove, settles_of_lockIsText (hdep o ho habove), hnode.symm, hpath⟩

lemma rebuild_app (hR : rebuildRows extract (.app path cfg locks value) = some R) :
    p ∈ R ↔ Common extract p (.app path cfg locks value) := by
  rw [rebuildRows, traverseAppInlineScripts] at hR
  split_ifs at hR
  · cases hR
  obtain rfl := some.inj hR
  rw [mem_pairs_map]
  simp only [mem_filterMap, map_eq_some_iff, Common]
  constructor
  · rintro ⟨_, ⟨y, hy, script, hscr, rfl⟩, hp⟩
    exact ⟨y, hy, script, hscr, hp⟩
  · rintro ⟨y, hy, script, hscr, hp⟩
    exact ⟨_, ⟨y, hy, script, hscr, rfl⟩, hp⟩

end App

/-! ### Agreement -/

lemma failing_iff : Failing item ↔ rebuildRows extract item = none := by
  cases item with
  | flow path value =>
    rw [rebuildRows, Failing, ← List.any_eq_true]
    split_ifs with h <;> simp [h]
  | app path cfg locks value =>
    have hany : (∃ x ∈ outermost none value, hasContent x.2 = false) ↔
        (outermost none value).any (fun x => !hasContent x.2) = true := by simp
    rw [rebuildRows, Failing, hany, traverseAppInlineScripts]
    split_ifs with h <;> simp [h]

lemma deployRows_isSome : Deployable extract item ↔ ∃ W, deployRows extract item = some W := by
  cases item with
  | flow path value => exact iff_of_true trivial ⟨_, rfl⟩
  | app path cfg locks value => rw [deployable_iff, isSome_iff_exists]

lemma mem_rows (hW : deployRows extract item = some W) (hR : rebuildRows extract item = some R) :
    (p ∈ W ↔ Common extract p item ∨ DeployOnly extract p item) ∧
      (p ∈ R ↔ Common extract p item ∨ RebuildOnly extract p item) := by
  cases item with
  | flow path value => exact ⟨deploy_flow hW, rebuild_flow hR⟩
  | app path cfg locks value => exact ⟨deploy_app hW, (rebuild_app hR).trans (or_iff_left id).symm⟩

/-- **A rebuild agrees with a deployment that ends exactly if nothing makes it fail, and each row
that only one of the two has by its own scripts is there by another script of the other.** -/
theorem agrees_iff (item : Item) : Agrees extract item ↔ (Deployable extract item → ¬Failing item ∧
    ∀ p, (DeployOnly extract p item → Common extract p item ∨ RebuildOnly extract p item) ∧
      (RebuildOnly extract p item → Common extract p item ∨ DeployOnly extract p item)) := by
  rw [@deployRows_isSome extract item, @failing_iff extract item]
  constructor
  · rintro h ⟨W, hW⟩
    obtain ⟨R, hR, heq⟩ := h W hW
    refine ⟨by rw [hR]; exact some_ne_none R, fun p => ?_⟩
    obtain ⟨hw, hr⟩ := mem_rows (p := p) hW hR
    exact ⟨fun hp => hr.mp ((heq p).mpr (hw.mpr (.inr hp))), fun hp =>
      hw.mp ((heq p).mp (hr.mpr (.inr hp)))⟩
  · intro h W hW
    obtain ⟨hsome, hrows⟩ := h ⟨W, hW⟩
    obtain ⟨R, hR⟩ := ne_none_iff_exists'.mp hsome
    refine ⟨R, hR, fun p => ?_⟩
    obtain ⟨hw, hr⟩ := mem_rows (p := p) hW hR
    rw [hw, hr]
    exact ⟨fun hp => hp.elim .inl (hrows p).2, fun hp => hp.elim .inl (hrows p).1⟩

end

def ownPath : Item := .flow "u/a" ⟨[.rawScript "a" ⟨"", .bun, some "u/b"⟩], none, none⟩

/-- The imports of a script with a path of its own are resolved against another path. -/
theorem own_path_disagrees : ¬Agrees (fun _ base _ => some [base]) ownPath := by
  intro h
  have hW : deployRows (fun _ base _ => some [base]) ownPath = some [("a", "u/b/flow")] := by
    simp [deployRows, ownPath, FlowValue.all, lockModules_eq, FlowModule.script,
      FlowModule.parts, pairs, referencesAt]
  obtain ⟨R, hR, heq⟩ := h _ hW
  have hR' : R = [("a", "u/a/flow")] := by
    simpa [rebuildRows, ownPath, leafs, leafScripts, FlowValue.all, traverseLeafs,
      FlowModule.isLeaf,
      FlowModule.isFlowScript, FlowModule.script, pairs, referencesAt, eq_comm] using hR
  have := (heq ("a", "u/b/flow")).mpr (mem_singleton_self _)
  rw [hR'] at this
  exact absurd this (by decide)

end Windmill.Deps.Rebuild
