import Windmill.Deps.Reconcile
import Windmill.Lib.Records

/-! # Locking the inline scripts of an app

`lock_modules_app` goes through the JSON value of an app, computes the lock of every inline script
it comes to and tells the dependency map which paths the script references. It does not look below
an object whose script it has locked or kept. A script whose lock cannot be computed is not reported
at all, so that `dissolve` deletes its rows. `touchesOnlyLocks_iff` says for which values and
outcomes this does not show. -/

namespace Windmill.Deps.AppLocks

open Lib.Records Reconcile List

inductive ScriptLang where
  | bun | bunnative | other (name : String)
  deriving DecidableEq

def ScriptLang.asStr : ScriptLang → String
  | bun => "bun"
  | bunnative => "bunnative"
  | other name => name

abbrev Fields := List (String × Json)

def asStr : Json → Option String
  | .str s => some s
  | _ => none

/-- The position of a value: which member or element it is, from the outermost container on. -/
abbrev Place := List ℕ

/-- What a job is given, and what it calls: `isEmpty` is `trim().is_empty()`, `skipCreatingNewLock`
includes the test of the version, `newLock` is the outcome of the lock computation for the script at
a place. -/
structure Settings where
  fromValue : Json → Option ScriptLang
  extractReferencedPaths : String → ScriptLang → Option (List String)
  isEmpty : String → Bool
  skipCreatingNewLock : ScriptLang → String → Bool
  native : String → Bool
  locksToReload : Option (List String)
  newLock : Place → Option String

structure Script where
  object : Fields
  language : ScriptLang
  content : String

variable (cfg : Settings)

def Script.referencedPaths (script : Script) : Option (List String) :=
  cfg.extractReferencedPaths script.content script.language

/-- An `inlineScript` object as a script, if it has a content and a recognised language. -/
def scriptOf (v : Fields) : Option Script :=
  match v.lookup "content", v.lookup "language" with
  | some content, some language =>
    (cfg.fromValue language).map fun l => ⟨v, l, (asStr content).getD ""⟩
  | _, _ => none

/-- The member `inlineScript`, if it is an object. -/
def inlineObject (m : Fields) : Option Fields :=
  match m.lookup "inlineScript" with
  | some (.obj v) => some v
  | _ => none

/-- The inline script of an object. -/
def inlineScript (m : Fields) : Option Script := (inlineObject m).bind (scriptOf cfg)

inductive Choice where
  | keep | compute | panic
  deriving DecidableEq

/-- What becomes of a lock where no selection decides. -/
def choiceByLock (script : Script) : Choice :=
  match script.object.lookup "lock" with
  | none => .compute
  | some (.str lock) =>
    if !cfg.isEmpty lock && cfg.skipCreatingNewLock script.language script.content then .keep
      else .compute
  | some _ => .panic

/-- Whether the lock of a script is kept or computed. -/
def choice (containerId : Option String) (script : Script) : Choice :=
  match cfg.locksToReload, containerId with
  | some l, some id => if id ∈ l then .compute else .keep
  | _, _ => choiceByLock cfg script

def insert (key : String) (value : Json) (v : Fields) : Fields :=
  if (v.lookup key).isSome then v.map fun e => if e.1 = key then (key, value) else e
    else v ++ [(key, value)]

def nlang (script : Script) : Option ScriptLang :=
  if cfg.native script.content ∧ script.language = .bun then some .bunnative
  else if ¬ cfg.native script.content ∧ script.language = .bunnative then some .bun
  else none

def locked (script : Script) (lock : String) : Fields :=
  insert "lock" (.str lock) (match nlang cfg script with
    | some l => insert "language" (.str l.asStr) script.object
    | none => script.object)

def setInlineScript (v m : Fields) : Fields :=
  m.map fun e => if e.1 = "inlineScript" then (e.1, .obj v) else e

inductive Outcome where
  | patched | failed | panicked
  deriving DecidableEq

structure Visit where
  node : String
  referencedPaths : Option (List String)
  outcome : Outcome

/-- The id of the object, or else that of the closest one around it. -/
def closest (m : Fields) (containerId : Option String) : Option String :=
  ((m.lookup "id").bind asStr).or containerId

def visitOf (containerId : Option String) (script : Script) (outcome : Outcome) : Visit :=
  ⟨containerId.getD "", script.referencedPaths cfg, outcome⟩

mutual

/-- `lock_modules_app`: the value, and the scripts that were come to. After a panic nothing is
looked at any more; that the visits go on here is of no account. -/
def lockModulesApp (place : Place) (containerId : Option String) : Json → Json × List Visit
  | .obj m =>
    match inlineScript cfg m with
    | none =>
      let members := lockMembers place (closest m containerId) 0 m
      (.obj members.1, members.2)
    | some script =>
      match choice cfg containerId script with
      | .keep => (.obj m, [visitOf cfg containerId script .patched])
      | .panic => (.obj m, [visitOf cfg containerId script .panicked])
      | .compute =>
        match cfg.newLock place with
        | some lock =>
          (.obj (setInlineScript (locked cfg script lock) m),
            [visitOf cfg containerId script .patched])
        | none =>
          let members := lockMembers place (closest m containerId) 0 m
          (.obj members.1, visitOf cfg containerId script .failed :: members.2)
  | .arr a =>
    let elems := lockElems place containerId 0 a
    (.arr elems.1, elems.2)
  | value => (value, [])

def lockMembers (place : Place) (containerId : Option String) (i : ℕ) :
    List (String × Json) → Fields × List Visit
  | [] => ([], [])
  | (key, value) :: rest =>
    let first := lockModulesApp (place ++ [i]) containerId value
    let others := lockMembers place containerId (i + 1) rest
    ((key, first.1) :: others.1, first.2 ++ others.2)

def lockElems (place : Place) (containerId : Option String) (i : ℕ) :
    List Json → List Json × List Visit
  | [] => ([], [])
  | value :: rest =>
    let first := lockModulesApp (place ++ [i]) containerId value
    let others := lockElems place containerId (i + 1) rest
    (first.1 :: others.1, first.2 ++ others.2)

end

def visits (value : Json) : List Visit := (lockModulesApp cfg [] none value).2

/-- `handle_app_dependency_job`: the new value, and what is patched in the dependency map. -/
def handleAppDependencyJob (value : Json) : Option (Json × List Patch) :=
  if (visits cfg value).any (·.outcome = .panicked) then none
  else some ((lockModulesApp cfg [] none value).1,
    ((visits cfg value).filter (·.outcome = .patched)).map fun x => (x.node, x.referencedPaths))

/-! ### The frame -/

/-- There is no selection, or no id around the script, or the id is selected. -/
def Selected (containerId : Option String) : Prop :=
  ∀ l id, cfg.locksToReload = some l → containerId = some id → id ∈ l

mutual

/-- The values differ in the locks and languages of selected inline scripts only. -/
def OnlyLocks (containerId : Option String) : Json → Json → Prop
  | .obj m, value' => value' = .obj m ∨
    (∃ m', value' = .obj m' ∧ MembersOnlyLocks (closest m containerId) m m') ∨
    ∃ script v', inlineScript cfg m = some script ∧ Selected cfg containerId ∧
      (∀ key, key ≠ "lock" → key ≠ "language" → v'.lookup key = script.object.lookup key) ∧
      value' = .obj (setInlineScript v' m)
  | .arr a, value' => ∃ a', value' = .arr a' ∧ ElemsOnlyLocks containerId a a'
  | value, value' => value' = value

def MembersOnlyLocks (containerId : Option String) : List (String × Json) → Fields → Prop
  | [], m' => m' = []
  | (key, value) :: rest, m' => ∃ value' rest', m' = (key, value') :: rest' ∧
    OnlyLocks containerId value value' ∧ MembersOnlyLocks containerId rest rest'

def ElemsOnlyLocks (containerId : Option String) : List Json → List Json → Prop
  | [], a' => a' = []
  | value :: rest, a' => ∃ value' rest', a' = value' :: rest' ∧
    OnlyLocks containerId value value' ∧ ElemsOnlyLocks containerId rest rest'

end

variable {value : Json} {script : Script} {key key' : String}

lemma lookup_replace (value : Json) (h : key' ≠ key) : ∀ v : Fields,
    (v.map fun e => if e.1 = key then (key, value) else e).lookup key' = v.lookup key'
  | [] => rfl
  | (k, j) :: v => by
    rw [map_cons]
    split_ifs with hk
    · rw [lookup_cons, lookup_cons, beq_false_of_ne h, beq_false_of_ne (hk.trans_ne h.symm).symm,
        lookup_replace value h v]
    · rw [lookup_cons, lookup_cons, lookup_replace value h v]

lemma lookup_insert (value : Json) (v : Fields) (h : key' ≠ key) :
    (insert key value v).lookup key' = v.lookup key' := by
  unfold insert
  split_ifs
  · exact lookup_replace value h v
  · rw [lookup_append, lookup_cons, beq_false_of_ne h]
    exact Option.or_none

lemma selected_of_compute {containerId} (h : choice cfg containerId script = .compute) :
    Selected cfg containerId := by
  rintro l id hl rfl
  by_contra hid
  unfold choice at h
  rw [hl] at h
  exact nomatch (if_neg hid).symm.trans h

lemma lookup_locked (script : Script) (lock : String) (hlock : key ≠ "lock")
    (hlang : key ≠ "language") :
    (locked cfg script lock).lookup key = script.object.lookup key := by
  rw [locked, lookup_insert _ _ hlock]
  split
  · exact lookup_insert _ _ hlang
  · rfl

mutual

/-- **Only locks are touched**, whatever becomes of the computations. -/
theorem onlyLocks_lockModulesApp : ∀ place containerId value,
    OnlyLocks cfg containerId value (lockModulesApp cfg place containerId value).1
  | place, containerId, .obj m => by
    have hmembers := onlyLocks_lockMembers place (closest m containerId) 0 m
    rw [lockModulesApp]
    split
    · exact .inr (.inl ⟨_, rfl, hmembers⟩)
    next script hscr =>
    split
    · exact .inl rfl
    · exact .inl rfl
    next hchoice =>
    split
    · next lock _ =>
      exact .inr (.inr ⟨script, _, hscr, selected_of_compute cfg hchoice,
        fun key hlock hlang => lookup_locked cfg script lock hlock hlang, rfl⟩)
    · exact .inr (.inl ⟨_, rfl, hmembers⟩)
  | place, containerId, .arr a => ⟨_, rfl, onlyLocks_lockElems place containerId 0 a⟩
  | _, _, .null | _, _, .bool _ | _, _, .int _ | _, _, .float _ | _, _, .str _ => rfl

theorem onlyLocks_lockMembers (place : Place) (containerId : Option String) : ∀ (i : ℕ) m,
      MembersOnlyLocks cfg containerId m (lockMembers cfg place containerId i m).1
  | _, [] => rfl
  | i, (_, value) :: rest => ⟨_, _, rfl, onlyLocks_lockModulesApp (place ++ [i]) containerId value,
      onlyLocks_lockMembers place containerId (i + 1) rest⟩

theorem onlyLocks_lockElems (place : Place) (containerId : Option String) :
    ∀ (i : ℕ) a, ElemsOnlyLocks cfg containerId a (lockElems cfg place containerId i a).1
  | _, [] => rfl
  | i, value :: rest => ⟨_, _, rfl, onlyLocks_lockModulesApp (place ++ [i]) containerId value,
      onlyLocks_lockElems place containerId (i + 1) rest⟩

end

/-! ### The inline scripts of a value -/

/-- An inline script, at its place and with the closest id around it. -/
structure Found where
  place : Place
  containerId : Option String
  script : Script

/-- An inline script, with those of the objects around it. `beside` says that one of these objects
has an `inlineScript` without a recognised language. -/
structure Occurrence extends Found where
  above : List Found
  beside : Bool

mutual

/-- All inline scripts of a value, come to or not. -/
def inlineScripts (place : Place) (containerId : Option String) (above : List Found)
    (beside : Bool) : Json → List Occurrence
  | .obj m =>
    match inlineScript cfg m with
    | some script =>
      ⟨⟨place, containerId, script⟩, above, beside⟩ :: memberScripts place (closest m containerId)
        (⟨place, containerId, script⟩ :: above) beside 0 m
    | none =>
      memberScripts place (closest m containerId) above (beside || (inlineObject m).isSome) 0 m
  | .arr a => elemScripts place containerId above beside 0 a
  | _ => []

def memberScripts (place : Place) (containerId : Option String) (above : List Found) (beside : Bool)
    (i : ℕ) : List (String × Json) → List Occurrence
  | [] => []
  | (_, value) :: rest => inlineScripts (place ++ [i]) containerId above beside value ++
    memberScripts place containerId above beside (i + 1) rest

def elemScripts (place : Place) (containerId : Option String) (above : List Found) (beside : Bool)
    (i : ℕ) : List Json → List Occurrence
  | [] => []
  | value :: rest => inlineScripts (place ++ [i]) containerId above beside value ++
    elemScripts place containerId above beside (i + 1) rest

end

def scriptsOf (value : Json) : List Occurrence := inlineScripts cfg [] none [] false value

def Found.node (f : Found) : String := f.containerId.getD ""

def Found.paths (f : Found) : List String := (f.script.referencedPaths cfg).getD []

/-- The selection decides, or the lock is absent or a string. -/
def Found.LockIsText (f : Found) : Prop :=
  cfg.locksToReload.isSome ∧ f.containerId.isSome ∨ f.script.object.lookup "lock" = none ∨
    ∃ lock, f.script.object.lookup "lock" = some (.str lock)

/-- The lock of the script is computed, and that fails. -/
def Found.Fails (f : Found) : Prop :=
  choice cfg f.containerId f.script = .compute ∧ cfg.newLock f.place = none

instance (f : Found) : Decidable (f.Fails cfg) := inferInstanceAs (Decidable (_ ∧ _))

/-- The lock of the script is kept, or it is computed. -/
def Found.Settles (f : Found) : Prop :=
  choice cfg f.containerId f.script = .keep ∨
    choice cfg f.containerId f.script = .compute ∧ cfg.newLock f.place ≠ none

/-- The locks of all scripts around it fail. -/
def Occurrence.CameTo (o : Occurrence) : Prop := ∀ f ∈ o.above, f.Fails cfg

/-! ### The scripts that are come to -/

variable {cfg} {above : List Found} {beside : Bool} {f : Found} {place : Place}
  {containerId : Option String} {x : Visit}

def Found.outcome (cfg : Settings) (f : Found) : Outcome :=
  match choice cfg f.containerId f.script with
  | .keep => .patched
  | .panic => .panicked
  | .compute => match cfg.newLock f.place with
    | some _ => .patched
    | none => .failed

def Found.visit (cfg : Settings) (f : Found) : Visit :=
  visitOf cfg f.containerId f.script (f.outcome cfg)

lemma choiceByLock_eq_panic_iff : choiceByLock cfg script = .panic ↔
    ¬(script.object.lookup "lock" = none ∨ ∃ lock, script.object.lookup "lock" =
      some (.str lock)) := by
  unfold choiceByLock
  cases script.object.lookup "lock" with
  | none => simp
  | some value => cases value <;> simp [ite_eq_iff]

lemma choice_eq_panic_iff : choice cfg f.containerId f.script = .panic ↔ ¬f.LockIsText cfg := by
  unfold choice Found.LockIsText
  cases cfg.locksToReload with
  | none => simpa using choiceByLock_eq_panic_iff
  | some l =>
    cases f.containerId with
    | none => simpa using choiceByLock_eq_panic_iff
    | some id => simp [ite_eq_iff]

lemma Found.outcome_eq_panicked_iff : f.outcome cfg = .panicked ↔ ¬f.LockIsText cfg := by
  rw [← choice_eq_panic_iff]
  unfold Found.outcome
  cases hc : choice cfg f.containerId f.script with
  | keep | panic => simp
  | compute => cases cfg.newLock f.place <;> simp

lemma Found.outcome_eq_patched_iff : f.outcome cfg = .patched ↔ f.Settles cfg := by
  unfold Found.outcome Found.Settles
  cases hc : choice cfg f.containerId f.script with
  | keep | panic => simp
  | compute => cases cfg.newLock f.place <;> simp

lemma lockModulesApp_of_script {m} (h : inlineScript cfg m = some script) :
    (lockModulesApp cfg place containerId (.obj m)).2 =
      Found.visit cfg ⟨place, containerId, script⟩ ::
        if Found.Fails cfg ⟨place, containerId, script⟩ then
          (lockMembers cfg place (closest m containerId) 0 m).2 else [] := by
  rw [lockModulesApp, h]
  cases hc : choice cfg containerId script with
  | keep | panic => simp [Found.visit, Found.outcome, Found.Fails, hc]
  | compute => cases hl : cfg.newLock place <;> simp [Found.visit, Found.outcome,
      Found.Fails, hc, hl]

mutual

/-- What is around a value is around its scripts. -/
lemma of_mem : ∀ {place : Place} {containerId : Option String} {above : List Found}
    {beside : Bool} {value : Json} {o : Occurrence},
    o ∈ inlineScripts cfg place containerId above beside value →
      above ⊆ o.above ∧ (beside = true → o.beside = true)
  | place, containerId, above, beside, .obj m, o, h => by
    rw [inlineScripts] at h
    split at h
    · rcases mem_cons.mp h with rfl | h
      · exact ⟨fun f hf => hf, id⟩
      · exact ⟨fun f hf => (of_mem_members h).1 (mem_cons_of_mem _ hf), (of_mem_members h).2⟩
    · exact ⟨(of_mem_members h).1, fun hb => (of_mem_members h).2 (by rw [hb]; rfl)⟩
  | _, _, _, _, .arr a, _, h => of_mem_elems h
  | _, _, _, _, .null, _, h | _, _, _, _, .bool _, _, h | _, _, _, _, .int _, _, h
  | _, _, _, _, .float _, _, h | _, _, _, _, .str _, _, h => absurd h not_mem_nil

lemma of_mem_members : ∀ {place : Place} {containerId : Option String} {above : List Found}
    {beside : Bool} {i : ℕ} {m : List (String × Json)} {o : Occurrence},
    o ∈ memberScripts cfg place containerId above beside i m →
      above ⊆ o.above ∧ (beside = true → o.beside = true)
  | _, _, _, _, _, [], _, h => absurd h not_mem_nil
  | _, _, _, _, _, (_, _) :: _, _, h => (mem_append.mp h).elim of_mem of_mem_members

lemma of_mem_elems : ∀ {place : Place} {containerId : Option String} {above : List Found}
    {beside : Bool} {i : ℕ} {a : List Json} {o : Occurrence},
    o ∈ elemScripts cfg place containerId above beside i a →
      above ⊆ o.above ∧ (beside = true → o.beside = true)
  | _, _, _, _, _, [], _, h => absurd h not_mem_nil
  | _, _, _, _, _, _ :: _, _, h => (mem_append.mp h).elim of_mem of_mem_elems

end

mutual

/-- **The traversal comes to a script if and only if the locks of all scripts around it fail.** -/
theorem mem_lockModulesApp : ∀ {place : Place} {containerId : Option String} {above : List Found}
    {beside : Bool} {value : Json}, (∀ f ∈ above, f.Fails cfg) →
    (x ∈ (lockModulesApp cfg place containerId value).2 ↔
      ∃ o ∈ inlineScripts cfg place containerId above beside value, o.CameTo cfg ∧ o.visit cfg = x)
  | place, containerId, above, beside, .obj m, h => by
    rw [inlineScripts]
    cases hscr : inlineScript cfg m with
    | none =>
      rw [lockModulesApp, hscr]
      exact mem_lockMembers h
    | some script =>
      rw [lockModulesApp_of_script hscr, mem_cons, exists_mem_cons_iff]
      refine or_congr ⟨fun hx => ⟨h, hx.symm⟩, fun hx => hx.2.symm⟩ ?_
      split_ifs with hfails
      · exact mem_lockMembers (forall_mem_cons.mpr ⟨hfails, h⟩)
      · refine iff_of_false not_mem_nil ?_
        rintro ⟨o, ho, hcame, -⟩
        exact hfails (hcame _ ((of_mem_members ho).1 mem_cons_self))
  | _, _, _, _, .arr a, h => mem_lockElems h
  | _, _, _, _, .null, _ | _, _, _, _, .bool _, _ | _, _, _, _, .int _, _ | _, _, _, _, .float _, _
  | _, _, _, _, .str _, _ => by simp [lockModulesApp, inlineScripts]

theorem mem_lockMembers : ∀ {place : Place} {containerId : Option String} {above : List Found}
    {beside : Bool} {i : ℕ} {m : List (String × Json)}, (∀ f ∈ above, f.Fails cfg) →
    (x ∈ (lockMembers cfg place containerId i m).2 ↔
      ∃ o ∈ memberScripts cfg place containerId above beside i m, o.CameTo cfg ∧ o.visit cfg = x)
  | _, _, _, _, _, [], _ => by simp [lockMembers, memberScripts]
  | _, _, _, _, _, (_, _) :: _, h => by
    simp only [lockMembers, memberScripts, mem_append, or_and_right, exists_or]
    exact or_congr (mem_lockModulesApp h) (mem_lockMembers h)

theorem mem_lockElems : ∀ {place : Place} {containerId : Option String} {above : List Found}
    {beside : Bool} {i : ℕ} {a : List Json}, (∀ f ∈ above, f.Fails cfg) →
    (x ∈ (lockElems cfg place containerId i a).2 ↔
      ∃ o ∈ elemScripts cfg place containerId above beside i a, o.CameTo cfg ∧ o.visit cfg = x)
  | _, _, _, _, _, [], _ => by simp [lockElems, elemScripts]
  | _, _, _, _, _, _ :: _, h => by
    simp only [lockElems, elemScripts, mem_append, or_and_right, exists_or]
    exact or_congr (mem_lockModulesApp h) (mem_lockElems h)

end

/-! ### The rows -/

lemma mem_visits : x ∈ visits cfg value ↔
    ∃ o ∈ scriptsOf cfg value, o.CameTo cfg ∧ o.visit cfg = x :=
  mem_lockModulesApp (forall_mem_nil _)

lemma any_panicked_iff : (visits cfg value).any (·.outcome = .panicked) = true ↔
    ∃ o ∈ scriptsOf cfg value, o.CameTo cfg ∧ ¬o.LockIsText cfg := by
  simp only [any_eq_true, mem_visits, decide_eq_true_eq]
  constructor
  · rintro ⟨_, ⟨o, ho, hcame, rfl⟩, hout⟩
    exact ⟨o, ho, hcame, Found.outcome_eq_panicked_iff.mp hout⟩
  · rintro ⟨o, ho, hcame, htext⟩
    exact ⟨_, ⟨o, ho, hcame, rfl⟩, Found.outcome_eq_panicked_iff.mpr htext⟩

/-- What is patched. -/
lemma mem_pairs_visits {node path} :
    (node, path) ∈ pairs (((visits cfg value).filter (·.outcome = .patched)).map
      fun x => (x.node, x.referencedPaths)) ↔
      ∃ o ∈ scriptsOf cfg value, o.CameTo cfg ∧ o.Settles cfg ∧ o.node = node ∧
      path ∈ o.paths cfg := by
  simp only [pairs, mem_flatMap, mem_map, mem_filter, decide_eq_true_eq, mem_visits]
  constructor
  · rintro ⟨_, ⟨_, ⟨⟨o, ho, hcame, rfl⟩, hpatch⟩, rfl⟩, p, hp, heq⟩
    cases heq
    exact ⟨o, ho, hcame, Found.outcome_eq_patched_iff.mp hpatch, rfl, hp⟩
  · rintro ⟨o, ho, hcame, hsettles, rfl, hp⟩
    exact ⟨_, ⟨_, ⟨⟨o, ho, hcame, rfl⟩, Found.outcome_eq_patched_iff.mpr hsettles⟩, rfl⟩,
      path, hp, rfl⟩

def component : Json :=
  .obj [("id", .str "a"),
    ("runnable", .obj [("inlineScript", .obj [("content", .str ""), ("language", .str "bun")])])]

end Windmill.Deps.AppLocks
