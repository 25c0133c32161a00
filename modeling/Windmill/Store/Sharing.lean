import Windmill.Store.Values
import Windmill.Lib.Run

/-! # Reads of different callers

A read of a variable or resource is right when it ends as it does with empty caches (`Fresh`). The
variable cache is written under keys that start with the email of the caller and read under keys
that do not; the resource cache is read and written under the workspace and the path, whoever the
caller is. -/

namespace Windmill.Store.Sharing

open Lib.Memo Lib.Fuel Lib.Run Values List Option

inductive Read (U : Type) where
  | getVariable (caller : DbWithOptAuthed U) (w path : String) (allowCache : Bool)
  | getResource (reader : Reader U) (w path : String) (allowCache : Bool)

inductive Answer where
  | variable (result : Except Error String)
  | resource (result : Except Error (Option Json))

structure State (U : Type) where
  caches : Caches
  log : List (Read U × Answer)

def State.start {U : Type} : State U := ⟨.empty, []⟩

section

variable {U : Type} (W : World U) {result : Except Error (Option Json)} {allowCache : Bool}
  {fuel : ℕ}

/-- A read, with the fuel that it has. -/
def perform (fuel : ℕ) (caches : Caches) : Read U → Option (Answer × Caches)
  | .getVariable c w path allowCache =>
    let result := getValueInternal W caches c w path allowCache
    some (.variable result.1, result.2)
  | .getResource r w path allowCache =>
    (getResourceValueInterpolatedInternal W fuel caches r w path allowCache).map fun result =>
      (.resource result.1, result.2)

variable (s : State U)

/-- One read. -/
def step (a : ℕ × Read U) : Option (State U) :=
  match perform W a.1 s.caches a.2 with
  | some (answer, caches) => some ⟨caches, (a.2, answer) :: s.log⟩
  | none => none

def Fresh (rd : Read U) (answer : Answer) : Prop :=
  ∃ fuel caches, perform W fuel .empty rd = some (answer, caches)

/-- No read was answered by the permissions of another user. -/
def Unshared : Prop := ∀ rd answer, (rd, answer) ∈ s.log → ∀ other, Fresh W rd other ↔
  other = answer

/-- A read that may use a cache finds an entry only if it is that of the same read. -/
def OwnEntries : ℕ × Read U → Prop
  | (_, .getVariable _ w path true) => ∀ c' w' path' answer,
  (.getVariable c' w' path' true, answer) ∈ s.log →
      cacheKey w path ≠ variableCacheKey (c'.email W) w' path'
  | (_, .getResource r w path true) => ∀ r' w' path' answer,
  (.getResource r' w' path' true, answer) ∈ s.log →
      cacheKey w' path' = cacheKey w path → r' = r ∧ w' = w ∧ path' = path
  | _ => True

variable {W}

/-! ### Reads with empty caches -/

lemma transformJsonValue_refines {r w} : ∀ (fuel : ℕ) (depth : UInt8) (v : Json),
    Refines (transformJsonValue W r w fuel depth v) (transformJsonValue W r w (fuel + 1) depth v)
  | 0, _, _ => nofun
  | fuel + 1, depth, v => by
    have ih := transformJsonValue_refines (r := r) (w := w) fuel
    cases v with
    | string y =>
      rw [transformJsonValue_string, transformJsonValue_string]
      cases followed W r w y with
      | none => exact refines_rfl _
      | some value => exact ih (depth + 1) value
    | array items =>
      unfold transformJsonValue
      split_ifs
      · exact (Refines.traverse (fun v => ih (depth + 1) v) items).andThen fun _ => refines_rfl _
      · exact refines_rfl _
    | object fields =>
      exact (Refines.traverse (fun field => (ih (depth + 1) field.2).andThen fun _ => refines_rfl _)
        fields).andThen fun _ => refines_rfl _
    | _ => exact refines_rfl _

def freshResource (W : World U) (fuel : ℕ) (r : Reader U) (w path : String) :
    Option (Except Error (Option Json)) :=
  match stripStart "CUSTOM_INSTANCE_DB/" path with
  | some dbname => some (customInstanceDb W r.caller dbname)
  | none => resourceValue W fuel r w path

lemma freshResource_refines {r w path} (fuel : ℕ) :
    Refines (freshResource W fuel r w path) (freshResource W (fuel + 1) r w path) := by
  unfold freshResource
  cases stripStart "CUSTOM_INSTANCE_DB/" path with
  | some dbname => exact refines_rfl _
  | none =>
    unfold resourceValue
    dsimp only
    split
    · exact refines_rfl _
    · exact refines_rfl _
    · split
      · exact (transformJsonValue_refines fuel 0 _).andThen fun _ => refines_rfl _
      · exact refines_rfl _

/-- **A resource read either returns an entry or reads the tables**; only a value that was read is
stored. -/
theorem getResource_cases {caches caches' r w path}
    (h : getResourceValueInterpolatedInternal W fuel caches r w path allowCache =
      some (result, caches')) :
    (∃ v, allowCache = true ∧ caches.resourceCache.lookup (cacheKey w path) = some v ∧ result = .ok
    (some v) ∧ caches' = caches) ∨ freshResource W fuel r w path = some result ∧
      (caches' = caches ∨ ∃ v, allowCache = true ∧ result = .ok (some v) ∧
      caches' = { caches with resourceCache := (cacheKey w path, v) :: caches.resourceCache }) := by
  unfold getResourceValueInterpolatedInternal at h
  unfold freshResource
  cases hcust : stripStart "CUSTOM_INSTANCE_DB/" path with
  | some dbname =>
    rw [hcust] at h
    cases h
    exact .inr ⟨rfl, .inl rfl⟩
  | none =>
    rw [hcust] at h
    cases hget : (if allowCache = true then caches.resourceCache.lookup (cacheKey w path)
      else none) with
    | some v =>
      rw [hget] at h
      cases h
      split_ifs at hget with hallow
      exact .inl ⟨v, hallow, hget, rfl, rfl⟩
    | none =>
      rw [hget] at h
      obtain ⟨fresh, hfresh, h⟩ := map_eq_some_iff.mp h
      refine .inr ?_
      rw [hfresh]
      split at h
      · rename_i value
        cases h
        refine ⟨rfl, ?_⟩
        split_ifs with hallow
        · exact .inr ⟨value, hallow, rfl, rfl⟩
        · exact .inl rfl
      · cases h
        exact ⟨rfl, .inl rfl⟩

lemma getResource_empty {r w path} (h : freshResource W fuel r w path = some result) :
    ∃ caches, getResourceValueInterpolatedInternal W fuel .empty r w path allowCache = some
    (result, caches) := by
  unfold freshResource at h
  unfold getResourceValueInterpolatedInternal
  cases hcust : stripStart "CUSTOM_INSTANCE_DB/" path with
  | some dbname =>
    rw [hcust] at h
    cases h
    exact ⟨_, rfl⟩
  | none =>
    rw [hcust] at h
    dsimp only at h ⊢
    have hnone : (if allowCache = true then Caches.empty.resourceCache.lookup (cacheKey w path)
      else none) =
        none := by split_ifs <;> rfl
    rw [hnone, h]
    cases result with
    | error e => exact ⟨_, rfl⟩
    | ok value => cases value <;> exact ⟨_, rfl⟩

lemma fresh_resource {r w path} (h : freshResource W fuel r w path = some result) (other : Answer) :
    Fresh W (.getResource r w path allowCache) other ↔ other = .resource result := by
  constructor
  · rintro ⟨fuel', caches, hperf⟩
    obtain ⟨⟨result', caches'⟩, hget, heq⟩ := map_eq_some_iff.mp hperf
    cases heq
    rcases getResource_cases hget with ⟨v, -, hlook, -⟩ | ⟨hfresh, -⟩
    · cases hlook
    · rw [eq_of_refines (fun n => freshResource_refines n) hfresh h]
  · rintro rfl
    obtain ⟨caches, hget⟩ := getResource_empty h
    exact ⟨fuel, caches, by rw [perform, hget]; rfl⟩

section

variable {caches : Caches} {c : DbWithOptAuthed U} {w path : String}

section

variable (h : allowCache = true → caches.variableCache.lookup (cacheKey w path) = none)
include h

lemma lookup_miss : (if allowCache = true then caches.variableCache.lookup (cacheKey w path)
    else none) = none := by
  split_ifs with hallow
  · exact h hallow
  · rfl

lemma getValueInternal_error {e : Error}
    (hv : variableValue W c w path = .error e) : getValueInternal W caches c w path allowCache =
    (.error e, caches) := by
  simp only [getValueInternal, lookup_miss h, hv]

lemma getValueInternal_ok {value} (hv : variableValue W c w path = .ok value) :
    getValueInternal W caches c w path allowCache = (.ok value, if allowCache then
      { caches with variableCache := (variableCacheKey (c.email W) w path, value) ::
        caches.variableCache } else caches) := by
  simp only [getValueInternal, lookup_miss h, hv]

end

end

lemma fresh_variable {c w path} (other : Answer) :
    Fresh W (.getVariable c w path allowCache) other ↔ other = .variable
    (variableValue W c w path) := by
  have hmiss : (getValueInternal W .empty c w path allowCache).1 = variableValue W c w path := by
    cases hv : variableValue W c w path with
    | error e => rw [getValueInternal_error (fun _ => rfl) hv]
    | ok value => rw [getValueInternal_ok (fun _ => rfl) hv]
  constructor
  · rintro ⟨fuel, caches, hperf⟩
    cases hperf
    rw [hmiss]
  · rintro rfl
    exact ⟨0, _, by rw [perform, hmiss]⟩

/-! ### The invariant -/

def State.readVariable (q : DbWithOptAuthed U × String × String) : Prop :=
  ∃ answer, (.getVariable q.1 q.2.1 q.2.2 true, answer) ∈ s.log

def State.readResource (q : Reader U × String × String) : Prop :=
  ∃ answer, (.getResource q.1 q.2.1 q.2.2 true, answer) ∈ s.log

structure Inv (W : World U) (s : State U) : Prop where
  variableEntries : Backed (fun q : DbWithOptAuthed U × String × String =>
    variableCacheKey (q.1.email W) q.2.1 q.2.2)
    (fun _ _ => True) s.readVariable s.caches.variableCache
  resourceEntries : Backed (fun q : Reader U × String × String => cacheKey q.2.1 q.2.2)
    (fun q v => ∃ fuel, freshResource W fuel q.1 q.2.1 q.2.2 = some (.ok (some v))) s.readResource
    s.caches.resourceCache
  log : Unshared W s

lemma Unshared.cons {s caches rd answer} (h : Unshared W s)
    (hfresh : ∀ other, Fresh W rd other ↔ other = answer) :
    Unshared W ⟨caches, (rd, answer) :: s.log⟩ := by
  intro rd' answer' hmem
  rcases mem_cons.mp hmem with heq | hmem
  · cases heq
    exact hfresh
  · exact h rd' answer' hmem

lemma inv_step {s s' a} (hI : Inv W s) (hC : OwnEntries W s a) (h : step W s a = some s') :
    Inv W s' := by
  obtain ⟨fuel, rd⟩ := a
  have hvar : ∀ {rd' answer caches} q,
      s.readVariable q → State.readVariable ⟨caches, (rd', answer) :: s.log⟩ q :=
    fun _ ⟨answer', hmem⟩ => ⟨answer', mem_cons_of_mem _ hmem⟩
  have hres : ∀ {rd' answer caches} q,
      s.readResource q → State.readResource ⟨caches, (rd', answer) :: s.log⟩ q :=
    fun _ ⟨answer', hmem⟩ => ⟨answer', mem_cons_of_mem _ hmem⟩
  cases rd with
  | getVariable c w path allowCache =>
    -- no entry has the key of the read
    have hnone : allowCache = true → s.caches.variableCache.lookup (cacheKey w path) = none := by
      rintro rfl
      cases hget : s.caches.variableCache.lookup (cacheKey w path) with
      | none => rfl
      | some v =>
        obtain ⟨⟨c', w', path'⟩, ⟨answer, hmade⟩, hkey, -⟩ := hI.variableEntries _ v hget
        exact absurd hkey.symm (hC c' w' path' answer hmade)
    unfold step perform at h
    dsimp only at h
    cases hv : variableValue W c w path with
    | error e =>
      rw [getValueInternal_error hnone hv] at h
      cases h
      exact ⟨hI.variableEntries.mono hvar, hI.resourceEntries.mono hres,
        hI.log.cons fun other => by rw [fresh_variable, hv]⟩
    | ok value =>
      rw [getValueInternal_ok hnone hv] at h
      cases h
      refine ⟨?_, ?_, hI.log.cons fun other => by rw [fresh_variable, hv]⟩
      · dsimp only
        split_ifs with hallow
        · subst hallow
          exact (hI.variableEntries.mono hvar).cons (q := (c, w, path)) ⟨_, mem_cons_self⟩ trivial
        · exact hI.variableEntries.mono hvar
      · dsimp only
        split_ifs
        · exact hI.resourceEntries.mono hres
        · exact hI.resourceEntries.mono hres
  | getResource r w path allowCache =>
    unfold step at h
    cases hp : perform W fuel s.caches (.getResource r w path allowCache) with
    | none => simp [hp] at h
    | some p =>
      rw [hp] at h
      cases h
      obtain ⟨⟨result, caches'⟩, hget, heq⟩ := map_eq_some_iff.mp hp
      cases heq
      rcases getResource_cases hget with ⟨v, hallow, hlook, hresult, rfl⟩ | ⟨hfresh, hcache⟩
      · -- the entry is that of an earlier read of the same reader
        subst hallow hresult
        obtain ⟨⟨r', w', path'⟩, ⟨answer, hmade⟩, hkey, fuel', hv⟩ := hI.resourceEntries _ v hlook
        obtain ⟨rfl, rfl, rfl⟩ := hC r' w' path' answer hmade hkey
        exact ⟨hI.variableEntries.mono hvar, hI.resourceEntries.mono hres,
          hI.log.cons (fresh_resource hv)⟩
      · rcases hcache with rfl | ⟨v, hallow, hresult, rfl⟩
        · exact ⟨hI.variableEntries.mono hvar, hI.resourceEntries.mono hres,
            hI.log.cons (fresh_resource hfresh)⟩
        · subst hallow hresult
          exact ⟨hI.variableEntries.mono hvar,
            (hI.resourceEntries.mono hres).cons (q := (r, w, path)) ⟨_, mem_cons_self⟩
            ⟨fuel, hfresh⟩,
            hI.log.cons (fresh_resource hfresh)⟩

lemma perform_isSome {fuel : ℕ} {caches rd} (h : (perform W fuel .empty rd).isSome) :
    (perform W fuel caches rd).isSome := by
  cases rd with
  | getVariable c w path allowCache => rfl
  | getResource r w path allowCache =>
    obtain ⟨p, hp⟩ := isSome_iff_exists.mp h
    obtain ⟨⟨result, caches'⟩, hget, -⟩ := map_eq_some_iff.mp hp
    rcases getResource_cases hget with ⟨v, -, hlook, -⟩ | ⟨hfresh, -⟩
    · cases hlook
    rw [perform]
    unfold getResourceValueInterpolatedInternal
    unfold freshResource at hfresh
    cases hcust : stripStart "CUSTOM_INSTANCE_DB/" path with
    | some dbname => rfl
    | none =>
      rw [hcust] at hfresh
      dsimp only at hfresh ⊢
      cases (if allowCache = true then caches.resourceCache.lookup (cacheKey w path) else none) with
      | some v => rfl
      | none =>
        rw [hfresh]
        rfl

/-- Workspace ids and emails have no colon, and only emails have an at sign: the variable cache
never answers. -/
lemma cacheKey_ne_variableCacheKey {email w w' path path'} (hcol : ':' ∉ w.toList)
    (hcol' : ':' ∉ email.toList) (hat : '@' ∈ email.toList) (hat' : '@' ∉ w.toList) :
    cacheKey w path ≠ variableCacheKey email w' path' := by
  intro h
  have htext := congrArg (fun s : String => s.toList.takeWhile (· != ':')) h
  have hstart : ∀ {a b}, ':' ∉ a → (a ++ ':' :: b).takeWhile (· != ':') = a := by
    intro a b ha
    rw [takeWhile_append_of_pos fun c hc => ?_]
    · rw [takeWhile_cons_of_neg (by decide), append_nil]
    · exact bne_iff_ne.mpr fun heq => ha (heq ▸ hc)
  simp only [cacheKey, variableCacheKey, String.toList_append, append_assoc] at htext
  rw [show ":".toList = [':'] from rfl] at htext
  simp only [singleton_append] at htext
  rw [hstart hcol, hstart hcol'] at htext
  exact hat' (htext ▸ hat)

end

/-! ### The theorem -/

/-- **In every sequence of reads that find no entry of another read, each read ends as it does with
empty caches.** -/
theorem reads_not_shared {U : Type} {W : World U} {reads : List (ℕ × Read U)} {s : State U}
    (hC : Meets (step W) (OwnEntries W) reads .start) (hrun : run (step W) reads .start = some s) :
    Unshared W s ∧ ∀ fuel rd, (perform W fuel .empty rd).isSome → (step W s (fuel, rd)).isSome := by
  have hstart : Inv W (State.start : State U) :=
    ⟨backed_nil, backed_nil, fun rd answer hmem => (by cases hmem)⟩
  refine ⟨(run_invariant inv_step hstart hC hrun).log, fun fuel rd h => ?_⟩
  obtain ⟨⟨answer, caches⟩, hp⟩ := isSome_iff_exists.mp (@perform_isSome U W fuel s.caches rd h)
  rw [step, hp]
  rfl

def twoUsers : World Bool where
  email owner := if owner then "alice@example.com" else "bob@example.com"
  debug owner := if owner then "alice" else "bob"
  superAdmin _ := false
  variableRow w path :=
    if w = "demo" ∧ path = "u/alice/password" then some ⟨"hunter2", none, none, false, "\x7b\x7d"⟩
      else none
  resourceRow w path :=
    if w = "demo" ∧ path = "u/alice/db" then some ⟨some (.string "$var:u/alice/password"),
      "\x7b\x7d"⟩ else none
  folderPerms _ _ := none
  jobRow _ _ := none
  jobPath _ := none
  seesVariable owner _ _ := owner
  seesResource owner _ _ := owner
  seesJob _ _ := false
  getSecretValue _ _ value := .ok value
  refreshToken _ _ _ := .error (.internalErr "Require oauth2 feature")
  pgCreds _ := .ok .null
  parseJson _ := .error "expected value at line 1 column 1"
  customEnvs _ := []
  baseUrl := "http://localhost"
  workerGroup := "default"
  nowMillis := "0"

def readDb (owner : Bool) : ℕ × Read Bool :=
  (2, .getResource ⟨.userDb owner, none, none⟩ "demo" "u/alice/db" true)

def readPassword (owner : Bool) : ℕ × Read Bool :=
  (0, .getVariable (.userDb owner) "demo" "u/alice/password" true)

def password : Json := .string "hunter2"

def afterRead : State Bool :=
  ⟨⟨[], [("demo:u/alice/db", password)]⟩, [((readDb true).2, .resource (.ok (some password)))]⟩

theorem own_reads_not_shared : ∃ s, run (step twoUsers)
    [readDb true, readPassword true, readDb true,
      readPassword true] .start = some s ∧ s.log.length = 4 ∧ Unshared twoUsers s := by
  have hrun : ∃ s, run (step twoUsers) [readDb true, readPassword true, readDb true,
    readPassword true] .start =
      some s ∧ s.log.length = 4 := ⟨_, rfl, rfl⟩
  obtain ⟨s, hrun, hlen⟩ := hrun
  have hown : ∀ {s : State Bool}, (∀ r w path answer, (.getResource r w path true, answer) ∈ s.log →
      (.getResource r w path true) = (readDb true).2) → OwnEntries twoUsers s (readDb true) := by
    intro s hlog r w path answer hmem _
    obtain ⟨hr, hw, hpath, -⟩ := Read.getResource.inj (hlog r w path answer hmem)
    exact ⟨hr, hw, hpath⟩
  have hvar : ∀ {s : State Bool}, (∀ c w path answer, (.getVariable c w path true, answer) ∈ s.log →
      c = .userDb true) → OwnEntries twoUsers s (readPassword true) := by
    intro s hlog c w path answer hmem
    rw [hlog c w path answer hmem]
    exact cacheKey_ne_variableCacheKey (by decide) (by decide) (by decide) (by decide)
  refine ⟨s, hrun, hlen, (reads_not_shared ?_ hrun).1⟩
  refine meets_cons (hown ?_) rfl (meets_cons (hvar ?_) rfl (meets_cons (hown ?_) rfl
    (meets_cons (hvar ?_) rfl trivial)))
  all_goals
    intro _ _ _ _ hmem
    simp only [State.start, readDb, readPassword, mem_cons, not_mem_nil, Prod.mk.injEq,
      reduceCtorEq,
      false_and, or_false, false_or, Read.getResource.injEq, Read.getVariable.injEq] at hmem ⊢
  · tauto
  · tauto

/-- The second user is given the value that was resolved for the first. -/
theorem secret_read_by_another : ∃ s, run (step twoUsers)
    [readDb true, readDb false] .start = some s ∧
    ((readDb false).2, .resource (.ok (some password))) ∈ s.log ∧ ¬Unshared twoUsers s := by
  have hfirst : step twoUsers .start (readDb true) = some afterRead := rfl
  have hsnd : step twoUsers afterRead (readDb false) = some
      ⟨afterRead.caches, ((readDb false).2, .resource (.ok (some password))) :: afterRead.log⟩ :=
      rfl
  refine ⟨_, (run_of_step hfirst).trans (run_of_step hsnd), mem_cons_self, fun h => ?_⟩
  obtain ⟨fuel, caches, hperf⟩ := (h _ _ mem_cons_self _).mpr rfl
  cases hperf

end Windmill.Store.Sharing
