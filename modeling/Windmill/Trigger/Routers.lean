import Windmill.Trigger.Clashes

/-! # The cache of routers

`refresh_routers` (`windmill-trigger-http/src/lib.rs`) reads the value of a sequence and, if it is
greater than the version of the cache, builds a router for each method and stores them with this
version. The transactions that change triggers call `nextval` after each statement
(`increase_trigger_version`); the value is visible at once, the rows when they commit. Each action
is one statement. The invariant (`Inv`) is about the refreshes, and the cache, that have the current
value as their version: what was built is built from the rows that are committed. -/

namespace Windmill.Trigger.Routers

open Lib.Run Routes Function
open Trigger.Clashes (renamed ownServer admin workspaceA trigger)

variable {D : Type}

structure RoutersCache (D : Type) where
  routers : HttpMethod → Option (Router D)
  version : ℕ

/-- A transaction, with the statements that it has still to make. -/
structure Transaction (D : Type) where
  todo : List (List (Row D) → List (Row D))
  change : List (Row D) → List (Row D)
  /-- The last statement was not yet followed by `nextval`. -/
  pending : Bool
  called : Bool

inductive Refresh (D : Type) where
  | versionRead (version : ℕ)
  | loading (version : ℕ) (methods : List HttpMethod) (routers : HttpMethod → Option (Router D))

def Refresh.version : Refresh D → ℕ
  | .versionRead version => version
  | .loading version _ _ => version

/-- The committed rows, the sequence and the cache. -/
structure State (D : Type) where
  rows : List (Row D)
  lastValue : ℕ
  transactions : ℕ → Option (Transaction D)
  refreshes : ℕ → Option (Refresh D)
  cache : RoutersCache D

/-- A statement of a transaction or of a refresh. -/
inductive Action (D : Type) where
  | beginRequest (t : ℕ) (request : Request D)
  | execute (t : ℕ)
  | increaseTriggerVersion (t : ℕ)
  | commit (t : ℕ)
  | rollback (t : ℕ)
  | readVersion (r : ℕ)
  | compare (r : ℕ)
  | load (r : ℕ)
  | store (r : ℕ)

def allMethods : List HttpMethod := [.get, .post, .put, .patch, .delete]

def State.setTransaction (s : State D) (t : ℕ) (tx : Option (Transaction D)) : State D :=
  { s with transactions := Function.update s.transactions t tx }

def State.setRefresh (s : State D) (r : ℕ) (refresh : Option (Refresh D)) : State D :=
  { s with refreshes := Function.update s.refreshes r refresh }

/-- One statement. -/
def step (cfg : Settings) (conflict : List Char → List Char → Bool) (s : State D) :
    Action D → Option (State D)
  | .beginRequest t request =>
    match s.transactions t with
    | none => some (s.setTransaction t (some ⟨statements cfg request, id, false, false⟩))
    | some _ => none
  | .execute t =>
    match s.transactions t with
    | some ⟨statement :: todo, change, false, called⟩ =>
      some (s.setTransaction t (some ⟨todo, statement ∘ change, true, called⟩))
    | _ => none
  | .increaseTriggerVersion t =>
    match s.transactions t with
    | some ⟨todo, change, true, _⟩ =>
      some { s.setTransaction t (some ⟨todo, change, false, true⟩) with lastValue :=
        s.lastValue + 1 }
    | _ => none
  | .commit t =>
    match s.transactions t with
    | some ⟨[], change, false, _⟩ => some { s.setTransaction t none with rows := change s.rows }
    | _ => none
  | .rollback t => some (s.setTransaction t none)
  | .readVersion r =>
    match s.refreshes r with
    | none => some (s.setRefresh r (some (.versionRead s.lastValue)))
    | some _ => none
  | .compare r =>
    match s.refreshes r with
    | some (.versionRead version) =>
      if s.cache.version = 0 ∨ version > s.cache.version then
        some (s.setRefresh r (some (.loading version allMethods fun _ => none)))
      else some (s.setRefresh r none)
    | _ => none
  | .load r =>
    match s.refreshes r with
    | some (.loading version (method :: methods) routers) =>
      let router := buildRouter cfg conflict s.rows method
      some (s.setRefresh r (some
        (.loading version methods (Function.update routers method (some router)))))
    | _ => none
  | .store r =>
    match s.refreshes r with
    | some (.loading version [] routers) =>
      some { s.setRefresh r none with cache := ⟨routers, version⟩ }
    | _ => none

/-- The server starts with an empty cache, and the sequence was called. -/
def initial (rows : List (Row D)) (lastValue : ℕ) : State D where
  rows := rows
  lastValue := lastValue
  transactions _ := none
  refreshes _ := none
  cache := ⟨fun _ => none, 0⟩

/-- **The routers are built from exactly these rows.** -/
def BuiltFrom (cfg : Settings) (conflict : List Char → List Char → Bool) (rows : List (Row D))
    (routers : HttpMethod → Option (Router D)) : Prop :=
  ∀ method, routers method = some (buildRouter cfg conflict rows method)

def Quiet (s : State D) : Prop := ∀ t tx, s.transactions t = some tx → tx.called = false

/-- A refresh does not read the version while a transaction that has called `nextval` is open. -/
def ReadsSettled (s : State D) : Action D → Prop
  | .readVersion _ => Quiet s
  | _ => True

/-- What a refresh has built, if its version is the current value. -/
def Refresh.Current (cfg : Settings) (conflict : List Char → List Char → Bool)
    (rows : List (Row D)) : Refresh D → Prop
  | .versionRead _ => True
  | .loading _ methods routers =>
    ∀ method, method ∈ methods ∨ routers method = some (buildRouter cfg conflict rows method)

structure Inv (cfg : Settings) (conflict : List Char → List Char → Bool) (s : State D) : Prop where
  /-- A transaction has changed nothing before it calls `nextval`, apart from its last statement. -/
  unchanged : ∀ t tx, s.transactions t = some tx → tx.called = false → tx.pending = false →
    tx.change = id
  cacheVersion : s.cache.version ≤ s.lastValue
  cache : s.cache.version = s.lastValue → Quiet s ∧ BuiltFrom cfg conflict s.rows s.cache.routers
  refreshVersion : ∀ r refresh, s.refreshes r = some refresh → refresh.version ≤ s.lastValue
  refresh : ∀ r refresh, s.refreshes r = some refresh → refresh.version = s.lastValue →
    Quiet s ∧ refresh.Current cfg conflict s.rows

variable {t : ℕ} {tx : Option (Transaction D)} {refresh : Option (Refresh D)}

section Steps

variable {cfg : Settings} {conflict : List Char → List Char → Bool} {s s' : State D} {a : Action D}

lemma transactions_setTransaction {t' : ℕ} {tx'}
    (h : (s.setTransaction t tx).transactions t' = some tx') :
    tx = some tx' ∨ s.transactions t' = some tx' := by
  unfold State.setTransaction at h
  dsimp only at h
  by_cases ht : t' = t
  · subst ht
    rw [update_self] at h
    exact .inl h
  · rw [update_of_ne ht] at h
    exact .inr h

lemma refreshes_setRefresh {r r' : ℕ} {refresh'}
    (h : (s.setRefresh r refresh).refreshes r' = some refresh') :
    refresh = some refresh' ∨ s.refreshes r' = some refresh' := by
  unfold State.setRefresh at h
  dsimp only at h
  by_cases hr : r' = r
  · subst hr
    rw [update_self] at h
    exact .inl h
  · rw [update_of_ne hr] at h
    exact .inr h

lemma quiet_setTransaction (h : Quiet s) (htx : ∀ tx', tx = some tx' → tx'.called = false) :
    Quiet (s.setTransaction t tx) := by
  intro t' tx' htx'
  rcases transactions_setTransaction htx' with heq | hold
  · exact htx tx' heq
  · exact h t' tx' hold

lemma Inv.setTransaction (h : Inv cfg conflict s)
    (hcall : Quiet s → ∀ tx', tx = some tx' → tx'.called = false)
    (hchange : ∀ tx', tx = some tx' → tx'.called = false → tx'.pending = false → tx'.change = id) :
    Inv cfg conflict (s.setTransaction t tx) := by
  refine ⟨fun t' tx' htx' hcall' hpend' => ?_, h.cacheVersion, fun hv => ?_, h.refreshVersion,
    fun r refresh hr hv => ?_⟩
  · rcases transactions_setTransaction htx' with heq | hold
    · exact hchange tx' heq hcall' hpend'
    · exact h.unchanged t' tx' hold hcall' hpend'
  · obtain ⟨hquiet, hbuilt⟩ := h.cache hv
    exact ⟨quiet_setTransaction hquiet (hcall hquiet), hbuilt⟩
  · obtain ⟨hquiet, hcur⟩ := h.refresh r refresh hr hv
    exact ⟨quiet_setTransaction hquiet (hcall hquiet), hcur⟩

lemma Inv.setRefresh (h : Inv cfg conflict s) {r : ℕ}
    (href : ∀ refresh', refresh = some refresh' → refresh'.version ≤ s.lastValue ∧
      (refresh'.version = s.lastValue → Quiet s ∧ refresh'.Current cfg conflict s.rows)) :
    Inv cfg conflict (s.setRefresh r refresh) := by
  refine ⟨h.unchanged, h.cacheVersion, h.cache, fun r' refresh' hr' => ?_,
    fun r' refresh' hr' => ?_⟩
  · rcases refreshes_setRefresh hr' with heq | hold
    · exact (href refresh' heq).1
    · exact h.refreshVersion r' refresh' hold
  · rcases refreshes_setRefresh hr' with heq | hold
    · exact (href refresh' heq).2
    · exact h.refresh r' refresh' hold

lemma Inv.increase (h : Inv cfg conflict s) {tx} (hcall : tx.called = true) :
    Inv cfg conflict { s.setTransaction t (some tx) with lastValue := s.lastValue + 1 } := by
  have hcache := h.cacheVersion
  refine ⟨fun t' tx' htx' hcall' hpend' => ?_, Nat.le_succ_of_le hcache, fun hv => ?_,
    fun r refresh hr => ?_, fun r refresh hr hv => ?_⟩
  · rcases transactions_setTransaction htx' with heq | hold
    · cases heq
      simp [hcall] at hcall'
    · exact h.unchanged t' tx' hold hcall' hpend'
  · have hv' : s.cache.version = s.lastValue + 1 := hv
    omega
  · exact Nat.le_succ_of_le (h.refreshVersion r refresh hr)
  · have hle := h.refreshVersion r refresh hr
    have hv' : refresh.version = s.lastValue + 1 := hv
    omega

lemma Inv.commit (h : Inv cfg conflict s) {change called}
    (htx : s.transactions t = some ⟨[], change, false, called⟩) :
    Inv cfg conflict { s.setTransaction t none with rows := change s.rows } := by
  have hend : Inv cfg conflict (s.setTransaction t none) :=
    h.setTransaction nofun nofun
  have hrows : Quiet s → change s.rows = s.rows := by
    intro hquiet
    have hid : change = id := h.unchanged t _ htx (hquiet t _ htx) rfl
    rw [hid]
    rfl
  refine ⟨hend.unchanged, hend.cacheVersion, fun hv => ?_, hend.refreshVersion,
    fun r refresh hr hv => ?_⟩
  · have hbuilt := hend.cache hv
    refine ⟨hbuilt.1, ?_⟩
    rw [hrows (h.cache hv).1]
    exact hbuilt.2
  · have hcur := hend.refresh r refresh hr hv
    refine ⟨hcur.1, ?_⟩
    rw [hrows (h.refresh r refresh hr hv).1]
    exact hcur.2

lemma Inv.store (h : Inv cfg conflict s) {r version : ℕ} {routers}
    (hr : s.refreshes r = some (.loading version [] routers)) :
    Inv cfg conflict { s.setRefresh r none with cache := ⟨routers, version⟩ } := by
  have hend : Inv cfg conflict (s.setRefresh r none) :=
    h.setRefresh nofun
  refine ⟨hend.unchanged, h.refreshVersion r _ hr, fun hv => ?_, hend.refreshVersion, hend.refresh⟩
  obtain ⟨hquiet, hcur⟩ := h.refresh r _ hr hv
  exact ⟨hquiet, fun method => (hcur method).resolve_left List.not_mem_nil⟩

lemma readsSettled_of_quiet (h : Quiet s) (a : Action D) : ReadsSettled s a := by
  cases a <;> first | exact h | trivial

/-- **A step keeps the invariant**, if it reads no version that belongs to an open transaction. -/
theorem inv_step (h : Inv cfg conflict s) (hset : ReadsSettled s a)
    (hstep : step cfg conflict s a = some s') : Inv cfg conflict s' := by
  unfold step at hstep
  cases a with
  | beginRequest t request =>
    dsimp only at hstep
    split at hstep
    · cases hstep
      refine h.setTransaction (fun _ tx' heq => ?_) fun tx' heq _ _ => ?_
      · cases heq
        rfl
      · cases heq
        rfl
    · cases hstep
  | execute t =>
    dsimp only at hstep
    split at hstep
    · case _ htx =>
      cases hstep
      refine h.setTransaction (fun hquiet tx' heq => ?_) fun tx' heq _ hpend => ?_
      · have hcall := hquiet t _ htx
        cases heq
        exact hcall
      · cases heq
        cases hpend
    · cases hstep
  | increaseTriggerVersion t =>
    dsimp only at hstep
    split at hstep
    · cases hstep
      exact h.increase rfl
    · cases hstep
  | commit t =>
    dsimp only at hstep
    split at hstep
    · case _ htx =>
      cases hstep
      exact h.commit htx
    · cases hstep
  | rollback t =>
    cases hstep
    exact h.setTransaction nofun nofun
  | readVersion r =>
    dsimp only at hstep
    split at hstep
    · cases hstep
      refine h.setRefresh fun refresh' heq => ?_
      cases heq
      exact ⟨le_rfl, fun _ => ⟨hset, trivial⟩⟩
    · cases hstep
  | compare r =>
    dsimp only at hstep
    split at hstep
    · case _ version hr =>
      have hle : version ≤ s.lastValue := h.refreshVersion r _ hr
      have hcur : version = s.lastValue → Quiet s := fun hv => (h.refresh r _ hr hv).1
      split_ifs at hstep
      · cases hstep
        refine h.setRefresh fun refresh' heq => ?_
        cases heq
        exact ⟨hle, fun hv => ⟨hcur hv, fun method => .inl (by cases method <;> decide)⟩⟩
      · cases hstep
        exact h.setRefresh nofun
    · cases hstep
  | load r =>
    dsimp only at hstep
    split at hstep
    · case _ version method methods routers hr =>
      have hle : version ≤ s.lastValue := h.refreshVersion r _ hr
      have hold : version = s.lastValue → _ := fun hv => h.refresh r _ hr hv
      cases hstep
      refine h.setRefresh fun refresh' heq => ?_
      cases heq
      refine ⟨hle, fun hv => ?_⟩
      obtain ⟨hquiet, hcur⟩ := hold hv
      refine ⟨hquiet, fun m => ?_⟩
      by_cases hm : m = method
      · subst hm
        exact .inr (update_self ..)
      · rcases hcur m with hmem | hbuilt
        · exact .inl ((List.mem_cons.mp hmem).resolve_left hm)
        · exact .inr (by rw [update_of_ne hm]; exact hbuilt)
    · cases hstep
  | store r =>
    dsimp only at hstep
    split at hstep
    · case _ hr =>
      cases hstep
      exact h.store hr
    · cases hstep

lemma inv_initial {rows : List (Row D)} {lastValue : ℕ} (h : 0 < lastValue) :
    Inv cfg conflict (initial rows lastValue) where
  unchanged t tx htx := by cases htx
  cacheVersion := Nat.zero_le _
  cache hv := absurd hv (Nat.ne_of_lt h)
  refreshVersion r refresh hr := by cases hr
  refresh r refresh hr := by cases hr

end Steps

/-! ### After the last transaction -/

def Action.IsRefresh : Action D → Prop
  | .readVersion _ | .compare _ | .load _ | .store _ => True
  | _ => False

/-- All transactions have ended, and the refresh `r`, where it is not done, has read the last value.
-/
structure Fresh (r : ℕ) (committed : List (Row D)) (value : ℕ) (s : State D) : Prop where
  rows : s.rows = committed
  lastValue : s.lastValue = value
  transactions : ∀ t, s.transactions t = none
  version : ∀ refresh, s.refreshes r = some refresh → refresh.version = value

section Fresh

variable {cfg : Settings} {conflict : List Char → List Char → Bool} {s s' : State D} {a : Action D}
  {r value : ℕ} {committed : List (Row D)}

lemma Fresh.quiet (h : Fresh r committed value s) : Quiet s := fun t tx htx => by
  simp [h.transactions t] at htx

lemma Fresh.setRefresh (h : Fresh r committed value s) {r' : ℕ}
    (href : r' = r → ∀ refresh', refresh = some refresh' → refresh'.version = value) :
    Fresh r committed value (s.setRefresh r' refresh) := by
  refine ⟨h.rows, h.lastValue, h.transactions, fun refresh' hr => ?_⟩
  unfold State.setRefresh at hr
  dsimp only at hr
  by_cases hrr : r = r'
  · subst hrr
    rw [update_self] at hr
    exact href rfl refresh' hr
  · rw [update_of_ne hrr] at hr
    exact h.version refresh' hr

lemma fresh_step (h : Fresh r committed value s) (ha : a.IsRefresh)
    (hstep : step cfg conflict s a = some s') : Fresh r committed value s' := by
  unfold step at hstep
  cases a with
  | readVersion r' =>
    dsimp only at hstep
    split at hstep
    · cases hstep
      refine h.setRefresh fun _ refresh' heq => ?_
      cases heq
      exact h.lastValue
    · cases hstep
  | compare r' =>
    dsimp only at hstep
    split at hstep
    · case _ version hr =>
      have hver : r' = r → version = value := fun hrr => h.version (.versionRead version) (hrr ▸ hr)
      split_ifs at hstep
      · cases hstep
        refine h.setRefresh fun hrr refresh' heq => ?_
        cases heq
        exact hver hrr
      · cases hstep
        exact h.setRefresh nofun
    · cases hstep
  | load r' =>
    dsimp only at hstep
    split at hstep
    · case _ version method methods routers hr =>
      have hver : r' = r → version = value :=
        fun hrr => h.version (.loading version (method :: methods) routers) (hrr ▸ hr)
      cases hstep
      refine h.setRefresh fun hrr refresh' heq => ?_
      cases heq
      exact hver hrr
    · cases hstep
  | store r' =>
    dsimp only at hstep
    split at hstep
    · cases hstep
      have hend : Fresh r committed value (s.setRefresh r' none) :=
        h.setRefresh nofun
      exact ⟨hend.rows, hend.lastValue, hend.transactions, hend.version⟩
    · cases hstep
  | beginRequest | execute | increaseTriggerVersion | commit | rollback => cases ha

lemma version_of_end (h : Fresh r committed value s) (hinv : Inv cfg conflict s)
    (ha : a = .compare r ∨ a = .store r)
    (hstep : step cfg conflict s a = some s') (hdone : s'.refreshes r = none) :
    s'.cache.version = s'.lastValue := by
  rcases ha with rfl | rfl
  · unfold step at hstep
    dsimp only at hstep
    split at hstep
    · case _ version hr =>
      have hver : version = s.lastValue :=
        (h.version (.versionRead version) hr).trans h.lastValue.symm
      have hle := hinv.cacheVersion
      split_ifs at hstep with hneeded
      · cases hstep
        simp [State.setRefresh] at hdone
      · cases hstep
        have hge : version ≤ s.cache.version := by omega
        exact Nat.le_antisymm hle (hver ▸ hge)
    · cases hstep
  · unfold step at hstep
    dsimp only at hstep
    split at hstep
    · case _ version routers hr =>
      cases hstep
      exact (h.version (.loading version [] routers) hr).trans h.lastValue.symm
    · cases hstep

end Fresh

/-- **Routers catch up with the stored triggers**: after the last transaction a call of
`refresh_routers` leaves a cache built from the committed rows, if no refresh has read the version
while a transaction with a `nextval` was open. -/
theorem refresh_catches_up {cfg : Settings} {conflict : List Char → List Char → Bool}
    {rows : List (Row D)}
    {lastValue r : ℕ} {before during : List (Action D)} {a : Action D} {s₁ s₂ s₃ : State D}
    (hcalled : 0 < lastValue)
    (hsettled : Meets (step cfg conflict) ReadsSettled before (initial rows lastValue))
    (hbefore : run (step cfg conflict) before (initial rows lastValue) = some s₁)
    (hended : ∀ t, s₁.transactions t = none) (hduring : ∀ b ∈ during, b.IsRefresh)
    (hrun : run (step cfg conflict) (.readVersion r :: during) s₁ = some s₂)
    (ha : a = .compare r ∨ a = .store r)
    (hend : step cfg conflict s₂ a = some s₃) (hdone : s₃.refreshes r = none) :
    s₃.rows = s₁.rows ∧ BuiltFrom cfg conflict s₃.rows s₃.cache.routers := by
  have hinv₁ : Inv cfg conflict s₁ :=
    run_invariant (fun h hc hs => inv_step h hc hs) (inv_initial hcalled) hsettled hbefore
  obtain ⟨s, hread, hrest⟩ := run_cons hrun
  have hquiet : Quiet s₁ := fun t tx htx => by
    simp [hended t] at htx
  have hinv : Inv cfg conflict s := inv_step hinv₁ (readsSettled_of_quiet hquiet _) hread
  have hfresh : Fresh r s₁.rows s₁.lastValue s := by
    unfold step at hread
    dsimp only at hread
    split at hread
    · cases hread
      refine ⟨rfl, rfl, hended, fun refresh hr => ?_⟩
      simp only [State.setRefresh, update_self] at hr
      cases hr
      rfl
    · cases hread
  have hboth : Inv cfg conflict s₂ ∧ Fresh r s₁.rows s₁.lastValue s₂ := by
    have hstep : ∀ {as : List (Action D)} {u b v},
      (Inv cfg conflict u ∧ Fresh r s₁.rows s₁.lastValue u) → b.IsRefresh →
        step cfg conflict u b = some v → Inv cfg conflict v ∧ Fresh r s₁.rows s₁.lastValue v :=
      fun h hb hs => ⟨inv_step h.1 (readsSettled_of_quiet h.2.quiet _) hs, fresh_step h.2 hb hs⟩
    exact @run_history _ _ _ Action.IsRefresh (fun _ u => Inv cfg conflict u ∧
      Fresh r s₁.rows s₁.lastValue u) @hstep during [] s s₂ ⟨hinv, hfresh⟩ hduring hrest
  have ha' : a.IsRefresh := by rcases ha with rfl | rfl <;> trivial
  have hsettled' : ReadsSettled s₂ a := by rcases ha with rfl | rfl <;> trivial
  have hinv₃ := inv_step hboth.1 hsettled' hend
  have hfresh₃ := fresh_step hboth.2 ha' hend
  exact ⟨hfresh₃.rows, (hinv₃.cache (version_of_end hboth.2 hboth.1 ha hend hdone)).2⟩

/-! ### Instances -/

def creation : Request Unit := .create admin workspaceA (trigger "f/x/users" "users/:id" .get none)

def refreshAll (r : ℕ) : List (Action Unit) :=
  [.readVersion r, .compare r, .load r, .load r, .load r, .load r, .load r, .store r]

def createThenRefresh : List (Action Unit) :=
  [.beginRequest 0 creation, .execute 0, .increaseTriggerVersion 0, .commit 0] ++ refreshAll 0

def refreshThenCommit : List (Action Unit) :=
  [.beginRequest 0 creation, .execute 0, .increaseTriggerVersion 0] ++ refreshAll 0 ++ [.commit 0]

def sameKey (path path' : List Char) : Bool := renamed path = renamed path'

theorem createThenRefresh_catches_up : ∃ s₁ s₂ s₃,
    run (step ownServer sameKey) createThenRefresh (initial [] 1) = some s₁ ∧ s₁.rows.length = 1 ∧
    run (step ownServer sameKey) [.readVersion 1] s₁ = some s₂ ∧ step ownServer sameKey s₂
    (.compare 1) = some s₃ ∧
    s₃.refreshes 1 = none ∧ BuiltFrom ownServer sameKey s₃.rows s₃.cache.routers := by
  have hset : Meets (step ownServer sameKey) ReadsSettled createThenRefresh (initial [] 1) := by
    refine meets_cons trivial rfl
      (meets_cons trivial rfl (meets_cons trivial rfl (meets_cons trivial rfl
      (meets_cons (fun t tx htx => ?_) rfl
        (meets_cons trivial rfl (meets_cons trivial rfl (meets_cons trivial rfl
        (meets_cons trivial rfl (meets_cons trivial rfl
          (meets_cons trivial rfl (meets_cons trivial rfl trivial)))))))))))
    simp [State.setTransaction, initial] at htx
  refine ⟨_, _, _, rfl, rfl, rfl, rfl, rfl, ?_⟩
  refine (refresh_catches_up (r := 1) (a := .compare 1) Nat.one_pos hset rfl (fun t => ?_)
    (fun b hb => absurd hb List.not_mem_nil) rfl (.inl rfl) rfl rfl).2
  simp [State.setTransaction, State.setRefresh, initial]

/-- A refresh between `nextval` and the commit stores the old rows with the new version. -/
theorem refreshThenCommit_stale : ∃ s₁ s₂ s₃,
    run (step ownServer sameKey) refreshThenCommit (initial [] 1) = some s₁ ∧
    (∀ t, s₁.transactions t = none) ∧
    run (step ownServer sameKey) [.readVersion 1] s₁ = some s₂ ∧ step ownServer sameKey s₂
    (.compare 1) = some s₃ ∧
    s₃.refreshes 1 = none ∧ ¬BuiltFrom ownServer sameKey s₃.rows s₃.cache.routers := by
  refine ⟨_, _, _, rfl, fun t => ?_, rfl, rfl, rfl, fun h => ?_⟩
  · simp [State.setTransaction, State.setRefresh, initial]
  · have hget := h .get
    cases hget

end Windmill.Trigger.Routers
