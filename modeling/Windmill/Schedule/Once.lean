import Windmill.Schedule.Tick
import Windmill.Lib.Run
import Windmill.Lib.Slots

/-! # The instants of the jobs of a schedule

The transactions that push the next tick of a schedule, in any interleaving: the completion of a
job, `handle_flow` of a job, and the edit of the schedule. Isolation is read committed: a statement
sees what was committed before it, and what its own transaction did. The check of an instant and the
insertion are two statements. Where no check is made while another transaction is about to insert
the instant, no two jobs of the schedule are ever for the same instant (`instants_distinct`). -/

namespace Windmill.Schedule.Once

open Tick Lib.Run Lib.Slots List Option

structure Scheduling where
  scriptPath : String
  cron : Cron
  enabled : Bool
  pausedUntil : Option ℤ

structure Job where
  scheduledFor : ℤ
  runnablePath : String
  running : Bool
  completed : Bool

inductive Stage where
  | begun
  | computed (next : ℤ)
  /-- The check was made: the instant for which a job is inserted. -/
  | decided (insertion : Option ℤ)
  deriving DecidableEq

structure Flight where
  schedule : Scheduling
  nowCutoff : Option ℤ
  own : Option ℕ
  cleared : List ℕ
  edits : Bool
  pauseOver : Bool
  stage : Stage

/-- The clock, the jobs and the transactions. -/
structure State where
  clock : ℤ
  jobs : List (Option Job)
  schedule : Scheduling
  flights : List Flight

/-- What may happen: a tick of the clock or a statement. -/
inductive Action where
  | tick (d : ℕ)
  | pull (i : ℕ)
  | finish (i : ℕ)
  | completion (i : ℕ)
  | handleFlow (i : ℕ)
  | edit (schedule : Scheduling)
  | read (k : ℕ)
  | check (k : ℕ)
  | commit (k : ℕ)

variable (jobs : List (Option Job))

def toDelete : List ℕ :=
  (List.range jobs.length).filter fun i =>
    ((get jobs i).map fun j => !j.running && !j.completed).getD false

def pushesFor (s : State) (j : Job) : Bool :=
  j.running && !j.completed && s.schedule.enabled && decide (j.runnablePath = s.schedule.scriptPath)

def alreadyExists (f : Flight) (next : ℤ) : Bool :=
  (List.range jobs.length).any fun i => ((get jobs i).map fun j =>
    !j.completed && decide (f.own ≠ some i) && decide (i ∉ f.cleared) &&
      decide (j.runnablePath = f.schedule.scriptPath) && decide (j.scheduledFor = next)).getD false

def settle (f : Flight) (i : ℕ) (slot : Option Job) : Option Job :=
  if i ∈ f.cleared then none
  else if f.own = some i then slot.map fun j => { j with completed := true }
  else slot

def Flight.leaves (f : Flight) (schedule : Scheduling) : Scheduling :=
  let left := if f.edits then f.schedule else schedule
  if f.pauseOver then { left with pausedUntil := none } else left

/-- One action, if it is possible. -/
def step (s : State) : Action → Option State
  | .tick d => some { s with clock := s.clock + d }
  | .pull i => (get s.jobs i).bind fun j =>
    -- a row that is being deleted is locked
    if j.running = false ∧ j.scheduledFor ≤ s.clock ∧ ∀ f ∈ s.flights, i ∉ f.cleared then
      some { s with jobs := s.jobs.set i (some { j with running := true }) }
    else none
  | .finish i => (get s.jobs i).bind fun j =>
    if j.running = true ∧ j.completed = false ∧ ∀ f ∈ s.flights, f.own ≠ some i then
      some { s with jobs := s.jobs.set i (some { j with completed := true }) }
    else none
  | .completion i => (get s.jobs i).bind fun j =>
    if pushesFor s j = true ∧ ∀ f ∈ s.flights, f.own ≠ some i then
      some { s with flights := s.flights ++
        [⟨s.schedule, some j.scheduledFor, some i, [], false, false, .begun⟩] }
    else none
  | .handleFlow i => (get s.jobs i).bind fun j =>
    if pushesFor s j = true then
      some { s with flights := s.flights ++
        [⟨s.schedule, some j.scheduledFor, none, [], false, false, .begun⟩] }
    else none
  | .edit schedule =>
    -- the row of the schedule is locked by the edit
    if ∀ f ∈ s.flights, f.edits = false then
      some { s with
        flights := s.flights ++ [⟨schedule, none, none, toDelete s.jobs, true, false,
          if schedule.enabled then .begun else .decided none⟩] }
    else none
  | .read k => s.flights[k]?.bind fun f =>
    match f.stage with
    | .begun =>
      let now := effectiveNow s.clock f.nowCutoff
      some { s with
        flights := s.flights.set k { f with
          pauseOver := (f.schedule.pausedUntil.map fun paused => decide (paused ≤ now)).getD false
          stage := .computed (f.schedule.cron.next s.clock f.nowCutoff f.schedule.pausedUntil) } }
    | _ => none
  | .check k => s.flights[k]?.bind fun f =>
    match f.stage with
    | .computed next =>
      some { s with
        flights := s.flights.set k { f with
          stage := .decided (if alreadyExists s.jobs f next then none else some next) } }
    | _ => none
  | .commit k => s.flights[k]?.bind fun f =>
    match f.stage with
    | .decided insertion =>
      some { s with
        jobs := s.jobs.mapIdx (settle f) ++
          (insertion.map fun next => some ⟨next, f.schedule.scriptPath, false, false⟩).toList
        schedule := f.leaves s.schedule
        flights := s.flights.eraseIdx k }
    | _ => none

def State.start (clock : ℤ) (schedule : Scheduling) : State := ⟨clock, [], schedule, []⟩

/-! ### The invariant -/

/-- No two jobs are for the same instant. -/
def Distinct : Prop := ∀ i j a b, Has jobs i a → Has jobs j b →
  a.scheduledFor = b.scheduledFor → i = j

/-- What is known of the instant of a transaction. -/
def Stage.Free (f : Flight) : Stage → Prop
  | .begun => True
  | .computed next => ∀ i a, Has jobs i a → i ∉ f.cleared →
    (a.runnablePath ≠ f.schedule.scriptPath ∨ a.completed = true ∨ f.own = some i) →
    a.scheduledFor ≠ next
  | .decided insertion => ∀ next, insertion = some next → ∀ i a, Has jobs i a → i ∉ f.cleared →
    a.scheduledFor ≠ next

structure FlightOk (s : State) (f : Flight) : Prop where
  /-- Jobs of another path run already. -/
  others : ∀ i a, Has s.jobs i a → i ∉ f.cleared → a.runnablePath ≠ f.schedule.scriptPath →
    a.running = true
  kept : f.edits = true → ∀ i a, Has s.jobs i a → i ∉ f.cleared → a.running = true
  path : f.edits = false → f.schedule.scriptPath = s.schedule.scriptPath ∧ f.cleared = []
  own : ∀ i, f.own = some i → ∃ a, Has s.jobs i a ∧ a.running = true
  free : f.stage.Free s.jobs f

/-- No two transactions are about to insert one instant. -/
def Apart (flights : List Flight) : Prop :=
  ∀ (k l : ℕ) (f g : Flight) (next : ℤ), flights[k]? = some f →
  flights[l]? = some g → f.stage = .decided (some next) → g.stage = .decided (some next) → k = l

structure Inv (s : State) : Prop where
  /-- An edit is alone. -/
  edits : ∀ f ∈ s.flights, f.edits = true → s.flights.length = 1
  apart : Apart s.flights
  distinct : Distinct s.jobs
  started : ∀ i a, Has s.jobs i a → a.running = true → a.scheduledFor ≤ s.clock
  completed : ∀ i a, Has s.jobs i a → a.completed = true → a.running = true
  others : ∀ i a, Has s.jobs i a → a.runnablePath ≠ s.schedule.scriptPath → a.running = true
  flight : ∀ f ∈ s.flights, FlightOk s f

/-- The job is not for the instant of a transaction that has not made its check. -/
def Unawaited (s : State) (i : ℕ) : Prop :=
  ∀ f ∈ s.flights, ∀ a ∈ get s.jobs i, f.stage ≠ .computed a.scheduledFor

instance decidableUnawaited (s : State) (i : ℕ) : Decidable (Unawaited s i) :=
  inferInstanceAs (Decidable (∀ f ∈ s.flights, ∀ a ∈ get s.jobs i,
    f.stage ≠ .computed a.scheduledFor))

/-- One transaction is about to check an instant, another to insert it. -/
def Stage.races : Stage → Stage → Bool
  | .computed next, .decided insertion => insertion == some next
  | _, _ => false

/-- What a step must meet: no other transaction overlaps an edit, a check is not made while another
transaction is about to insert the instant, and no job completes for whose instant a check is still
to be made. -/
def Meeting (s : State) : Action → Prop
  | .completion _ | .handleFlow _ => ∀ f ∈ s.flights, f.edits = false
  | .edit _ => s.flights = []
  | .check k => ∀ f ∈ s.flights[k]?, ∀ g ∈ s.flights, f.stage.races g.stage = false
  | .finish i => Unawaited s i
  | .commit k => ∀ f ∈ s.flights[k]?, ∀ i ∈ f.own, Unawaited s i
  | _ => True

instance decidableMeeting (s : State) : DecidablePred (Meeting s)
  | .completion _ | .handleFlow _ => inferInstanceAs (Decidable (∀ f ∈ s.flights, f.edits = false))
  | .edit _ => inferInstanceAs (Decidable (s.flights = []))
  | .check k => inferInstanceAs
      (Decidable (∀ f ∈ s.flights[k]?, ∀ g ∈ s.flights, f.stage.races g.stage = false))
  | .finish i => decidableUnawaited s i
  | .commit k => inferInstanceAs (Decidable (∀ f ∈ s.flights[k]?, ∀ i ∈ f.own, Unawaited s i))
  | .tick _ | .pull _ | .read _ => inferInstanceAs (Decidable True)

/-! ### The steps -/

variable {s s' : State} {i k : ℕ} {j a : Job} {f : Flight}

lemma running_of_pushesFor (h : pushesFor s j = true) : j.running = true := by
  unfold pushesFor at h
  simp only [Bool.and_eq_true] at h
  exact h.1.1.1

/-- How a completion or a call of `handle_flow` begins. -/
def Begins (s s' : State) (i : ℕ) (own : Option ℕ) : Prop :=
  ∃ j, Has s.jobs i j ∧ j.running = true ∧
    s' = { s with flights := s.flights ++
      [⟨s.schedule, some j.scheduledFor, own, [], false, false, .begun⟩] }

lemma Inv.update {j' : Job} (h : Inv s) (hi : Has s.jobs i j)
    (hinst : j'.scheduledFor = j.scheduledFor)
    (hpath : j'.runnablePath = j.runnablePath) (hrunning : j'.running = true)
    (hclock : j.scheduledFor ≤ s.clock)
    (hfree : ∀ f ∈ s.flights, ∀ next, f.stage = .computed next → j'.completed = true →
      j.completed = true ∨ j.scheduledFor ≠ next) :
    Inv { s with jobs := s.jobs.set i (some j') } := by
  -- every row was there, with the same instant and path
  have hold : ∀ k a, Has (s.jobs.set i (some j')) k a → ∃ b, Has s.jobs k b ∧
      a.scheduledFor = b.scheduledFor ∧ a.runnablePath = b.runnablePath := by
    intro k a hk
    rcases has_set hi hk with ⟨rfl, rfl⟩ | ⟨-, hk⟩
    · exact ⟨j, hi, hinst, hpath⟩
    · exact ⟨a, hk, rfl, rfl⟩
  have hrun : ∀ k a, Has (s.jobs.set i (some j')) k a → a.running = true ∨ Has s.jobs k a := by
    intro k a hk
    rcases has_set hi hk with ⟨-, rfl⟩ | ⟨-, hk⟩
    · exact .inl hrunning
    · exact .inr hk
  refine ⟨h.edits, h.apart, ?_, ?_, ?_, ?_, ?_⟩
  · intro k l a b hk hl heq
    obtain ⟨a', hk', ha, -⟩ := hold k a hk
    obtain ⟨b', hl', hb, -⟩ := hold l b hl
    exact h.distinct k l a' b' hk' hl' (by rw [← ha, ← hb, heq])
  · intro k a hk ha
    rcases has_set hi hk with ⟨-, rfl⟩ | ⟨-, hk⟩
    · rw [hinst]
      exact hclock
    · exact h.started k a hk ha
  · intro k a hk ha
    exact (hrun k a hk).elim id fun hk => h.completed k a hk ha
  · intro k a hk ha
    exact (hrun k a hk).elim id fun hk => h.others k a hk ha
  · intro f hf
    have hok := h.flight f hf
    refine ⟨fun k a hk hc ha => ?_, fun he k a hk hc => ?_, hok.path, fun k hown => ?_, ?_⟩
    · exact (hrun k a hk).elim id fun hk => hok.others k a hk hc ha
    · exact (hrun k a hk).elim id fun hk => hok.kept he k a hk hc
    · obtain ⟨a, ha, hrun⟩ := hok.own k hown
      by_cases hki : k = i
      · subst hki
        exact ⟨j', (has_set_self hi).mpr rfl, hrunning⟩
      · exact ⟨a, (has_set_of_ne hki).mpr ha, hrun⟩
    have hfr := hok.free
    cases hstage : f.stage with
    | begun => trivial
    | computed next =>
      rw [hstage] at hfr
      intro k a hk hc ha
      rcases has_set hi hk with ⟨rfl, rfl⟩ | ⟨-, hk⟩
      · rw [hinst]
        rcases ha with ha | ha | ha
        · exact hfr k j hi hc (.inl (hpath ▸ ha))
        · exact (hfree f hf next hstage ha).elim (fun hcomp => hfr k j hi hc (.inr (.inl hcomp))) id
        · exact hfr k j hi hc (.inr (.inr ha))
      · exact hfr k a hk hc ha
    | decided insertion =>
      rw [hstage] at hfr
      intro next hnext k a hk hc
      obtain ⟨b, hb, heq, -⟩ := hold k a hk
      rw [heq]
      exact hfr next hnext k b hb hc

lemma Inv.fly {flights} (h : Inv s) (hedits : ∀ f ∈ flights, f.edits = true → flights.length = 1)
    (hapart : Apart flights) (hok : ∀ f ∈ flights, FlightOk s f) :
    Inv { s with flights := flights } := by
  refine ⟨hedits, hapart, h.distinct, h.started, h.completed, h.others, fun f hf => ?_⟩
  have hf := hok f hf
  exact ⟨hf.others, hf.kept, hf.path, hf.own, hf.free⟩

lemma Inv.move {f' : Flight} (h : Inv s) (hf : s.flights[k]? = some f) (hsame : f'.edits = f.edits)
    (hapart : ∀ next, f'.stage = .decided (some next) → ∀ g ∈ s.flights, g.stage ≠ .decided
    (some next))
    (hok : FlightOk s f → FlightOk s f') : Inv { s with flights := s.flights.set k f' } := by
  have hmem := mem_of_getElem? hf
  have hnew : ∀ l g, (s.flights.set k f')[l]? = some g → l = k ∧ g = f' ∨
      s.flights[l]? = some g := by
    intro l g hg
    by_cases hl : k = l
    · subst hl
      rw [getElem?_set_self (List.getElem?_eq_some_iff.mp hf).1] at hg
      exact .inl ⟨rfl, (some.inj hg).symm⟩
    · rw [getElem?_set_ne hl] at hg
      exact .inr hg
  refine h.fly (fun g hg hedit => ?_) (fun l m g g' next hl hm hg hg' => ?_) fun g hg => ?_
  · obtain ⟨l, hl⟩ := getElem?_of_mem hg
    rw [length_set]
    rcases hnew l g hl with ⟨-, rfl⟩ | hl
    · exact h.edits f hmem (hsame ▸ hedit)
    · exact h.edits g (mem_of_getElem? hl) hedit
  · rcases hnew l g hl with ⟨rfl, rfl⟩ | hl' <;> rcases hnew m g' hm with ⟨rfl, rfl⟩ | hm'
    · rfl
    · exact absurd hg' (hapart next hg g' (mem_of_getElem? hm'))
    · exact absurd hg (hapart next hg' g (mem_of_getElem? hl'))
    · exact h.apart l m g g' next hl' hm' hg hg'
  · obtain ⟨l, hl⟩ := getElem?_of_mem hg
    rcases hnew l g hl with ⟨-, rfl⟩ | hl
    · exact hok (h.flight f hmem)
    · exact h.flight g (mem_of_getElem? hl)

lemma Inv.launch (h : Inv s) (hedits : ∀ g ∈ s.flights, g.edits = false)
    (hlone : f.edits = true → s.flights = [])
    (hfresh : ∀ next, f.stage ≠ .decided (some next)) (hok : FlightOk s f) :
    Inv { s with flights := s.flights ++ [f] } := by
  have hold : ∀ (k : ℕ) g, (s.flights ++ [f])[k]? = some g → s.flights[k]? = some g ∨ g = f := by
    intro k g hg
    rw [getElem?_append] at hg
    split_ifs at hg
    · exact .inl hg
    · exact .inr (mem_singleton.mp (mem_of_getElem? hg))
  refine h.fly (fun g hg hedit => ?_) (fun k l g g' next hk hl hg hg' => ?_) fun g hg => ?_
  · rcases mem_append.mp hg with hg | hg
    · simp [hedits g hg] at hedit
    · obtain rfl := mem_singleton.mp hg
      rw [hlone hedit]
      rfl
  · rcases hold k g hk with hk | rfl
    · rcases hold l g' hl with hl | rfl
      · exact h.apart k l g g' next hk hl hg hg'
      · exact absurd hg' (hfresh next)
    · exact absurd hg (hfresh next)
  · rcases mem_append.mp hg with hg | hg
    · exact h.flight g hg
    · obtain rfl := mem_singleton.mp hg
      exact hok

lemma running_of_not_mem_toDelete (hi : Has s.jobs i a)
    (hcomp : a.completed = true → a.running = true)
    (h : i ∉ toDelete s.jobs) : a.running = true := by
  refine Classical.byContradiction fun hr => h ?_
  refine mem_filter.mpr ⟨mem_range.mpr hi.lt, ?_⟩
  have hc : a.completed = false := Bool.eq_false_of_not_eq_true fun hc => hr (hcomp hc)
  rw [get_eq_some.mpr hi, map_some, hc, Bool.eq_false_of_not_eq_true hr]
  rfl

lemma inv_begins {own} (h : Inv s) (hedits : ∀ f ∈ s.flights, f.edits = false)
    (hs : Begins s s' i own) (hown : ∀ l, own = some l → l = i) : Inv s' := by
  obtain ⟨j, hj, hrun, rfl⟩ := hs
  refine h.launch hedits nofun nofun
    ⟨fun k a hk _ ha => h.others k a hk ha, nofun, fun _ => ⟨rfl, rfl⟩,
      fun k hk => ?_, trivial⟩
  cases hown k hk
  exact ⟨j, hj, hrun⟩

lemma inv_edit {schedule : Scheduling} (h : Inv s) (hnone : s.flights = [])
    (hs : step s (.edit schedule) = some s') : Inv s' := by
  obtain ⟨hedits, hs⟩ := ite_none_right_eq_some.mp hs
  cases hs
  have hrun : ∀ i a, Has s.jobs i a → i ∉ toDelete s.jobs → a.running = true := fun i a ha hi =>
    running_of_not_mem_toDelete ha (h.completed i a ha) hi
  refine h.launch hedits (fun _ => hnone) (fun next he => ?_)
    ⟨fun i a ha hi _ => hrun i a ha hi, fun _ => hrun, nofun, fun i hi =>
      (by cases hi), ?_⟩
  · dsimp only at he
    split_ifs at he
    cases he
  · split_ifs
    · trivial
    · intro next hnext
      cases hnext

lemma inv_read (h : Inv s) (hs : step s (.read k) = some s') : Inv s' := by
  obtain ⟨f, hf, hs⟩ := bind_eq_some_iff.mp hs
  split at hs
  swap
  · cases hs
  cases hs
  refine h.move hf rfl nofun fun hok =>
    ⟨hok.others, hok.kept, hok.path, hok.own, fun i a ha hi hor => ?_⟩
  have hrun : a.running = true := by
    rcases hor with hpath | hcomp | hown
    · exact hok.others i a ha hi hpath
    · exact h.completed i a ha hcomp
    · obtain ⟨b, hb, hrun⟩ := hok.own i hown
      exact ha.eq hb ▸ hrun
  exact (lt_of_le_of_lt (h.started i a ha hrun) now_lt_next).ne

lemma inv_check (h : Inv s) (hmeet : Meeting s (.check k)) (hs : step s (.check k) = some s') :
    Inv s' := by
  obtain ⟨f, hf, hs⟩ := bind_eq_some_iff.mp hs
  split at hs
  swap
  · cases hs
  rename_i next hstage
  cases hs
  refine h.move hf rfl (fun next' he => ?_) fun hok => ⟨hok.others, hok.kept, hok.path, hok.own, ?_⟩
  · dsimp only at he
    split_ifs at he
    · cases he
    obtain rfl : next = next' := some.inj (Stage.decided.inj he)
    intro g hg hdec
    have hrace := hmeet f hf g hg
    rw [hstage, hdec, Stage.races, beq_self_eq_true] at hrace
    cases hrace
  have hfree := hok.free
  rw [hstage] at hfree
  split_ifs with hex
  · intro next' hnext
    cases hnext
  intro next' hnext i a ha hi heq
  cases hnext
  by_cases hor : a.runnablePath ≠ f.schedule.scriptPath ∨ a.completed = true ∨ f.own = some i
  · exact hfree i a ha hi hor heq
  · push Not at hor
    refine hex (any_eq_true.mpr ⟨i, mem_range.mpr ha.lt, ?_⟩)
    rw [get_eq_some.mpr ha, map_some, Bool.eq_false_of_not_eq_true hor.2.1, decide_eq_true hor.2.2,
      decide_eq_true hi, decide_eq_true hor.1, decide_eq_true heq]
    rfl

lemma has_settled {insertion} (h : Has (s.jobs.mapIdx (settle f) ++
      (insertion.map fun next => some ⟨next, f.schedule.scriptPath, false, false⟩).toList) i a) :
    (∃ b, Has s.jobs i b ∧ i ∉ f.cleared ∧ a.scheduledFor = b.scheduledFor ∧ a.runnablePath =
    b.runnablePath ∧
      a.running = b.running ∧ (a.completed = true → b.completed = true ∨ f.own = some i)) ∨
    i = s.jobs.length ∧ ∃ next, insertion = some next ∧
    a = ⟨next, f.schedule.scriptPath, false, false⟩ := by
  have hset : Has (s.jobs.mapIdx (settle f)) i a → ∃ b, Has s.jobs i b ∧ i ∉ f.cleared ∧
      a.scheduledFor = b.scheduledFor ∧ a.runnablePath = b.runnablePath ∧ a.running = b.running ∧
      (a.completed = true → b.completed = true ∨ f.own = some i) := by
    intro hi
    unfold Has at hi
    rw [getElem?_mapIdx] at hi
    obtain ⟨slot, hslot, heq⟩ := map_eq_some_iff.mp hi
    unfold settle at heq
    split_ifs at heq with hc hown
    · obtain ⟨b, rfl, rfl⟩ := map_eq_some_iff.mp heq
      exact ⟨b, hslot, hc, rfl, rfl, rfl, fun _ => .inr hown⟩
    · subst heq
      exact ⟨a, hslot, hc, rfl, rfl, rfl, .inl⟩
  cases insertion with
  | none =>
    rw [map_none, toList_none, append_nil] at h
    exact .inl (hset h)
  | some next =>
    rcases has_concat h with hold | ⟨hlen, rfl⟩
    · exact .inl (hset hold)
    · rw [length_mapIdx] at hlen
      exact .inr ⟨hlen, next, rfl, rfl⟩

lemma leaves_scriptPath (schedule : Scheduling) : (f.leaves schedule).scriptPath =
    (if f.edits then f.schedule else schedule).scriptPath := by
  unfold Flight.leaves
  split_ifs <;> rfl

/-- What is left in progress by a commit. -/
lemma FlightOk.settled {g insertion} (h : FlightOk s g) (hf : FlightOk s f)
    (hfedit : f.edits = false) (hgedit : g.edits = false)
    (hown : ∀ i, f.own = some i → ∀ next, g.stage = .computed next → ∀ a, Has s.jobs i a →
      a.scheduledFor ≠ next) (hapart : ∀ next, insertion = some next →
        g.stage ≠ .decided (some next)) {flights} : FlightOk { s with
      jobs := s.jobs.mapIdx (settle f) ++
  (insertion.map fun next => some ⟨next, f.schedule.scriptPath, false, false⟩).toList
      schedule := f.leaves s.schedule
      flights } g := by
  obtain ⟨hfpath, hfclear⟩ := hf.path hfedit
  obtain ⟨hgpath, hgclear⟩ := h.path hgedit
  refine ⟨fun i a hi hc ha => ?_, fun he => ?_, fun _ => ⟨?_, hgclear⟩, fun i hi => ?_, ?_⟩
  · rcases has_settled hi with ⟨b, hb, -, -, hpath, hrun, -⟩ | ⟨-, next, -, rfl⟩
    · rw [hrun]
      exact h.others i b hb hc (hpath ▸ ha)
    · exact absurd (hfpath.trans hgpath.symm) ha
  · simp [hgedit] at he
  · rw [leaves_scriptPath, hfedit]
    exact hgpath
  · obtain ⟨a, ha, hrun⟩ := h.own i hi
    have hslot : (s.jobs.mapIdx (settle f))[i]? = some (settle f i (some a)) := by
      rw [getElem?_mapIdx, ha]
      rfl
    unfold Has
    rw [getElem?_append_left (by rw [length_mapIdx]; exact ha.lt), hslot, settle, hfclear,
      if_neg not_mem_nil]
    split_ifs
    · exact ⟨_, rfl, hrun⟩
    · exact ⟨a, rfl, hrun⟩
  have hfree := h.free
  cases hstage : g.stage with
  | begun => trivial
  | computed next =>
    rw [hstage] at hfree
    intro i a hi hc hor
    rcases has_settled hi with ⟨b, hb, -, hat, hpath, -, hcomp⟩ | ⟨rfl, next', -, rfl⟩
    · rw [hat]
      rcases hor with hother | hdone | hgown
      · exact hfree i b hb hc (.inl (hpath ▸ hother))
      · exact (hcomp hdone).elim (fun hdone => hfree i b hb hc (.inr (.inl hdone))) fun hfown =>
          hown i hfown next hstage b hb
      · exact hfree i b hb hc (.inr (.inr hgown))
    · rcases hor with hother | hdone | hgown
      · exact absurd (hfpath.trans hgpath.symm) hother
      · cases hdone
      · obtain ⟨b, hb, -⟩ := h.own _ hgown
        exact absurd hb.lt (Nat.lt_irrefl _)
  | decided decision =>
    rw [hstage] at hfree
    intro next hnext i a hi hc
    rcases has_settled hi with ⟨b, hb, -, hat, -⟩ | ⟨-, next', hins, rfl⟩
    · rw [hat]
      exact hfree next hnext i b hb hc
    · rintro rfl
      exact hapart _ hins (hstage.trans (congrArg Stage.decided hnext))

lemma inv_commit (h : Inv s) (hmeet : Meeting s (.commit k)) (hs : step s (.commit k) = some s') :
    Inv s' := by
  obtain ⟨f, hf, hs⟩ := bind_eq_some_iff.mp hs
  split at hs
  swap
  · cases hs
  rename_i insertion hstage
  cases hs
  have hmem := mem_of_getElem? hf
  have hok := h.flight f hmem
  have hfree := hok.free
  rw [hstage] at hfree
  -- what is left was beside this transaction, so neither is an edit
  have hleft : ∀ g ∈ s.flights.eraseIdx k, ∃ l, l ≠ k ∧ s.flights[l]? = some g ∧ g.edits = false ∧
      f.edits = false := by
    intro g hg
    obtain ⟨l, hne, hl⟩ := mem_eraseIdx_iff_getElem?.mp hg
    have hk := (List.getElem?_eq_some_iff.mp hf).1
    have hlt := (List.getElem?_eq_some_iff.mp hl).1
    refine ⟨l, hne, hl, Bool.eq_false_of_not_eq_true fun he => ?_,
      Bool.eq_false_of_not_eq_true fun he => ?_⟩
    · have := h.edits g (mem_of_getElem? hl) he
      omega
    · have := h.edits f hmem he
      omega
  refine ⟨fun g hg he => ?_, fun l m g g' next hl hm hg hg' => ?_, fun i l a b hi hl heq => ?_,
    fun i a hi ha => ?_, fun i a hi ha => ?_, fun i a hi ha => ?_, fun g hg => ?_⟩
  · obtain ⟨-, -, -, hedit, -⟩ := hleft g hg
    simp [hedit] at he
  · rw [getElem?_eraseIdx] at hl hm
    split_ifs at hl hm <;> have := h.apart _ _ _ _ _ hl hm hg hg' <;> omega
  · rcases has_settled hi with ⟨a', hi', hci, ha, -⟩ | ⟨hilen, next, hnext, rfl⟩ <;>
      rcases has_settled hl with ⟨b', hl', hcl, hb, -⟩ | ⟨hllen, next', hnext', rfl⟩
    · exact h.distinct i l a' b' hi' hl' (by rw [← ha, ← hb, heq])
    · exact absurd (ha.symm.trans heq) (hfree next' hnext' i a' hi' hci)
    · exact absurd (hb.symm.trans heq.symm) (hfree next hnext l b' hl' hcl)
    · rw [hilen, hllen]
  · rcases has_settled hi with ⟨b, hb, -, hat, -, hrun, -⟩ | ⟨-, next, -, rfl⟩
    · rw [hat]
      exact h.started i b hb (hrun ▸ ha)
    · cases ha
  · rcases has_settled hi with ⟨b, hb, -, -, -, hrun, hcomp⟩ | ⟨-, next, -, rfl⟩
    · rw [hrun]
      refine (hcomp ha).elim (h.completed i b hb) fun hown => ?_
      obtain ⟨b', hb', hrun⟩ := hok.own i hown
      exact hb.eq hb' ▸ hrun
    · cases ha
  · rw [leaves_scriptPath] at ha
    rcases has_settled hi with ⟨b, hb, hc, -, hpath, hrun, -⟩ | ⟨-, next, -, rfl⟩
    · rw [hrun]
      cases hedits : f.edits with
      | true => exact hok.kept hedits i b hb hc
      | false =>
        rw [hedits, hpath] at ha
        exact h.others i b hb ha
    · cases hedits : f.edits with
      | true =>
        rw [hedits] at ha
        exact absurd rfl ha
      | false =>
        rw [hedits] at ha
        exact absurd (hok.path hedits).1 ha
  · obtain ⟨l, hne, hl, hgedit, hfedit⟩ := hleft g hg
    have hother := mem_of_getElem? hl
    refine (h.flight g hother).settled hok hfedit hgedit (fun i hi next hnext a ha heq => ?_)
      fun next hins hg => ?_
    · exact hmeet f hf i hi g hother a (get_eq_some.mpr ha) (heq ▸ hnext)
    · rw [hins] at hstage
      exact hne (h.apart l k g f next hl hf hg hstage)

/-- **Each step keeps the instants distinct**, if transactions do not overlap. -/
theorem inv_step {x} (h : Inv s) (hmeet : Meeting s x) (hs : step s x = some s') : Inv s' := by
  cases x with
  | tick d =>
    cases hs
    refine ⟨h.edits, h.apart, h.distinct, fun i a hi ha => ?_, h.completed, h.others,
      fun f hf => ?_⟩
    · have := h.started i a hi ha
      dsimp only
      omega
    · have hok := h.flight f hf
      exact ⟨hok.others, hok.kept, hok.path, hok.own, hok.free⟩
  | pull i =>
    obtain ⟨j, hj, hs⟩ := bind_eq_some_iff.mp hs
    obtain ⟨⟨-, hclock, -⟩, ⟨⟩⟩ := ite_none_right_eq_some.mp hs
    exact h.update (get_eq_some.mp hj) rfl rfl rfl hclock fun _ _ _ _ hc => .inl hc
  | finish i =>
    obtain ⟨j, hj, hs⟩ := bind_eq_some_iff.mp hs
    obtain ⟨⟨hrun, -⟩, ⟨⟩⟩ := ite_none_right_eq_some.mp hs
    rw [get_eq_some] at hj
    exact h.update hj rfl rfl hrun (h.started i j hj hrun) fun f hf next hnext _ =>
      .inr fun heq => hmeet f hf j (get_eq_some.mpr hj) (heq ▸ hnext)
  | completion i =>
    obtain ⟨j, hj, hs⟩ := bind_eq_some_iff.mp hs
    obtain ⟨⟨hpush, -⟩, heq⟩ := ite_none_right_eq_some.mp hs
    exact inv_begins h hmeet ⟨j, get_eq_some.mp hj, running_of_pushesFor hpush, (some.inj heq).symm⟩
      fun l hl => (some.inj hl).symm
  | handleFlow i =>
    obtain ⟨j, hj, hs⟩ := bind_eq_some_iff.mp hs
    obtain ⟨hpush, heq⟩ := ite_none_right_eq_some.mp hs
    exact inv_begins h hmeet ⟨j, get_eq_some.mp hj, running_of_pushesFor hpush, (some.inj heq).symm⟩
      nofun
  | edit schedule => exact inv_edit h hmeet hs
  | read k => exact inv_read h hs
  | check k => exact inv_check h hmeet hs
  | commit k => exact inv_commit h hmeet hs

lemma inv_start (clock : ℤ) (schedule : Scheduling) : Inv (.start clock schedule) where
  edits _ h := by cases h
  apart _ _ _ _ _ h := by cases h
  distinct _ _ _ _ h := absurd h not_has_nil
  started _ _ h := absurd h not_has_nil
  completed _ _ h := absurd h not_has_nil
  others _ _ h := absurd h not_has_nil
  flight _ h := by cases h

/-- **No two jobs of a schedule are for the same instant**, in every run in which the transactions
that push its ticks follow each other. -/
theorem instants_distinct {clock : ℤ} {schedule : Scheduling} {actions : List Action}
    (hmeets : Meets step Meeting actions (.start clock schedule))
    (h : run step actions (.start clock schedule) = some s) : Distinct s.jobs :=
  (run_invariant inv_step (inv_start clock schedule) hmeets h).distinct

lemma lt_add_ten (t : ℤ) : t < t + 10 := by omega

def tens : Scheduling := ⟨"f/flow", ⟨fun t => t + 10, lt_add_ten⟩, true, none⟩

/-- The completion of a job and a call of `handle_flow` overlap; the second check is made after the
first commit. -/
def overlappingPushes : List Action :=
  [.edit tens, .read 0, .check 0, .commit 0, .tick 12, .pull 0, .completion 0, .handleFlow 0,
    .read 0, .read 1, .check 1, .commit 1, .check 0, .commit 0]

theorem overlapping_pushes_distinct : ∃ s, run step overlappingPushes (.start 0 tens) = some s ∧
    Distinct s.jobs := by
  refine ⟨_, rfl, @instants_distinct _ 0 tens overlappingPushes ?_ rfl⟩
  exact meets_cons rfl rfl (meets_cons trivial rfl
    (meets_cons (by decide) rfl (meets_cons (by decide) rfl
    (meets_cons trivial rfl (meets_cons trivial rfl
      (meets_cons (by decide) rfl (meets_cons (by decide) rfl
      (meets_cons trivial rfl (meets_cons trivial rfl
        (meets_cons (by decide) rfl (meets_cons (by decide) rfl
        (meets_cons (by decide) rfl (meets_cons (by decide) rfl trivial)))))))))))))

/-- Two jobs run. `handle_flow` of the first, for a later iteration of its first step, and of the
second overlap: both read the clock and check before either commits. -/
def overlapping : List Action :=
  [.edit tens, .read 0, .check 0, .commit 0, .tick 12, .pull 0, .handleFlow 0, .read 0, .check 0,
    .commit 0,
    .tick 12, .pull 1, .handleFlow 0, .handleFlow 1, .read 0, .read 1, .check 0, .check 1,
    .commit 0, .commit 0]

theorem instant_queued_twice : ∃ s, run step overlapping (.start 0 tens) = some s ∧
    ¬Distinct s.jobs := by
  refine ⟨_, rfl, fun h => ?_⟩
  have heq := h 2 3 ⟨34, "f/flow", false, false⟩ ⟨34, "f/flow", false, false⟩ rfl rfl rfl
  cases heq

end Windmill.Schedule.Once
