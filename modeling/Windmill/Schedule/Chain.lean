import Windmill.Schedule.Tick
import Windmill.Lib.Run
import Windmill.Lib.Slots

/-! # The chain of the jobs of a schedule

The root jobs of an enabled schedule in `v2_job_queue`. Each action is one transaction, and brings
the time that the clock of the database shows, which may go backwards.

A job is live if the next tick still depends on it: a script, or a flow that was not handled. The
invariant is that there is a live job later than every handled one (`Alive`). Canceled jobs are left
out of the comparison, as they have been moved; instead a tick is only pushed when the clock is not
behind them. -/

namespace Windmill.Schedule.Chain

open Flow.Value Flow.Status Flow.Reads Flow.Completion Tick Lib.Run Lib.Slots Option

inductive Phase where
  | fresh
  | failed (goesOn : Bool)
  | handled
deriving DecidableEq

/-- What a job runs. A script that is wrapped for its retries or its skip handler is a flow. -/
inductive Work where
  | script
  | flow (value : FlowValue) (phase : Phase) (status : FlowStatus)

def Work.unhandled : Work → Bool
  | .script => true
  | .flow _ phase _ => decide (phase ≠ .handled)

def Work.status : Work → Option FlowStatus
  | .script => none
  | .flow _ _ status => some status

def Work.new : Option FlowValue → Work
  | none => .script
  | some value => .flow value .fresh (pushedStatus value)

/-- A row of the queue. -/
structure Row where
  instant : ℤ
  scheduledFor : ℤ
  /-- `scheduled_for` as the worker has it, from when it pulled the job. -/
  loaded : ℤ
  running : Bool
  canceled : Bool
  work : Work

structure Push where
  instant : ℤ
  pausedUntil : Option ℤ
  next : ℤ

/-- The queue and the schedule: the id of a job is its place, and a job that has completed leaves
its place empty. -/
structure Queue where
  rows : List (Option Row)
  cron : Cron
  pausedUntil : Option ℤ
  pushes : List Push

def Queue.setRow (q : Queue) (i : ℕ) (r : Option Row) : Queue := { q with rows := q.rows.set i r }

def alreadyExists (rows : List (Option Row)) (next : ℤ) : Bool :=
  rows.any fun slot => (slot.map fun r => decide (r.scheduledFor = next)).getD false

def pushedRow (work : Option FlowValue) (next : ℤ) : Row :=
  ⟨next, next, next, false, false, .new work⟩

/-- `push_scheduled_job`. The script or flow is deployed again from time to time, so that each push
brings what it runs. -/
def pushScheduledJob (now : ℤ) (nowCutoff : Option ℤ) (work : Option FlowValue)
    (q : Queue) : Queue :=
  let next := q.cron.next now nowCutoff q.pausedUntil
  { q with
    rows := if alreadyExists q.rows next then q.rows else q.rows ++ [some (pushedRow work next)]
    pausedUntil := pausedAfter (effectiveNow now nowCutoff) q.pausedUntil }

def Row.cutoff (r : Row) (reloaded : Bool) : ℤ := if reloaded then r.scheduledFor else r.loaded

/-- What a push takes from its surroundings: the clock of the database, whether the job was
reloaded, and what the schedule runs. -/
structure Tick where
  now : ℤ
  reloaded : Bool
  work : Option FlowValue

/-- `try_schedule_next_job`, for a schedule that stays enabled with the same path. -/
def tryScheduleNextJob (t : Tick) (r : Row) (q : Queue) : Queue :=
  let next := q.cron.next t.now (some (r.cutoff t.reloaded)) q.pausedUntil
  { pushScheduledJob t.now (some (r.cutoff t.reloaded)) t.work q with
    pushes := ⟨r.instant, q.pausedUntil, next⟩ :: q.pushes }

def clearSchedule (q : Queue) : Queue :=
  { q with rows := q.rows.map fun slot => slot.filter Row.running }

def start (cron : Cron) (now : ℤ) (pausedUntil : Option ℤ) (work : Option FlowValue) : Queue :=
  pushScheduledJob now none work ⟨[], cron, pausedUntil, []⟩

inductive Action where
  | pull (now : ℤ)
  | restart
  | cancel (now : ℤ)
  | handleFlow (t : Tick)
  | fail (w : World) (r : Report)
  | progress (status : FlowStatus)
  | complete (t : Tick) (success fromCache : Bool)

/-- A flow that cannot be handled: what the report of the job `nil` makes of its status, and whether
it goes on. -/
def failFirst (w : World) (r : Report) (value : FlowValue) (status : FlowStatus) : Option Work :=
  match updateStatus w value status status r with
  | .ok (.committed c) =>
    match shouldContinueFlow w value status (enteringReport value status r) c.transition with
    | .ok goesOn => some (.flow value (.failed goesOn) c.status)
    | .error _ => none
  | _ => none

/-- A flow that was not handled only succeeds from the cache. -/
def mayComplete (work : Work) (success fromCache : Bool) : Bool :=
  match work with
  | .script => true
  | .flow _ phase _ => decide (phase = .handled) || !success || fromCache

/-- A transaction about the job `i`, whose row is `row`. -/
def stepRow (q : Queue) (i : ℕ) (row : Row) : Action → Option Queue
  | .pull now =>
    if row.running = false ∧ row.scheduledFor ≤ now then
      some (q.setRow i (some { row with running := true, loaded := row.scheduledFor }))
    else none
  | .restart => some (q.setRow i (some { row with running := false }))
  | .cancel now =>
    -- a future tick cannot be canceled
    if row.running = true ∧ row.scheduledFor ≤ now then
      some (q.setRow i (some { row with canceled := true, scheduledFor := now }))
    else none
  | .handleFlow t =>
    match row.work with
    | .flow value phase status =>
      if phase ≠ .failed false then
        let pushed := if handleFlowSchedules status then tryScheduleNextJob t row q else q
        some (pushed.setRow i (some { row with work := .flow value .handled status }))
      else none
    | .script => none
  | .fail w r =>
    match row.work with
    | .flow value phase status =>
      if phase = .fresh ∧ w.flowJob.isCanceled = row.canceled ∧ r.jobIdForStatus = nilUuid ∧
          r.success = false ∧ r.stopEarlyOverride.isNone = true then
        (failFirst w r value status).map fun work => q.setRow i (some { row with work := work })
      else none
    | .script => none
  | .progress status =>
    match row.work with
    | .flow value .handled _ =>
      some (q.setRow i (some { row with work := .flow value .handled status }))
    | _ => none
  | .complete t success fromCache =>
    if mayComplete row.work success fromCache then
      let left := q.setRow i none
      some (if scheduleNextTick row.work.status success fromCache then tryScheduleNextJob t row left
        else left)
    else none

/-- What may happen to the jobs of a schedule. -/
inductive Event where
  | job (i : ℕ) (a : Action)
  /-- `edit_schedule`, and the deployment of a flow or script, which clears and pushes its
  schedules. -/
  | edit (now : ℤ) (cron : Cron) (pausedUntil : Option ℤ) (work : Option FlowValue)

/-- One event. -/
def step (q : Queue) : Event → Option Queue
  | .job i a =>
    match get q.rows i with
    | some row => stepRow q i row a
    | none => none
  | .edit now cron pausedUntil work =>
    some (pushScheduledJob now none work
      (clearSchedule { q with cron := cron, pausedUntil := pausedUntil }))

/-! ### Rows -/

section

/-- The job `i` is in the queue, with the row `r`. -/
abbrev Queue.Has (q : Queue) (i : ℕ) (r : Row) : Prop := Lib.Slots.Has q.rows i r

variable {q q' : Queue} {i k : ℕ} {r x : Row} {t : Tick} {work : Option FlowValue}
  {nowCutoff : Option ℤ} {now next : ℤ} {a : Action}

lemma has_clearSchedule (h : (clearSchedule q).Has k x) : q.Has k x := has_filter h

lemma alreadyExists_iff : alreadyExists q.rows next = true ↔ ∃ k x, q.Has k x ∧ x.scheduledFor =
    next := by
  refine any_iff.trans ⟨?_, ?_⟩
  · rintro ⟨k, x, hk, hx⟩
    exact ⟨k, x, hk, of_decide_eq_true hx⟩
  · rintro ⟨k, x, hk, hx⟩
    exact ⟨k, x, hk, decide_eq_true hx⟩

section push

variable {now : ℤ} {nowCutoff : Option ℤ} {work : Option FlowValue}

lemma has_push (h : q.Has k x) : (pushScheduledJob now nowCutoff work q).Has k x := by
  unfold pushScheduledJob
  dsimp only
  split_ifs
  · exact h
  · exact (List.getElem?_append_left (Has.lt h)).trans h

lemma push_has (h : (pushScheduledJob now nowCutoff work q).Has k x) :
    q.Has k x ∨ x = pushedRow work (q.cron.next now nowCutoff q.pausedUntil) := by
  unfold pushScheduledJob at h
  dsimp only at h
  split_ifs at h with hex
  · exact .inl h
  · exact (has_concat h).imp_right And.right

/-- **A push leaves a row at the next tick**, be it old or new. -/
theorem push_next : ∃ k x, (pushScheduledJob now nowCutoff work q).Has k x ∧
    x.scheduledFor = q.cron.next now nowCutoff q.pausedUntil := by
  unfold pushScheduledJob
  dsimp only
  split_ifs with hex
  · exact alreadyExists_iff.mp hex
  · exact ⟨q.rows.length, pushedRow work (q.cron.next now nowCutoff q.pausedUntil),
      List.getElem?_concat_length, rfl⟩

end push

/-! ### The invariant -/

def Live (r : Row) : Prop := r.work.unhandled = true

def Settled (r : Row) : Prop := r.work.unhandled = false ∧ r.canceled = false

/-- There is a live job later than every settled one. -/
def Alive (q : Queue) : Prop :=
  ∃ l r, q.Has l r ∧ Live r ∧ ∀ k x, q.Has k x → Settled x → x.scheduledFor < r.scheduledFor

/-- A job is only moved to later, and only when it is canceled. -/
structure Timed (r : Row) : Prop where
  instant : r.instant ≤ r.loaded
  loaded : r.loaded ≤ r.scheduledFor
  moved : r.canceled = false → r.loaded = r.scheduledFor

def Work.Ok : Work → Prop
  | .script => True
  | .flow value phase status => (phase = .fresh → status = pushedStatus value) ∧
    (phase ≠ .handled → neverHandled status = true ∧ handleFlowSchedules status = true)

structure RowOk (r : Row) : Prop where
  timed : Timed r
  work : r.work.Ok

def Push.Ok (p : Push) : Prop :=
  p.instant < p.next ∧ ∀ paused, p.pausedUntil = some paused → paused ≤ p.next

/-- What every queue keeps: the times of its jobs and of the ticks that were computed. -/
structure Punctual (q : Queue) : Prop where
  rows : ∀ k x, q.Has k x → Timed x
  pushes : ∀ p ∈ q.pushes, p.Ok

structure Inv (q : Queue) : Prop where
  alive : Alive q
  rows : ∀ k x, q.Has k x → RowOk x

lemma timed_pushedRow (work : Option FlowValue) (next : ℤ) : Timed (pushedRow work next) where
  instant := le_refl _
  loaded := le_refl _
  moved _ := rfl

lemma rowOk_pushedRow (work : Option FlowValue) (next : ℤ) : RowOk (pushedRow work next) where
  timed := timed_pushedRow work next
  work := by
    cases work with
    | none => trivial
    | some value => exact ⟨fun _ => rfl, fun _ => ⟨pushedStatus_neverHandled, rfl⟩⟩

lemma live_of_not_settled (h : ¬Settled r) (hc : r.canceled = false) : Live r :=
  Bool.eq_true_of_not_eq_false fun hhandle => h ⟨hhandle, hc⟩

lemma settled_push (hk : (pushScheduledJob now nowCutoff work q).Has k x) (hx : Settled x) :
    q.Has k x := by
  rcases push_has hk with hold | rfl
  · exact hold
  · cases work <;> cases hx.1

/-- **A live job makes way for its successor.** After a step that keeps the other rows, adds live
ones at most, and leaves a row at the next tick, the chain is alive. -/
theorem Alive.succeed {j : Row} (h : Alive q) (hi : q.Has i j)
    (hkeep : ∀ k x, k ≠ i → q.Has k x → q'.Has k x)
    (hnew : ∀ k x, k ≠ i → q'.Has k x → Settled x → q.Has k x)
    (hself : ∀ x, q'.Has i x → Settled x → x.scheduledFor = j.scheduledFor)
    (hnext : ∃ k x, q'.Has k x ∧ x.scheduledFor = next ∧ x.canceled = false)
    (hlt : j.scheduledFor < next) : Alive q' := by
  obtain ⟨l, L, hL, hlive, hbound⟩ := h
  obtain ⟨n, N, hN, hNnext, hNmoved⟩ := hnext
  -- settled rows are the old ones, and perhaps the job itself
  have hrest : ∀ b, L.scheduledFor ≤ b → j.scheduledFor < b → ∀ k x, q'.Has k x → Settled x →
      x.scheduledFor < b := by
    intro b hLb hjb k x hk hx
    by_cases hki : k = i
    · subst hki
      rw [hself x hk hx]
      exact hjb
    · exact lt_of_lt_of_le (hbound k x (hnew k x hki hk hx) hx) hLb
  have hLj : l = i → L.scheduledFor = j.scheduledFor := by
    rintro rfl
    rw [hL.eq hi]
  by_cases hNs : Settled N
  · -- the row at the next tick is settled, so that the old witness is even later
    have hni : n ≠ i := by
      rintro rfl
      have := hself N hN hNs
      omega
    have hlate := hbound n N (hnew n N hni hN hNs) hNs
    have hli : l ≠ i := fun heq => by omega
    exact ⟨l, L, hkeep l L hli hL, hlive, hrest _ le_rfl (by omega)⟩
  · by_cases hle : L.scheduledFor ≤ next
    · exact ⟨n, N, hN, live_of_not_settled hNs hNmoved, by
        rw [hNnext]
        exact hrest _ hle hlt⟩
    · have hli : l ≠ i := fun heq => by
        omega
      exact ⟨l, L, hkeep l L hli hL, hlive, hrest _ le_rfl (by omega)⟩

lemma Alive.update {j j' : Row} (h : Alive q) (hi : q.Has i j) (hlive : Live j → Live j')
    (hlater : j.scheduledFor ≤ j'.scheduledFor)
    (hset : Settled j' → Settled j ∧ j'.scheduledFor = j.scheduledFor) :
    Alive (q.setRow i (some j')) := by
  obtain ⟨l, L, hL, hLlive, hbound⟩ := h
  have hrest : ∀ k x, (q.setRow i (some j')).Has k x → Settled x →
      x.scheduledFor < L.scheduledFor := by
    intro k x hk hx
    by_cases hki : k = i
    · subst hki
      cases (has_set_self hi).mp hk
      obtain ⟨hjs, heq⟩ := hset hx
      rw [heq]
      exact hbound k j hi hjs
    · exact hbound k x ((has_set_of_ne hki).mp hk) hx
  by_cases hli : l = i
  · subst hli
    cases hL.eq hi
    exact ⟨l, j', (has_set_self hi).mpr rfl, hlive hLlive, fun k x hk hx =>
      lt_of_lt_of_le (hrest k x hk hx) hlater⟩
  · exact ⟨l, L, (has_set_of_ne hli).mpr hL, hLlive, hrest⟩

lemma Alive.left (h : Alive q) (hi : q.Has i r) (hdead : ¬Live r) : Alive (q.setRow i none) := by
  obtain ⟨l, L, hL, hlive, hbound⟩ := h
  have hli : l ≠ i := by
    rintro rfl
    rw [hL.eq hi] at hlive
    exact hdead hlive
  exact ⟨l, L, (has_set_of_ne hli).mpr hL, hlive, fun k x hk hx =>
    hbound k x (has_delete hi hk).2 hx⟩

lemma Alive.push (h : Alive q) : Alive (pushScheduledJob now nowCutoff work q) := by
  obtain ⟨l, L, hL, hlive, hbound⟩ := h
  exact ⟨l, L, has_push hL, hlive, fun k x hk hx => hbound k x (settled_push hk hx) hx⟩

/-! ### The steps -/

/-- What a step must meet: a flow that fails before it is handled does not skip its first module, no
tick is pushed when the clock is behind a canceled job, and no edit takes place when it is behind a
handled one. -/
def Meeting (q : Queue) : Event → Prop
  | .job i (.fail w r) => ∀ row value phase status, q.Has i row →
  row.work = .flow value phase status →
    ¬SkipsFirst w value r
  | .job _ (.handleFlow t) => ∀ k x, q.Has k x → x.canceled = true → x.scheduledFor ≤ t.now
  | .job _ (.complete t _ _) => ∀ k x, q.Has k x → x.canceled = true → x.scheduledFor ≤ t.now
  | .edit now _ _ _ => ∀ k x, q.Has k x → x.canceled = true ∨ x.work.unhandled = false →
      x.scheduledFor ≤ now
  | _ => True

lemma step_job : step q (.job i a) = some q' ↔ ∃ r, q.Has i r ∧ stepRow q i r a = some q' := by
  unfold step
  dsimp only
  cases h : get q.rows i with
  | none =>
    constructor
    · intro hs
      cases hs
    · rintro ⟨r, hr, -⟩
      simp [get_eq_some.mpr hr] at h
  | some r =>
    have hr := get_eq_some.mp h
    constructor
    · intro hs
      exact ⟨r, hr, hs⟩
    · rintro ⟨x, hx, hs⟩
      cases hr.eq hx
      exact hs

lemma cutoff_bounds (ht : Timed r) (reloaded : Bool) :
    r.instant ≤ r.cutoff reloaded ∧ (r.canceled = false → r.cutoff reloaded = r.scheduledFor) := by
  have h₁ := ht.instant
  have h₂ := ht.loaded
  unfold Row.cutoff
  cases reloaded with
  | true => exact ⟨by simp only [if_true]; omega, fun _ => rfl⟩
  | false => exact ⟨h₁, ht.moved⟩

/-- **The tick of a job is later than the job**, also where it was canceled and moved. -/
theorem scheduledFor_lt_next {reloaded : Bool} {pausedUntil : Option ℤ} {cron : Cron} (ht : Timed r)
    (hclock : r.canceled = true → r.scheduledFor ≤ now) :
    r.scheduledFor < cron.next now (some (r.cutoff reloaded)) pausedUntil := by
  cases hc : r.canceled with
  | true => exact lt_of_le_of_lt (hclock hc) now_lt_next
  | false =>
    rw [← (cutoff_bounds ht reloaded).2 hc]
    exact cutoff_lt_next _

lemma failFirst_eq_some {w rep value status work} (h : failFirst w rep value status = some work) :
    ∃ c goesOn, updateStatus w value status status rep = .ok (.committed c) ∧
      work = .flow value (.failed goesOn) c.status := by
  unfold failFirst at h
  cases hup : updateStatus w value status status rep with
  | error e => simp [hup] at h
  | ok u =>
    cases u with
    | committed c =>
      simp only [hup] at h
      cases hgo : shouldContinueFlow w value status (enteringReport value status rep)
        c.transition with
      | error e => simp [hgo] at h
      | ok goesOn =>
        simp only [hgo, some.injEq] at h
        exact ⟨c, goesOn, rfl, h.symm⟩
    | _ => simp [hup] at h

section rows

variable {P : Row → Prop}

lemma rows_setRow (h : ∀ k x, q.Has k x → P x) (hi : q.Has i r) (hx : P x) :
    ∀ k y, (q.setRow i (some x)).Has k y → P y := by
  intro k y hk
  by_cases hki : k = i
  · subst hki
    cases (has_set_self hi).mp hk
    exact hx
  · exact h k y ((has_set_of_ne hki).mp hk)

lemma rows_push (h : ∀ k x, q.Has k x → P x) (hnew : ∀ work next, P (pushedRow work next)) :
    ∀ k x, (pushScheduledJob now nowCutoff work q).Has k x → P x := by
  intro k x hk
  rcases push_has hk with hold | rfl
  · exact h k x hold
  · exact hnew _ _

end rows

/-! ### Ticks are in time -/

lemma Punctual.setRow (h : Punctual q) (hi : q.Has i r) (hx : Timed x) :
    Punctual (q.setRow i (some x)) :=
  ⟨rows_setRow h.rows hi hx, h.pushes⟩

lemma Punctual.tryScheduleNextJob (h : Punctual q) (ht : Timed r) :
    Punctual (tryScheduleNextJob t r q) := by
  refine ⟨rows_push h.rows timed_pushedRow, fun p hp => ?_⟩
  rcases List.mem_cons.mp hp with rfl | hp
  · refine ⟨lt_of_le_of_lt (cutoff_bounds ht t.reloaded).1 (cutoff_lt_next _),
      fun paused hpaused => ?_⟩
    dsimp only at hpaused ⊢
    rw [hpaused]
    exact (paused_lt_next paused).le
  · exact h.pushes p hp

lemma punctual_stepRow (h : Punctual q) (hr : q.Has i r) (hs : stepRow q i r a = some q') :
    Punctual q' := by
  have ht := h.rows i r hr
  have hwork : ∀ work, Timed { r with work := work } := fun _ => ⟨ht.instant, ht.loaded, ht.moved⟩
  cases a with
  | pull now =>
    obtain ⟨-, ⟨⟩⟩ := ite_none_right_eq_some.mp hs
    exact h.setRow hr ⟨ht.instant.trans ht.loaded, le_rfl, fun _ => rfl⟩
  | restart =>
    cases hs
    exact h.setRow hr ⟨ht.instant, ht.loaded, ht.moved⟩
  | cancel now =>
    obtain ⟨⟨-, hnow⟩, ⟨⟩⟩ := ite_none_right_eq_some.mp hs
    exact h.setRow hr ⟨ht.instant, ht.loaded.trans hnow, nofun⟩
  | handleFlow t =>
    unfold stepRow at hs
    dsimp only at hs
    split at hs
    · obtain ⟨-, ⟨⟩⟩ := ite_none_right_eq_some.mp hs
      split_ifs with hpush
      · exact (h.tryScheduleNextJob ht).setRow (has_push hr) (hwork _)
      · exact h.setRow hr (hwork _)
    · cases hs
  | fail w rep =>
    unfold stepRow at hs
    dsimp only at hs
    split at hs
    · obtain ⟨-, hs⟩ := ite_none_right_eq_some.mp hs
      obtain ⟨work, -, rfl⟩ := map_eq_some_iff.mp hs
      exact h.setRow hr (hwork work)
    · cases hs
  | progress status =>
    unfold stepRow at hs
    dsimp only at hs
    split at hs
    · cases hs
      exact h.setRow hr (hwork _)
    · cases hs
  | complete t success fromCache =>
    obtain ⟨-, ⟨⟩⟩ := ite_none_right_eq_some.mp hs
    have hleft : Punctual (q.setRow i none) :=
      ⟨fun k x hk => h.rows k x (has_delete hr hk).2, h.pushes⟩
    split_ifs with hpush
    · exact hleft.tryScheduleNextJob ht
    · exact hleft

lemma punctual_step {e : Event} (h : Punctual q) (hs : step q e = some q') : Punctual q' := by
  cases e with
  | job i a =>
    obtain ⟨r, hr, hs⟩ := step_job.mp hs
    exact punctual_stepRow h hr hs
  | edit now cron pausedUntil work =>
    cases hs
    exact ⟨rows_push (fun k x hk => h.rows k x (has_clearSchedule hk)) timed_pushedRow, h.pushes⟩

/-! ### The chain is alive -/

lemma push_next_unmoved {now : ℤ} {nowCutoff : Option ℤ} {work : Option FlowValue}
    (hclock : ∀ k x, q.Has k x → x.canceled = true → x.scheduledFor ≤ now) :
    ∃ k x, (pushScheduledJob now nowCutoff work q).Has k x ∧
      x.scheduledFor = q.cron.next now nowCutoff q.pausedUntil ∧ x.canceled = false := by
  obtain ⟨k, x, hk, hx⟩ := @push_next q now nowCutoff work
  refine ⟨k, x, hk, hx, ?_⟩
  rcases push_has hk with hq | rfl
  · refine Bool.eq_false_of_not_eq_true fun hc => ?_
    have hle := hclock k x hq hc
    rw [hx] at hle
    exact absurd now_lt_next (not_lt.mpr hle)
  · rfl

lemma alive_handleFlow (h : Alive q) (hi : q.Has i r) (ht : Timed r)
    (hclock : ∀ k x, q.Has k x → x.canceled = true → x.scheduledFor ≤ t.now)
    (hx : x.scheduledFor = r.scheduledFor) :
    Alive ((tryScheduleNextJob t r q).setRow i (some x)) := by
  have hlt : r.scheduledFor < q.cron.next t.now (some (r.cutoff t.reloaded)) q.pausedUntil :=
    scheduledFor_lt_next ht (hclock i r hi)
  have hi' : (tryScheduleNextJob t r q).Has i r := has_push hi
  refine h.succeed hi (fun k y hne hk => ?_) (fun k y hne hk hy => ?_) (fun y hy _ => ?_) ?_ hlt
  · exact (has_set_of_ne hne).mpr (has_push hk)
  · exact settled_push ((has_set_of_ne hne).mp hk) hy
  · cases (has_set_self hi').mp hy
    exact hx
  · obtain ⟨k, y, hk, hy, hc⟩ :=
      @push_next_unmoved q t.now (some (r.cutoff t.reloaded)) t.work hclock
    have hne : k ≠ i := by
      rintro rfl
      rw [hk.eq hi'] at hy
      omega
    exact ⟨k, y, (has_set_of_ne hne).mpr hk, hy, hc⟩

lemma alive_complete (h : Alive q) (hi : q.Has i r) (ht : Timed r)
    (hclock : ∀ k x, q.Has k x → x.canceled = true → x.scheduledFor ≤ t.now) :
    Alive (tryScheduleNextJob t r (q.setRow i none)) := by
  have hlt : r.scheduledFor < q.cron.next t.now (some (r.cutoff t.reloaded)) q.pausedUntil :=
    scheduledFor_lt_next ht (hclock i r hi)
  refine h.succeed hi (fun k x hne hk => ?_) (fun k x hne hk hx => ?_) (fun x hk hx => ?_) ?_ hlt
  · exact has_push ((has_set_of_ne hne).mpr hk)
  · exact (has_delete hi (settled_push hk hx)).2
  · exact absurd rfl (has_delete hi (settled_push hk hx)).1
  · exact push_next_unmoved fun k x hk hc => hclock k x (has_delete hi hk).2 hc

lemma pushes_of_live {success fromCache : Bool} (hok : r.work.Ok) (hlive : Live r)
    (hmay : mayComplete r.work success fromCache = true) :
    scheduleNextTick r.work.status success fromCache = true := by
  unfold Live at hlive
  cases hwork : r.work with
  | script => rfl
  | flow value phase status =>
    rw [hwork] at hok hlive hmay
    have hphase : phase ≠ .handled := of_decide_eq_true hlive
    unfold mayComplete at hmay
    unfold scheduleNextTick Work.status
    dsimp only at hmay ⊢
    rw [(hok.2 hphase).1]
    rw [decide_eq_false hphase] at hmay
    revert hmay
    cases success <;> cases fromCache <;> decide

/-- **Each transaction about a job keeps the chain alive.** -/
theorem inv_stepRow (h : Inv q) (hr : q.Has i r) (hmeet : Meeting q (.job i a))
    (hs : stepRow q i r a = some q') : Inv q' := by
  have hok := h.rows i r hr
  have ht := hok.timed
  have hwork : ∀ work, Timed { r with work := work } := fun _ => ⟨ht.instant, ht.loaded, ht.moved⟩
  cases a with
  | pull now =>
    obtain ⟨-, ⟨⟩⟩ := ite_none_right_eq_some.mp hs
    exact ⟨h.alive.update hr (fun hl => hl) le_rfl fun hset => ⟨hset, rfl⟩,
      rows_setRow h.rows hr ⟨⟨ht.instant.trans ht.loaded, le_rfl, fun _ => rfl⟩, hok.work⟩⟩
  | restart =>
    cases hs
    exact ⟨h.alive.update hr (fun hl => hl) le_rfl fun hset => ⟨hset, rfl⟩,
      rows_setRow h.rows hr ⟨⟨ht.instant, ht.loaded, ht.moved⟩, hok.work⟩⟩
  | cancel now =>
    obtain ⟨⟨-, hnow⟩, ⟨⟩⟩ := ite_none_right_eq_some.mp hs
    exact ⟨h.alive.update hr (fun hl => hl) hnow fun hset => (by cases hset.2),
      rows_setRow h.rows hr ⟨⟨ht.instant, ht.loaded.trans hnow, nofun⟩, hok.work⟩⟩
  | handleFlow t =>
    unfold stepRow at hs
    dsimp only at hs
    split at hs
    case h_2 => cases hs
    case h_1 value phase status heq =>
      have hwok := hok.work
      rw [heq] at hwok
      obtain ⟨-, ⟨⟩⟩ := ite_none_right_eq_some.mp hs
      have hx : RowOk { r with work := .flow value .handled status } :=
        ⟨hwork _, nofun, fun hf => absurd rfl hf⟩
      split_ifs with hpush
      · exact ⟨alive_handleFlow h.alive hr ht hmeet rfl,
          rows_setRow (rows_push h.rows rowOk_pushedRow) (has_push hr) hx⟩
      have hhandle : phase = .handled := Classical.byContradiction fun hne => hpush (hwok.2 hne).2
      have hsame : r.work.unhandled = false := by
        rw [heq, hhandle]
        rfl
      refine ⟨h.alive.update hr (fun hl => ?_) le_rfl fun hset => ⟨⟨hsame, hset.2⟩, rfl⟩,
        rows_setRow h.rows hr hx⟩
      simp [Live, hsame] at hl
  | fail w rep =>
    unfold stepRow at hs
    dsimp only at hs
    split at hs
    case h_2 => cases hs
    case h_1 value phase status heq =>
      have hwok := hok.work
      rw [heq] at hwok
      obtain ⟨⟨hfresh, -, hjob, hfailed, hover⟩, hs⟩ := ite_none_right_eq_some.mp hs
      obtain ⟨work, hfail, ⟨⟩⟩ := map_eq_some_iff.mp hs
      obtain ⟨c, goesOn, hup, rfl⟩ := failFirst_eq_some hfail
      have hrep : NilFailure rep := ⟨hjob, hfailed, isNone_iff_eq_none.mp hover⟩
      rw [hwok.1 hfresh] at hup
      have hnever := nilFailure_neverHandled hrep (hmeet r value phase status hr heq) hup
      exact ⟨h.alive.update hr (fun _ => rfl) le_rfl fun hset => (by cases hset.1),
        rows_setRow h.rows hr ⟨hwork _, nofun, fun _ => hnever⟩⟩
  | progress status =>
    unfold stepRow at hs
    dsimp only at hs
    split at hs
    case h_2 => cases hs
    case h_1 value old heq =>
      cases hs
      have hsame : r.work.unhandled = false := by
        rw [heq]
        rfl
      refine ⟨h.alive.update hr (fun hl => ?_) le_rfl fun hset => ⟨⟨hsame, hset.2⟩, rfl⟩,
        rows_setRow h.rows hr ⟨hwork _, nofun, fun hf => absurd rfl hf⟩⟩
      simp [Live, hsame] at hl
  | complete t success fromCache =>
    obtain ⟨hmay, ⟨⟩⟩ := ite_none_right_eq_some.mp hs
    have hrows : ∀ k x, (q.setRow i none).Has k x → RowOk x :=
      fun k x hk => h.rows k x (has_delete hr hk).2
    by_cases hlive : Live r
    · rw [if_pos (pushes_of_live hok.work hlive hmay)]
      exact ⟨alive_complete h.alive hr ht hmeet, rows_push hrows rowOk_pushedRow⟩
    · have hleft := h.alive.left hr hlive
      split_ifs with hpush
      · exact ⟨hleft.push, rows_push hrows rowOk_pushedRow⟩
      · exact ⟨hleft, hrows⟩

lemma alive_push (hclock : ∀ k x, q.Has k x → x.canceled = true ∨ x.work.unhandled = false →
    x.scheduledFor ≤ now) : Alive (pushScheduledJob now nowCutoff work q) := by
  obtain ⟨k, x, hk, hx, hc⟩ := @push_next_unmoved q now nowCutoff work fun k x hk hc =>
    hclock k x hk (.inl hc)
  have hnext : now < x.scheduledFor := by
    rw [hx]
    exact now_lt_next
  refine ⟨k, x, hk, live_of_not_settled (fun hset => ?_) hc, fun k' y hk' hy => ?_⟩
  · have := hclock k x (settled_push hk hset) (.inr hset.1)
    omega
  · have := hclock k' y (settled_push hk' hy) (.inr hy.1)
    omega

lemma inv_step {e : Event} (h : Inv q) (hmeet : Meeting q e) (hs : step q e = some q') :
    Inv q' := by
  cases e with
  | job i a =>
    obtain ⟨r, hr, hs⟩ := step_job.mp hs
    exact inv_stepRow h hr hmeet hs
  | edit now cron pausedUntil work =>
    cases hs
    exact ⟨alive_push fun k x hk => hmeet k x (has_clearSchedule hk),
      rows_push (fun k x hk => h.rows k x (has_clearSchedule hk)) rowOk_pushedRow⟩

/-! ### Whole runs -/

section start

variable {cron : Cron} {now : ℤ} {pausedUntil : Option ℤ} {work : Option FlowValue}

lemma inv_start : Inv (start cron now pausedUntil work) :=
  ⟨alive_push fun _ _ hk => (by cases hk), rows_push (fun _ _ hk => (by cases hk)) rowOk_pushedRow⟩

end start

/-- **The chain of a schedule does not break.** After every run the ticks that were computed for
jobs are later than the jobs and not before the pause, and if every step met its condition, there is
a job in the queue. -/
theorem chain_unbroken {cron : Cron} {now : ℤ} {pausedUntil : Option ℤ} {work : Option FlowValue}
    {events : List Event} (h : run step events (start cron now pausedUntil work) = some q) :
    (∀ p ∈ q.pushes, p.instant < p.next ∧ ∀ paused, p.pausedUntil = some paused → paused ≤ p.next) ∧
    (Meets step Meeting events (start cron now pausedUntil work) → ∃ i r, q.Has i r) := by
  have hstart : Punctual (start cron now pausedUntil work) :=
    ⟨rows_push (fun _ _ hk => (by cases hk)) timed_pushedRow, fun _ hp => (by cases hp)⟩
  refine ⟨(run_preserves punctual_step hstart h).pushes, fun hmeets => ?_⟩
  obtain ⟨i, r, hi, -⟩ := (run_invariant inv_step inv_start hmeets h).alive
  exact ⟨i, r, hi⟩

end

def everyTen : Cron := ⟨fun t => t + 10, fun t => by omega⟩

def scriptRuns : List Event :=
  [.job 0 (.pull 20), .job 0 (.complete ⟨25, false, none⟩ true false), .job 1 (.pull 40),
    .job 1 (.complete ⟨30, false, none⟩ false false)]

def afterScriptRuns : Queue :=
  ⟨[none, none, some (pushedRow none 1000045)], everyTen, none,
    [⟨35, none, 1000045⟩, ⟨10, none, 35⟩]⟩

theorem script_chain_unbroken :
    run step scriptRuns (start everyTen 0 none none) = some afterScriptRuns ∧ ∃ i r,
    afterScriptRuns.Has i r := by
  refine ⟨rfl, (@chain_unbroken afterScriptRuns everyTen 0 none none scriptRuns rfl).2 ?_⟩
  refine meets_cons trivial rfl
    (meets_cons ?_ rfl (meets_cons trivial rfl (meets_cons ?_ rfl trivial)))
  · intro k x hk hc
    rcases k with _ | k
    · cases hk
      cases hc
    · cases hk
  · intro k x hk hc
    rcases k with _ | _ | k
    · cases hk
    · cases hk
      cases hc
    · cases hk

def lenientFlow : FlowValue :=
  { modules := [{ id := "a", value := .script, continueOnError := some true }] }

def canceledWorld : World := .plain { FlowJob.plain 1 with canceledBy := some "user" }

/-- The flow is pulled and canceled, its worker dies, and the next one finds it canceled: the report
of the failure moves it past its first module, so that its completion does not push. -/
theorem chain_broken : ∃ q, run step
    [.job 0 (.pull 20), .job 0 (.cancel 30), .job 0 .restart, .job 0 (.pull 40),
      .job 0 (.fail canceledWorld ⟨nilUuid, false, none, none, .null, false, none, false⟩),
      .job 0 (.complete ⟨50, false, some lenientFlow⟩ false false)]
      (start everyTen 0 none (some lenientFlow)) = some q ∧ ∀ i r, ¬q.Has i r := by
  refine ⟨⟨[none], everyTen, none, []⟩, rfl, fun i r h => ?_⟩
  cases i with
  | zero | succ i => cases h

end Windmill.Schedule.Chain
