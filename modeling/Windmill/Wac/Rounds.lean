import Windmill.Wac.Replay

/-! # The rounds of a workflow

A round runs the workflow on the checkpoint and completes the keys of its output. It records only
entries of the direct run and dispatches exactly the tasks that it records (`recorded_round`,
`counted_round`). Each round that does not end the process records an entry that was not recorded
before (`missing_lt`), so the process ends. -/

namespace Windmill.Wac.Rounds

open Flow.Value Checkpoint Machine Client Replay List Option

section Round

variable {env : Env} {E front : List Entry} {C : JsonMap} {out : WacOutput} {x : Ctx}
  {log : List String} {e : Entry}

def nextCheckpoint (env : Env) (C : JsonMap) (x : Ctx) (out : WacOutput) : JsonMap :=
  insertAll C (x.persisted ++ env.records x out)

/-- Every task is in the log once if it is recorded, and else not at all. -/
def Counted (E : List Entry) (C : JsonMap) (log : List String) : Prop :=
  ∀ e ∈ E, (calledOf e).isSome → log.count e.key = if (C.lookup e.key).isSome then 1 else 0

/-! ### What a round records -/

lemma keys_records_dispatch (env : Env) (mode : Mode) {steps} (hcall : x.called =
    front.filterMap calledOf) (hsteps : steps.map (·.key) = unrecorded C front) :
    (env.records x (.dispatch mode steps)).map Prod.fst = steps.map (·.key) := by
  have hfound : ∀ s ∈ steps, ∃ c, x.called.find? (fun c => c.key == s.key) = some c ∧
      c.key = s.key := by
    intro s hs
    have hmem : s.key ∈ unrecorded C front := hsteps ▸ mem_map_of_mem hs
    obtain ⟨e, he, hkey, htask, -⟩ := of_mem_unrecorded hmem
    obtain ⟨c, hc⟩ := isSome_iff_exists.mp htask
    have hex : (x.called.find? fun c => c.key == s.key).isSome := by
      rw [find?_isSome, hcall]
      refine ⟨c, mem_filterMap.mpr ⟨e, he, hc⟩, ?_⟩
      rw [beq_iff_eq, ← (calledOf_eq_some hc).2, hkey]
    obtain ⟨c', hc'⟩ := isSome_iff_exists.mp hex
    have heq := find?_some hc'
    exact ⟨c', hc', beq_iff_eq.mp heq⟩
  clear hsteps
  rw [Env.records]
  induction steps with
  | nil => rfl
  | cons s steps ih =>
    obtain ⟨c, hfind, hkey⟩ := hfound s mem_cons_self
    rw [filterMap_cons, hfind]
    simp only [map_some, map_cons, hkey]
    rw [ih fun s' hs' => hfound s' (mem_cons_of_mem _ hs')]

lemma names_cases (env : Env) (hn : Names E C x out) : (∃ mode steps, out = .dispatch mode steps) ∨
      ∃ kv, env.records x out = [kv] ∧ dispatched out = [] ∧ (C.lookup kv.1).isNone ∧
        ∃ e ∈ E, e.key = kv.1 ∧ recordOf env e = some kv.2 ∧ calledOf e = none := by
  cases out with
  | dispatch mode steps => exact .inl ⟨mode, steps, rfl⟩
  | complete v => cases hn
  | inlineCheckpoint key v =>
    obtain ⟨hnone, e, he, hkey, hkind⟩ := hn
    exact .inr ⟨(key, v), rfl, rfl, hnone, e, he, hkey, by rw [recordOf, hkind], by
      rw [calledOf, hkind]⟩
  | approval key timeout disabled =>
    obtain ⟨hnone, e, he, rfl, hkind⟩ := hn
    exact .inr ⟨(e.key, env.approval e.key), rfl, rfl, hnone, e, he, rfl, by rw [recordOf, hkind],
      by rw [calledOf, hkind]⟩
  | sleep key seconds =>
    obtain ⟨hnone, e, he, hkey, hkind⟩ := hn
    exact .inr ⟨(key, .bool true), rfl, rfl, hnone, e, he, hkey, by rw [recordOf, hkind], by
      rw [calledOf, hkind]⟩

lemma records_spec (hs : Suspends env E C out x) {kv}
    (hkv : kv ∈ x.persisted ++ env.records x out) :
    (C.lookup kv.1).isNone ∧ ∃ e ∈ E, e.key = kv.1 ∧ recordOf env e = some kv.2 := by
  rcases mem_append.mp hkv with hkv | hkv
  · obtain ⟨hnone, e, he, hkey, hval, -⟩ := hs.persisted kv hkv
    exact ⟨hnone, e, he, hkey, hval⟩
  rcases names_cases env hs.names with ⟨mode, steps, rfl⟩ |
    ⟨kv', hrecs, -, hnone, e, he, hkey, hval, -⟩
  · obtain ⟨-, front, back, rfl, -, hsteps, hcall⟩ := hs.names
    have hkey : kv.1 ∈ unrecorded C front := by
      rw [← hsteps, ← keys_records_dispatch env mode hcall hsteps]
      exact mem_map_of_mem hkv
    obtain ⟨-, -, -, -, hnone⟩ := of_mem_unrecorded hkey
    obtain ⟨s, -, hs'⟩ := mem_filterMap.mp hkv
    obtain ⟨c, hfind, rfl⟩ := map_eq_some_iff.mp hs'
    have hc := mem_of_find?_eq_some hfind
    rw [hcall] at hc
    obtain ⟨e, he, hec⟩ := mem_filterMap.mp hc
    obtain ⟨hkind, hkey⟩ := calledOf_eq_some hec
    exact ⟨hnone, e, mem_append_left _ he, hkey, by rw [recordOf, hkind, hkey]⟩
  · rw [hrecs] at hkv
    rw [mem_singleton.mp hkv]
    exact ⟨hnone, e, he, hkey, hval⟩

lemma task_recorded_iff (hrec : Recorded env E C) (hs : Suspends env E C out x) (he : e ∈ E)
    (htask : (calledOf e).isSome) :
    e.key ∈ (x.persisted ++ env.records x out).map Prod.fst ↔ e.key ∈ dispatched out := by
  have hother : ∀ e' ∈ E, e'.key = e.key → calledOf e' ≠ none := by
    rintro e' he' hkey hnone
    rw [hrec.eq_of_key he' he hkey] at hnone
    simp [hnone] at htask
  have hpers : e.key ∉ x.persisted.map Prod.fst := by
    intro hmem
    obtain ⟨kv, hkv, hkey⟩ := mem_map.mp hmem
    obtain ⟨-, e', he', hkey', -, hnone⟩ := hs.persisted kv hkv
    exact hother e' he' (hkey'.trans hkey) hnone
  rw [map_append, mem_append, or_iff_right hpers]
  rcases names_cases env hs.names with ⟨mode, steps, rfl⟩ |
    ⟨kv, hrecs, hnil, -, e', he', hkey, -, hno⟩
  · obtain ⟨-, front, back, -, -, hsteps, hcall⟩ := hs.names
    rw [keys_records_dispatch env mode hcall hsteps]
    rfl
  · rw [hrecs, hnil]
    refine iff_of_false (fun hmem => ?_) not_mem_nil
    exact hother e' he' (hkey.trans (mem_singleton.mp hmem).symm) hno

lemma of_mem_dispatched (hrec : Recorded env E C) (hs : Suspends env E C out x) (he : e ∈ E)
    (hmem : e.key ∈ dispatched out) : (C.lookup e.key).isNone ∧ ∀ e' ∈ E, (calledOf e').isSome →
    e'.epoch ≤ e.epoch → (C.lookup e'.key).isSome ∨ e'.key ∈ dispatched out := by
  rcases names_cases env hs.names with ⟨mode, steps, rfl⟩ | ⟨kv, -, hnil, -⟩
  · obtain ⟨-, front, back, rfl, hepochs, hsteps, -⟩ := hs.names
    rw [dispatched, hsteps] at hmem ⊢
    obtain ⟨e₁, he₁, hkey, -, hnone⟩ := of_mem_unrecorded hmem
    have heq := hrec.eq_of_key (mem_append_left _ he₁) he hkey
    subst heq
    refine ⟨hnone, fun e' he' htask hle => ?_⟩
    rcases mem_append.mp he' with hfront | hback
    · cases hC : C.lookup e'.key with
      | some v => exact .inl rfl
      | none => exact .inr (mem_unrecorded hfront htask (by rw [hC]; rfl))
    · have hlt := hepochs e₁ he₁ e' hback
      omega
  · simp [hnil] at hmem

lemma dispatched_nodup (hrec : Recorded env E C) (hs : Suspends env E C out x) :
    (dispatched out).Nodup := by
  rcases names_cases env hs.names with ⟨mode, steps, rfl⟩ | ⟨kv, -, hnil, -⟩
  · obtain ⟨-, front, back, rfl, -, hsteps, -⟩ := hs.names
    have hnd := hrec.nodup
    rw [map_append] at hnd
    rw [dispatched, hsteps]
    exact (filter_sublist.map _).nodup hnd.of_append_left
  · rw [hnil]
    exact nodup_nil

lemma exists_record (hs : Suspends env E C out x) :
    ∃ kv, kv ∈ x.persisted ++ env.records x out := by
  rcases names_cases env hs.names with ⟨mode, steps, rfl⟩ | ⟨kv, hrecs, -⟩
  · obtain ⟨hne, front, back, -, -, hsteps, hcall⟩ := hs.names
    have hkeys := keys_records_dispatch env mode hcall hsteps
    cases hr : env.records x (.dispatch mode steps) with
    | nil =>
      rw [hr] at hkeys
      exact absurd (map_eq_nil_iff.mp hkeys.symm) hne
    | cons kv rest => exact ⟨kv, mem_append_right _ mem_cons_self⟩
  · exact ⟨kv, mem_append_right _ (hrecs ▸ mem_singleton.mpr rfl)⟩

/-! ### The checkpoint after a round -/

lemma isSome_lookup_next (env : Env) (C : JsonMap) (x : Ctx) (out : WacOutput) (key : String) :
    ((nextCheckpoint env C x out).lookup key).isSome ↔
      key ∈ (x.persisted ++ env.records x out).map Prod.fst ∨ (C.lookup key).isSome := by
  rw [AList.lookup_isSome, AList.lookup_isSome]
  exact mem_insertAll

lemma isSome_lookup_next_task (hrec : Recorded env E C) (hs : Suspends env E C out x)
    (he : e ∈ E) (htask : (calledOf e).isSome) :
    ((nextCheckpoint env C x out).lookup e.key).isSome ↔
      e.key ∈ dispatched out ∨ (C.lookup e.key).isSome := by
  rw [isSome_lookup_next, task_recorded_iff hrec hs he htask]

lemma recorded_round (hrec : Recorded env E C) (hs : Suspends env E C out x) :
    Recorded env E (nextCheckpoint env C x out) := by
  refine ⟨hrec.nodup, fun key v hv => ?_, fun e he e' he' htask htask' hle hsome => ?_⟩
  · rcases mem_of_lookup_insertAll hv with hmem | hold
    · obtain ⟨-, e, he, hkey, hval⟩ := records_spec hs hmem
      exact ⟨e, he, hkey, hval⟩
    · exact hrec.correct key v hold
  · rw [isSome_lookup_next_task hrec hs he htask] at hsome
    rw [isSome_lookup_next_task hrec hs he' htask']
    rcases hsome with hnew | hold
    · exact ((of_mem_dispatched hrec hs he hnew).2 e' he' htask' hle).symm
    · exact .inr (hrec.closed e he e' he' htask htask' hle hold)

lemma counted_round (hcnt : Counted E C log) (hrec : Recorded env E C)
    (hs : Suspends env E C out x) :
    Counted E (nextCheckpoint env C x out) (log ++ dispatched out) := by
  intro e he htask
  rw [count_append, hcnt e he htask]
  by_cases hnew : e.key ∈ dispatched out
  · have hnone := (of_mem_dispatched hrec hs he hnew).1
    rw [if_neg (by simpa using hnone),
      if_pos ((isSome_lookup_next_task hrec hs he htask).mpr (.inl hnew)),
      count_eq_one_of_mem (dispatched_nodup hrec hs) hnew]
  · rw [count_eq_zero_of_not_mem hnew]
    simp only [isSome_lookup_next_task hrec hs he htask, or_iff_right hnew, Nat.add_zero]

def missing (E : List Entry) (C : JsonMap) : Finset String :=
  (E.map (·.key)).toFinset.filter fun key => (C.lookup key).isNone

lemma missing_lt (hs : Suspends env E C out x) :
    (missing E (nextCheckpoint env C x out)).card < (missing E C).card := by
  obtain ⟨kv, hkv⟩ := exists_record hs
  obtain ⟨hnone, e, he, hkey, -⟩ := records_spec hs hkv
  have hnow : ((nextCheckpoint env C x out).lookup kv.1).isSome :=
    (isSome_lookup_next env C x out kv.1).mpr (.inl (mem_map_of_mem hkv))
  refine Finset.card_lt_card ⟨fun key hmem => ?_, fun hsub => ?_⟩
  · obtain ⟨hin, hno⟩ := Finset.mem_filter.mp hmem
    refine Finset.mem_filter.mpr ⟨hin, ?_⟩
    by_contra hsome
    have hlater := (isSome_lookup_next env C x out key).mpr
      (.inr (isSome_iff_ne_none.mpr (by simpa using hsome)))
    simp [isNone_iff_eq_none.mp hno] at hlater
  · have hmem : kv.1 ∈ missing E C :=
      Finset.mem_filter.mpr ⟨mem_toFinset.mpr (mem_map.mpr ⟨e, he, hkey⟩), hnone⟩
    have hno := (Finset.mem_filter.mp (hsub hmem)).2
    simp [isNone_iff_eq_none.mp hno] at hnow

end Round

/-! ### The process -/

/-- A workflow that can be replayed: its handlers pass suspensions on, no result looks like an error
marker, and no `Promise.all` has a failing task before one that is called later. -/
structure Replayable (env : Env) (p : Prog) : Prop where
  rethrows : Rethrows p
  plain : PlainResults env (direct env p {}).2.entries
  ordered : ∀ hs ∈ (direct env p {}).2.alls, Ordered env (direct env p {}).2.entries hs

section Process

variable {env : Env} {p : Prog} {C : JsonMap} {log : List String}

lemma Replayable.final (hp : Replayable env p) : Final env (direct env p {}).2.entries
    (direct env p {}).2 :=
  ⟨⟨[], (append_nil _).symm, nofun⟩, hp.ordered⟩

lemma runner_cases (hp : Replayable env p)
    (hrec : Recorded env (direct env p {}).2.entries C) (fast : String → Bool) :
    (∃ v x, runner C fast p = (.output (.complete v), x) ∧ (direct env p {}).1 = .ok v ∧
        Follows env C (direct env p {}).2 x) ∨
      (∃ c x, runner C fast p = (.error c, x) ∧ (direct env p {}).1 = .error c ∧
        Follows env C (direct env p {}).2 x) ∨
      ∃ out x, runner C fast p = (.output out, x) ∧ Suspends env
      (direct env p {}).2.entries C out x := by
  have hsim : Simulates env _ C (exec C fast p {}) (direct env p {}) :=
    simulates hrec hp.plain p hp.rethrows ⟨rfl, rfl, rfl, rfl, by simp, by simp, by simp⟩ hp.final
  rcases hsim.cases with ⟨v, x, d, hx, hd, hf⟩ | ⟨c, x, d, hx, hd, hf⟩ | ⟨out, x, hx, hsus⟩
  · rw [runner, hx, hd]
    cases hpend : x.pending with
    | nil => exact .inl ⟨v, x, by simp [hpend], rfl, hf⟩
    | cons s rest =>
      refine .inr (.inr ⟨dispatchOf x.pending, x, by simp [hpend], ?_, hf.persisted⟩)
      refine ⟨by simp [hpend], d.entries, [], (append_nil _).symm, nofun,
        hf.pending, hf.called⟩
  · rw [runner, hx, hd]
    exact .inr (.inl ⟨c, x, rfl, rfl, hf⟩)
  · rw [runner, hx]
    exact .inr (.inr ⟨out, x, rfl, hsus⟩)

lemma awaited_once {x d} (hcnt : Counted d.entries C log) (hf : Follows env C d x) :
    ∀ h ∈ d.awaited, log.count h = 1 := by
  intro h hmem
  obtain ⟨hsome, e, he, rfl, htask⟩ := hf.awaited h hmem
  rw [hcnt e he htask, if_pos hsome]

lemma process_suspends (env : Env) (fast : ℕ → String → Bool) {n : ℕ} {E out x}
    (hrun : runner C (fast n) p = (.output out, x)) (hs : Suspends env E C out x) :
    process env fast p (n + 1) C log =
      process env fast p n (nextCheckpoint env C x out) (log ++ dispatched out) := by
  rw [process, hrun]
  have hnames := hs.names
  cases out with
  | complete v => cases hnames
  | _ => rfl

lemma process_sound (hp : Replayable env p) (fast : ℕ → String → Bool) : ∀ (n : ℕ) {C} {log} {r},
      Recorded env (direct env p {}).2.entries C → Counted (direct env p {}).2.entries C log →
      process env fast p n C log = some r →
        r.1 = (direct env p {}).1 ∧ ∀ h ∈ (direct env p {}).2.awaited, r.2.count h = 1
  | 0, _, _, _, _, _, h => by cases h
  | n + 1, C, log, r, hrec, hcnt, h => by
    rcases runner_cases hp hrec (fast n) with ⟨v, x, hrun, hd, hf⟩ | ⟨c, x, hrun, hd, hf⟩ | ⟨out, x,
      hrun, hs⟩
    · rw [process, hrun] at h
      cases h
      exact ⟨hd.symm, awaited_once hcnt hf⟩
    · rw [process, hrun] at h
      cases h
      exact ⟨hd.symm, awaited_once hcnt hf⟩
    · rw [process_suspends env fast hrun hs] at h
      exact process_sound hp fast n (recorded_round hrec hs) (counted_round hcnt hrec hs) h

lemma process_ends (hp : Replayable env p) (fast : ℕ → String → Bool) :
    ∀ (n : ℕ) {C} log, Recorded env (direct env p {}).2.entries C →
      (missing (direct env p {}).2.entries C).card < n → (process env fast p n C log).isSome
  | 0, _, _, _, h => absurd h (Nat.not_lt_zero _)
  | n + 1, C, log, hrec, h => by
    rcases runner_cases hp hrec (fast n) with ⟨v, x, hrun, -, -⟩ | ⟨c, x, hrun, -, -⟩ | ⟨out, x,
      hrun, hs⟩
    · rw [process, hrun]
      rfl
    · rw [process, hrun]
      rfl
    · rw [process_suspends env fast hrun hs]
      have hlt := missing_lt hs
      exact process_ends hp fast n _ (recorded_round hrec hs) (by omega)

/-- **Replay is sound**: for a workflow with distinct keys that can be replayed, the process ends,
and whenever it ends, its result is the one of the direct run and every task that the direct run
awaits has been dispatched once. -/
theorem replay_sound (env : Env) (p : Prog) (fast : ℕ → String → Bool)
    (hkeys : ((direct env p {}).2.entries.map (·.key)).Nodup) (hp : Replayable env p) :
    (∃ n, (process env fast p n ∅ []).isSome) ∧ ∀ n r, process env fast p n ∅ [] = some r →
        r.1 = (direct env p {}).1 ∧ ∀ h ∈ (direct env p {}).2.awaited, r.2.count h = 1 := by
  have hrec : Recorded env (direct env p {}).2.entries ∅ :=
    ⟨hkeys, nofun, nofun⟩
  have hcnt : Counted (direct env p {}).2.entries ∅ [] := fun e _ _ => rfl
  exact ⟨⟨_, process_ends hp fast _ [] hrec (Nat.lt_succ_self _)⟩, fun n r h =>
    process_sound hp fast n hrec hcnt h⟩

end Process

/-! ### Workflows -/

def tasks : Env where
  task fn _ :=
    if fn = 0 then .ok (.num "2")
    else if fn = 1 then .ok (.obj [("__wmill_error", .str "none")])
    else .error (.str "boom")
  approval _ := .bool true
  child _ := 0

/-- Two tasks in a `Promise.all`, of which one fails, a handler that passes suspensions on, an
inline step and an approval. -/
def guarded : Prog :=
  .call 0 "double" "" ∅ fun a => .call 2 "charge" "" ∅ fun b =>
    .tryCatch (.all [a, b] fun vs => .ret (.arr vs)) (fun _ => .ret (.str "refused")) true
      (.ret .null)
      fun v => .step "stamp" (.ok (.num "7")) fun _ => .approval none none fun _ => .ret v

lemma guarded_entries : (direct tasks guarded {}).2.entries =
    [⟨"double", .task 0 ∅, 0⟩, ⟨"charge", .task 2 ∅, 0⟩, ⟨"stamp", .step (.ok (.num "7")), 1⟩,
      ⟨"approval", .approval, 2⟩] := rfl

lemma guarded_replayable : Replayable tasks guarded := by
  refine ⟨fun a b => ⟨fun _ => trivial, fun _ => trivial, rfl, fun _ _ _ => trivial⟩, ?_, ?_⟩
  · rw [guarded_entries]
    intro e he hno v hv hkind
    simp only [mem_cons, not_mem_nil, or_false] at he
    rcases he with rfl | rfl | rfl | rfl
    · rw [← some.inj hv]
      rfl
    · cases hno
    · rw [← some.inj hv]
      rfl
    · exact absurd rfl hkind
  · rw [guarded_entries]
    intro hs hmem
    rw [mem_singleton.mp hmem]
    refine pairwise_pair.mpr fun e he e' he' hkey _ hfail => ?_
    simp only [mem_cons, not_mem_nil, or_false] at he
    rcases he with rfl | rfl | rfl | rfl <;> cases hfail
    exact absurd hkey (by decide)

theorem guarded_replayed : (∃ n, (process tasks (fun _ _ => false) guarded n ∅ []).isSome) ∧
      ∀ n r, process tasks (fun _ _ => false) guarded n ∅ [] = some r →
        r.1 = (direct tasks guarded {}).1 ∧ ∀ h ∈ (direct tasks guarded {}).2.awaited,
        r.2.count h = 1 :=
  replay_sound tasks guarded (fun _ _ => false) (by decide) guarded_replayable

def swallowing : Prog :=
  .tryCatch (.call 0 "double" "" ∅ fun a => .await a .ret) (fun _ => .ret (.str "fallback")) false
    (.ret (.str "fallback")) .ret

/-- The handler takes the suspension for an error: the workflow completes with the value of the
handler, and the task is never dispatched. -/
theorem suspension_taken_for_error : ((direct tasks swallowing {}).2.entries.map (·.key)).Nodup ∧
      ∃ n r, process tasks (fun _ _ => false) swallowing n ∅ [] = some r ∧
      ¬(r.1 = (direct tasks swallowing {}).1 ∧
          ∀ h ∈ (direct tasks swallowing {}).2.awaited, r.2.count h = 1) := by
  refine ⟨by decide, 1, (.ok (.str "fallback"), []), rfl, ?_⟩
  rintro ⟨hsame, -⟩
  cases hsame

/-- A result that looks like an error marker is taken for one, also if its task succeeded. -/
example : (direct tasks (.call 1 "report" "" ∅ fun a => .await a .ret) {}).1.isOk ∧
    process tasks (fun _ _ => false) (.call 1 "report" "" ∅ fun a => .await a .ret) 2 ∅ [] =
      some (.error .task, ["report"]) := ⟨rfl, rfl⟩

/-- A `Promise.all` with a task that has failed already: the task after it is never dispatched. -/
example : ∃ p : Prog, (direct tasks p {}).2.awaited = ["double", "charge", "audit"] ∧
    process tasks (fun _ _ => false) p 2 ∅ [] = some (.error .task, ["double", "charge"]) :=
  ⟨.call 0 "double" "" ∅ fun a => .call 2 "charge" "" ∅ fun b => .await a fun _ =>
    .call 0 "audit" "" ∅ fun c => .all [b, c] fun _ => .ret .null, rfl, rfl⟩

end Windmill.Wac.Rounds
