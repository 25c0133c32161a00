import Windmill.Lib.Run
import Windmill.Worker.LogMask

/-! # The secrets of the running jobs

A worker keeps the running jobs and their secrets behind two locks and holds one of them at a time,
so a call of `register_secret_for_all_running_jobs` can be overtaken between the two (`Fetch`), and
so can the calls by which a job comes and goes. `step` takes the sections under a lock one by one,
in any order of the threads. -/

namespace Windmill.Worker.MaskStore

open Lib.Run LogMask List

abbrev Uuid := ℕ

/-- How far the worker is with a job: `register_running_job` and `unregister_running_job` have two
sections each. -/
inductive Phase where
  | away | registering | running | unregistering
  deriving DecidableEq

/-- A secret for all running jobs, behind the first section: the jobs have been read. -/
structure Fetch where
  jobIds : List Uuid
  secret : List Char
  deriving DecidableEq

structure State where
  runningJobs : List Uuid
  sensitiveMasks : Uuid → Option Secrets
  phase : Uuid → Phase
  fetches : List Fetch

def State.start : State := ⟨[], fun _ => none, fun _ => .away, []⟩

/-- A critical section of a thread. -/
inductive Action where
  | markRunning (job : Uuid)
  | openMasks (job : Uuid)
  | unmarkRunning (job : Uuid)
  | dropMasks (job : Uuid)
  | readRunning (secret : List Char)
  | insertSecret (fetch : Fetch)
  | registerSecretForJob (job : Uuid) (secret : List Char)

def noSecrets : Secrets := ⟨[], forall_mem_nil _⟩

def State.inPhase (s : State) (job : Uuid) (phase : Phase) : State :=
  { s with phase := Function.update s.phase job phase }

/-- A job without an entry gets none. -/
def insertFor (secret : List Char) (masks : Uuid → Option Secrets) (job : Uuid) :
    Uuid → Option Secrets :=
  Function.update masks job ((masks job).map (·.register secret))

/-- One critical section. -/
def step (s : State) : Action → Option State
  | .markRunning job =>
    if s.phase job = .away then
      some { s.inPhase job .registering with runningJobs := s.runningJobs.insert job }
    else none
  | .openMasks job =>
    if s.phase job = .registering then
      some { s.inPhase job .running with
        sensitiveMasks := Function.update s.sensitiveMasks job
          (some ((s.sensitiveMasks job).getD noSecrets)) }
    else none
  | .unmarkRunning job =>
    if s.phase job = .running then
      some { s.inPhase job .unregistering with runningJobs := s.runningJobs.filter (· ≠ job) }
    else none
  | .dropMasks job =>
    if s.phase job = .unregistering then
      some { s.inPhase job .away with sensitiveMasks := Function.update s.sensitiveMasks job none }
    else none
  | .readRunning secret =>
    if byteLen secret < minSecretLength then some s
    else if s.runningJobs.isEmpty then some s
    else some { s with fetches := ⟨s.runningJobs, secret⟩ :: s.fetches }
  | .insertSecret fetch =>
    if fetch ∈ s.fetches then
      some { s with
        fetches := s.fetches.erase fetch
        sensitiveMasks := fetch.jobIds.foldl (insertFor fetch.secret) s.sensitiveMasks }
    else none
  | .registerSecretForJob job secret =>
    some { s with sensitiveMasks := insertFor secret s.sensitiveMasks job }

/-- `snapshot`, of the entry of a job. -/
def State.snapshot (s : State) (job : Uuid) : Option MaskSnapshot :=
  (s.sensitiveMasks job).bind LogMask.snapshot

/-- A batch of `write_lines`: empty lines are skipped, and the notice is shown once. -/
def maskLines : Option MaskSnapshot → List (List Char) → List (List Char)
  | _, [] => []
  | none, line :: lines => if line.isEmpty then maskLines none lines
      else line :: maskLines none lines
  | some m, line :: lines =>
    if line.isEmpty then maskLines (some m) lines
      else (m.mask line).1 :: maskLines (some (m.mask line).2) lines

/-! ### The two tables -/

variable {s s' : State} {a : Action} {job : Uuid} {secret : List Char}

def SecretOf (masks : Uuid → Option Secrets) (job : Uuid) (secret : List Char) : Prop :=
  ∃ secrets, masks job = some secrets ∧ secret ∈ secrets.values

/-- What an insertion keeps: which jobs have an entry, and their secrets. -/
structure Grows (masks masks' : Uuid → Option Secrets) : Prop where
  isSome : ∀ job, (masks' job).isSome = (masks job).isSome
  keeps : ∀ job secret, SecretOf masks job secret → SecretOf masks' job secret

lemma Grows.trans {masks₁ masks₂ masks₃} (h : Grows masks₁ masks₂) (h' : Grows masks₂ masks₃) :
    Grows masks₁ masks₃ :=
  ⟨fun job => (h'.isSome job).trans (h.isSome job), fun job secret hs =>
    h'.keeps job secret (h.keeps job secret hs)⟩

lemma mem_register {secrets : Secrets} {t : List Char} :
    t ∈ (secrets.register secret).values ↔ t ∈ secrets.values ∨ t = secret ∧
    minSecretLength ≤ byteLen secret := by
  unfold Secrets.register
  split_ifs with h
  · simp [not_le.mpr h]
  · simp [not_lt.mp h, or_comm]

lemma grows_insertFor (masks : Uuid → Option Secrets) (job : Uuid) :
    Grows masks (insertFor secret masks job) := by
  refine ⟨fun other => ?_, fun other t ⟨secrets, hsome, ht⟩ => ?_⟩
  · by_cases heq : other = job
    · subst heq
      simp [insertFor]
    · simp [insertFor, Function.update_of_ne heq]
  · by_cases heq : other = job
    · subst heq
      exact ⟨secrets.register secret, by simp [insertFor, hsome], mem_register.mpr (.inl ht)⟩
    · exact ⟨secrets, by rwa [insertFor, Function.update_of_ne heq], ht⟩

lemma grows_foldl (jobIds : List Uuid) (masks : Uuid → Option Secrets) :
    Grows masks (jobIds.foldl (insertFor secret) masks) := by
  induction jobIds generalizing masks with
  | nil => exact ⟨fun _ => rfl, fun _ _ h => h⟩
  | cons id jobIds ih => exact (grows_insertFor masks id).trans (ih _)

lemma secretOf_insertFor {masks : Uuid → Option Secrets} (hlong : minSecretLength ≤ byteLen secret)
    (hsome : (masks job).isSome = true) : SecretOf (insertFor secret masks job) job secret := by
  obtain ⟨secrets, hsecrets⟩ := Option.isSome_iff_exists.mp hsome
  exact ⟨secrets.register secret, by simp [insertFor, hsecrets],
    mem_register.mpr (.inr ⟨rfl, hlong⟩)⟩

lemma secretOf_foldl {jobIds : List Uuid} {masks : Uuid → Option Secrets}
    (hlong : minSecretLength ≤ byteLen secret)
    (hjob : job ∈ jobIds) (hsome : (masks job).isSome = true) :
    SecretOf (jobIds.foldl (insertFor secret) masks) job secret := by
  induction jobIds generalizing masks with
  | nil => cases hjob
  | cons id jobIds ih =>
    rcases mem_cons.mp hjob with rfl | hjob
    · exact (grows_foldl jobIds _).keeps job secret (secretOf_insertFor hlong hsome)
    · exact ih hjob (by rwa [(grows_insertFor masks id).isSome])

/-- The tables agree with the workers: a job is marked until it is unmarked, and has an entry while
it runs. -/
structure Inv (s : State) : Prop where
  marked : ∀ job, job ∈ s.runningJobs ↔ s.phase job = .registering ∨ s.phase job = .running
  masked : ∀ job, (s.sensitiveMasks job).isSome = true ↔
    s.phase job = .running ∨ s.phase job = .unregistering

lemma inv_step (hI : Inv s) (h : step s a = some s') : Inv s' := by
  cases a with
  | markRunning job | openMasks job | unmarkRunning job | dropMasks job =>
    simp only [step] at h
    split_ifs at h with hphase
    cases h
    have hmark := hI.marked job
    have hmask := hI.masked job
    refine ⟨fun other => ?_, fun other => ?_⟩
    · by_cases heq : other = job
      · subst heq
        simp_all [State.inPhase]
      · simp [State.inPhase, hI.marked, heq]
    · by_cases heq : other = job
      · subst heq
        simp_all [State.inPhase]
      · simp [State.inPhase, Function.update_of_ne heq, hI.masked]
  | readRunning secret =>
    simp only [step] at h
    split_ifs at h <;> (cases h; exact ⟨hI.marked, hI.masked⟩)
  | insertSecret fetch =>
    simp only [step] at h
    split_ifs at h
    cases h
    refine ⟨hI.marked, fun job => ?_⟩
    rw [(grows_foldl fetch.jobIds s.sensitiveMasks).isSome]
    exact hI.masked job
  | registerSecretForJob id secret =>
    cases h
    exact ⟨hI.marked, fun job => by
      rw [(grows_insertFor s.sensitiveMasks id).isSome]; exact hI.masked job⟩

/-! ### A secret on its way -/

/-- The job runs, and the secret is with it or on its way to it. -/
structure Reaching (job : Uuid) (secret : List Char) (s : State) : Prop where
  inv : Inv s
  running : s.phase job = .running
  reaches : SecretOf s.sensitiveMasks job secret ∨ ∃ fetch ∈ s.fetches, fetch.secret = secret ∧
    job ∈ fetch.jobIds

lemma reaching_step (hlong : minSecretLength ≤ byteLen secret) (hI : Reaching job secret s)
    (ha : a ≠ .unmarkRunning job) (h : step s a = some s') : Reaching job secret s' := by
  have hinv := inv_step hI.inv h
  have hrun := hI.running
  cases a with
  | markRunning other | openMasks other | unmarkRunning other | dropMasks other =>
    simp only [step] at h
    split_ifs at h with hphase
    cases h
    have hne : job ≠ other := by
      rintro rfl
      simp_all
    refine ⟨hinv, by simpa [State.inPhase, Function.update_of_ne hne] using hrun,
      hI.reaches.imp_left ?_⟩
    rintro ⟨secrets, hsome, hmem⟩
    exact ⟨secrets, by simpa [State.inPhase, Function.update_of_ne hne] using hsome, hmem⟩
  | readRunning other =>
    simp only [step] at h
    split_ifs at h <;> cases h
    · exact hI
    · exact hI
    · exact ⟨hinv, hrun, hI.reaches.imp_right fun ⟨fetch, hmem, hfetch⟩ =>
        ⟨fetch, mem_cons_of_mem _ hmem, hfetch⟩⟩
  | insertSecret fetch =>
    simp only [step] at h
    split_ifs at h
    cases h
    refine ⟨hinv, hrun, ?_⟩
    rcases hI.reaches with hmem | ⟨fetch', hmem, rfl, hjob⟩
    · exact .inl ((grows_foldl fetch.jobIds _).keeps job secret hmem)
    · by_cases heq : fetch' = fetch
      · subst heq
        exact .inl (secretOf_foldl hlong hjob ((hI.inv.masked job).mpr (.inl hrun)))
      · exact .inr ⟨fetch', (mem_erase_of_ne heq).mpr hmem, rfl, hjob⟩
  | registerSecretForJob other t =>
    cases h
    exact ⟨hinv, hrun, hI.reaches.imp_left
      ((grows_insertFor s.sensitiveMasks other).keeps job secret)⟩

/-! ### The lines of a batch -/

lemma secrets_mask (m : MaskSnapshot) (text : List Char) : (m.mask text).2.secrets = m.secrets := by
  unfold MaskSnapshot.mask
  split_ifs <;> rfl

lemma maskLines_clean {lines m} (h : Maskable m.secrets.values) :
    ∀ line ∈ maskLines (some m) lines, Clean m.secrets.values line := by
  induction lines generalizing m with
  | nil => exact forall_mem_nil _
  | cons text lines ih =>
    unfold maskLines
    split_ifs
    · exact ih h
    · refine forall_mem_cons.mpr ⟨mask_clean h text, ?_⟩
      rw [← secrets_mask m text] at h ⊢
      exact ih h

/-- **A secret registered while a job runs is not in its later batches.** However the sections of
the threads interleave: once the registration is over and while the job is not unregistered, a batch
has the secret in its snapshot, and shows it in no line if the secrets are maskable. -/
theorem registered_secret_masked {as bs : List Action} {s t : State} {job : Uuid}
    {secret : List Char} (hs : run step as .start = some s) (hrun : s.phase job = .running)
    (hlong : minSecretLength ≤ byteLen secret)
    (ha : a = .readRunning secret ∨ a = .registerSecretForJob job secret)
    (ht : run step (a :: bs) s = some t) (hstays : ∀ b ∈ bs, b ≠ .unmarkRunning job)
    (hover : ∀ fetch ∈ t.fetches, fetch.secret ≠ secret) :
    ∃ m, t.snapshot job = some m ∧ secret ∈ m.secrets.values ∧
      (Maskable m.secrets.values → ∀ lines, ∀ line ∈ maskLines (t.snapshot job) lines,
        ¬secret <:+: line) := by
  have hI : Inv s := run_preserves inv_step ⟨by simp [State.start], by simp [State.start]⟩ hs
  obtain ⟨s', hstep, hrest⟩ := run_cons ht
  have hstart : Reaching job secret s' := by
    have hmarked := (hI.marked job).mpr (.inr hrun)
    have hinv := inv_step hI hstep
    rcases ha with rfl | rfl
    · rw [step, if_neg (not_lt.mpr hlong), if_neg (by simpa using ne_nil_of_mem hmarked)] at hstep
      cases hstep
      exact ⟨hinv, hrun, .inr ⟨_, mem_cons_self, rfl, hmarked⟩⟩
    · cases hstep
      exact ⟨hinv, hrun, .inl (secretOf_insertFor hlong ((hI.masked job).mpr (.inl hrun)))⟩
  have hend : Reaching job secret t :=
    @run_history _ _ step _ (fun _ u => Reaching job secret u)
      (fun hI hb h => reaching_step hlong hI hb h) bs [] _ _ hstart hstays hrest
  rcases hend.reaches with ⟨secrets, hsome, hmem⟩ | ⟨fetch, hmem, heq, -⟩
  · have hsnap : t.snapshot job = some ⟨secrets, false⟩ := by
      simp [State.snapshot, hsome, LogMask.snapshot, ne_nil_of_mem hmem]
    rw [hsnap]
    exact ⟨_, rfl, hmem, fun h lines line hline => maskLines_clean h line hline secret hmem⟩
  · exact absurd heq (hover fetch hmem)

def token : List Char := "sk-1234567".toList

/-- Another job comes while the secret of the first is on its way. -/
theorem token_masked : ∃ t, run step
    [.markRunning 1, .openMasks 1, .readRunning token, .markRunning 2,
      .insertSecret ⟨[1], token⟩] .start = some t ∧ ∃ m, t.snapshot 1 = some m ∧
      token ∈ m.secrets.values ∧
      (Maskable m.secrets.values → ∀ lines, ∀ line ∈ maskLines (t.snapshot 1) lines,
        ¬token <:+: line) :=
  ⟨_, rfl, @registered_secret_masked (.readRunning token) [.markRunning 1, .openMasks 1]
    [.markRunning 2, .insertSecret ⟨[1], token⟩] _ _ 1 token rfl rfl (by decide) (.inl rfl) rfl
    (by simp)
    (forall_mem_nil _)⟩

end Windmill.Worker.MaskStore
