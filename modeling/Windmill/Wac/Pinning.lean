import Windmill.Wac.Writes

/-! # The source that a checkpoint is pinned to

A checkpoint stores the hash of the first script version whose dispatch or inline step it accepts,
and refuses the outputs of other versions from then on. The approval and sleep arms do not look at
the hash, so the recorded steps come from one source only in runs that keep to it there too
(`KeepsSource`). -/

namespace Windmill.Wac.Pinning

open Lib.Run Checkpoint Machine Writes List

/-! ### Outputs of another version -/

/-- The outputs that ask for a step without a look at the source hash. -/
def unchecked : WacOutput → Bool
  | .approval _ _ _ => true
  | .sleep _ _ => true
  | _ => false

variable {out : WacOutput} {j : Job} {e : Execution} {p p' : Parent} {a : Action}

lemma checked_or_unchecked (h : ∀ result, out ≠ .complete result) :
    checksHash out = true ∨ unchecked out = true := by
  cases out with
  | complete result => exact absurd rfl (h result)
  | dispatch | inlineCheckpoint => exact .inl rfl
  | approval | sleep => exact .inr rfl

/-! ### Every recorded step was asked for -/

def named (p : Parent) : List String := p.asked.map Prod.fst

/-- Every step that is recorded, pending, or about to be recorded was named by an accepted output.
-/
structure Accounted (p : Parent) : Prop where
  completed : ∀ k ∈ completedOf p, k ∈ named p
  pending : ∀ w, (loadCheckpoint p.rows).pendingSteps = some w →
    w.keys ≠ [] ∧ (∀ k ∈ w.keys, k ∈ named p) ∧ ∀ k ∈ w.jobIds, k ∈ named p
  reports : ∀ r ∈ p.reports, ∀ ids, r.jobIds = some ids → ∀ k ∈ ids, k ∈ named p

lemma mem_of_lookup_eq {m m' : JsonMap} {k : String} (h : m'.lookup k = m.lookup k)
    (hk : k ∈ m') : k ∈ m :=
  AList.lookup_isSome.mp (h ▸ AList.lookup_isSome.mpr hk)

lemma Accounted.output (h : Accounted p) : Accounted (output j e out p) := by
  unfold Machine.output
  cases hr : handleWacV2Output j e out p.rows with
  | error err => exact h
  | ok rows =>
    have hacc := accepted_of_ok hr
    have hold : ∀ k ∈ named p,
        k ∈ (p.asked ++ out.keys.map fun k => (k, e.currentHash)).map Prod.fst := by
      intro k hk
      rw [map_append]
      exact mem_append_left _ hk
    have hnew : ∀ k ∈ out.keys,
        k ∈ (p.asked ++ out.keys.map fun k => (k, e.currentHash)).map Prod.fst := by
      intro k hk
      rw [map_append, map_map]
      exact mem_append_right _ (mem_map.mpr ⟨k, hk, rfl⟩)
    refine ⟨fun k hk => ?_, fun w hw => ?_, fun r hr ids hids k hk =>
      hold k (h.reports r hr ids hids k hk)⟩
    · by_cases hrec : records out = some k
      · exact hnew k (mem_keys_of_records hrec)
      · exact hold k (h.completed k (mem_of_lookup_eq (hacc.kept k hrec) hk))
    · rcases hacc.pending w hw with hw' | hw'
      · obtain ⟨hne, hkeys, hids⟩ := h.pending w hw'
        exact ⟨hne, fun k hk => hold k (hkeys k hk), fun k hk => hold k (hids k hk)⟩
      · obtain ⟨hkeys, hids⟩ := keys_pendingOf hw'
        exact ⟨hacc.asks w hw', fun k hk => hnew k (hkeys ▸ hk), fun k hk => hnew k (hids k hk)⟩

def Recordable (p : Parent) (k : String) : Prop :=
  (∃ r ∈ p.reports, ∃ ids, r.jobIds = some ids ∧ k ∈ ids) ∨
  ∃ w, (loadCheckpoint p.rows).pendingSteps = some w ∧ (∀ text, w.mode ≠ .named text) ∧
    k = w.firstKey

lemma step_grows (hs : step j p a = some p') (ha : ∀ e out, a ≠ .output e out) :
    p'.asked = p.asked ∧ Grows (Recordable p) (loadCheckpoint p.rows) (loadCheckpoint p'.rows) ∧
      ∀ r ∈ p'.reports, r ∈ p.reports ∨ r.jobIds = (loadCheckpoint p.rows).pendingSteps.map
      (·.jobIds) := by
  cases a with
  | output e out => exact absurd rfl (ha e out)
  | completes c ok v =>
    rw [Machine.step] at hs
    split_ifs at hs
    cases hs
    refine ⟨rfl, .refl _, fun r hr => (mem_append.mp hr).imp_right fun hone => ?_⟩
    rw [mem_singleton.mp hone, ← pendingSteps_load]
  | handles c =>
    obtain ⟨r, l₁, l₂, -, hsplit, rfl⟩ := step_handles hs
    have hmem : r ∈ p.reports := hsplit ▸ mem_append_right _ mem_cons_self
    exact ⟨rfl, grows_completion.mono fun k hk => .inl ⟨r, hmem, hk⟩,
      fun r' hr' => .inl (hsplit ▸ mem_of_mem_append_erased hr')⟩
  | submits req =>
    cases hs
    obtain ⟨resumeRows, queue, heq⟩ := resumeSuspendedJob_eq j req p
    rw [heq]
    exact ⟨rfl, .refl _, fun r hr => .inl hr⟩
  | pulls now =>
    obtain ⟨q, -, rfl⟩ := Option.map_eq_some_iff.mp hs
    exact ⟨rfl, .refl _, fun r hr => .inl hr⟩
  | prepares =>
    obtain rfl := step_prepares hs
    rw [loadCheckpoint_prepare]
    exact ⟨rfl, grows_prepare.mono fun k hk => .inr hk, fun r hr => .inl hr⟩

lemma Accounted.recordable {k : String} (h : Accounted p) (hk : Recordable p k) : k ∈ named p := by
  rcases hk with ⟨r, hr, ids, hids, hk⟩ | ⟨w, hw, -, rfl⟩
  · exact h.reports r hr ids hids k hk
  · obtain ⟨hne, hkeys, -⟩ := h.pending w hw
    obtain ⟨k, ks, hcons⟩ := exists_cons_of_ne_nil hne
    refine hkeys _ ?_
    rw [WacPendingSteps.firstKey, hcons]
    exact mem_cons_self

lemma Accounted.step (h : Accounted p) (hs : step j p a = some p') : Accounted p' := by
  by_cases ha : ∃ e out, a = .output e out
  · obtain ⟨e, out, rfl⟩ := ha
    obtain ⟨-, rfl⟩ := of_step_output hs
    exact h.output
  obtain ⟨hasked, hgrow, hrep⟩ := step_grows hs fun e out heq => ha ⟨e, out, heq⟩
  have hnamed : named p' = named p := by rw [named, hasked, named]
  refine ⟨fun k hk => ?_, fun w hw => ?_, fun r hr ids hids => ?_⟩
  · rw [hnamed]
    by_cases hnew : Recordable p k
    · exact h.recordable hnew
    · exact h.completed k (mem_of_lookup_eq (hgrow.kept k hnew) hk)
  · rw [hnamed]
    exact h.pending w (hgrow.pending w hw)
  · rw [hnamed]
    rcases hrep r hr with hold | hnew
    · exact h.reports r hold ids hids
    · obtain ⟨w, hw, rfl⟩ := Option.map_eq_some_iff.mp (hnew.symm.trans hids)
      exact (h.pending w hw).2.2

/-! ### One source -/

/-- The accepted outputs come from one source, and that is the one the checkpoint is pinned to. -/
structure OneSource (p : Parent) : Prop where
  pinned : storedHash p ≠ "" → ∀ a ∈ p.asked, a.2 = "" ∨ a.2 = storedHash p
  agree : ∀ a ∈ p.asked, ∀ b ∈ p.asked, a.2 ≠ "" → b.2 ≠ "" → a.2 = b.2

/-- An approval, a sleep and an output before any hash is stored come from the source of the outputs
before it. The other outputs are checked by the worker. -/
def KeepsSource (p : Parent) : Action → Prop
  | .output e out => unchecked out = true ∨ checksHash out = true ∧ storedHash p = "" →
      e.currentHash = "" ∨ (storedHash p = "" ∨ storedHash p = e.currentHash) ∧
        ∀ a ∈ p.asked, a.2 = "" ∨ a.2 = e.currentHash
  | _ => True

lemma OneSource.accepted {rows : Rows} (h : OneSource p) (hC : KeepsSource p (.output e out))
    (hr : handleWacV2Output j e out p.rows = .ok rows) (hout : ∀ result, out ≠ .complete result)
    (hne : e.currentHash ≠ "") :
    (storedHash p = "" ∨ storedHash p = e.currentHash) ∧ ∀ a ∈ p.asked, a.2 = "" ∨
    a.2 = e.currentHash := by
  rcases checked_or_unchecked hout with hchk | hun
  · by_cases hstored : storedHash p = ""
    · exact (hC (.inr ⟨hchk, hstored⟩)).resolve_left hne
    have hsame : storedHash p = e.currentHash := by
      rcases (accepted_of_ok hr).checked hchk with h' | h' | h'
      · exact absurd h' hne
      · exact absurd h' hstored
      · exact h'
    exact ⟨.inr hsame, hsame ▸ h.pinned hstored⟩
  · exact (hC (.inl hun)).resolve_left hne

lemma OneSource.output (h : OneSource p) (hC : KeepsSource p (.output e out)) :
    OneSource (output j e out p) := by
  by_cases hcomp : ∃ result, out = .complete result
  · obtain ⟨result, rfl⟩ := hcomp
    have hasked : (Machine.output j e (.complete result) p).asked = p.asked := append_nil _
    exact ⟨hasked ▸ h.pinned, hasked ▸ h.agree⟩
  have hout : ∀ result, out ≠ .complete result := fun result heq => hcomp ⟨result, heq⟩
  unfold Machine.output
  cases hr : handleWacV2Output j e out p.rows with
  | error err => exact h
  | ok rows =>
    have hold : ∀ a ∈ p.asked, e.currentHash ≠ "" → a.2 = "" ∨ a.2 = e.currentHash :=
      fun a ha hne => (h.accepted hC hr hout hne).2 a ha
    have hnew : ∀ a ∈ out.keys.map (fun k => (k, e.currentHash)), a.2 = e.currentHash := by
      rintro a ha
      obtain ⟨k, -, rfl⟩ := mem_map.mp ha
      rfl
    refine ⟨fun hst a ha => ?_, fun a ha b hb hane hbne => ?_⟩
    · rcases (accepted_of_ok hr).hash with hkeep | ⟨hstored, hpin⟩
      · have hst' : storedHash p ≠ "" := fun h0 => hst (hkeep.trans h0)
        have hgoal : a.2 = "" ∨ a.2 = storedHash p := by
          rcases mem_append.mp ha with ha | ha
          · exact h.pinned hst' a ha
          · rw [hnew a ha]
            by_cases hne : e.currentHash = ""
            · exact .inl hne
            · exact .inr ((h.accepted hC hr hout hne).1.resolve_left hst').symm
        exact hgoal.imp_right fun h' => h'.trans hkeep.symm
      · have hne : e.currentHash ≠ "" := fun h0 => hst (hpin.trans h0)
        have hgoal : a.2 = "" ∨ a.2 = e.currentHash := by
          rcases mem_append.mp ha with ha | ha
          · exact hold a ha hne
          · exact .inr (hnew a ha)
        exact hgoal.imp_right fun h' => h'.trans hpin.symm
    · by_cases hne : e.currentHash = ""
      · have hof : ∀ c ∈ p.asked ++ out.keys.map (fun k => (k, e.currentHash)), c.2 ≠ "" →
            c ∈ p.asked := by
          intro c hc hcne
          rcases mem_append.mp hc with hc | hc
          · exact hc
          · exact absurd ((hnew c hc).trans hne) hcne
        exact h.agree a (hof a ha hane) b (hof b hb hbne) hane hbne
      · have hof : ∀ c ∈ p.asked ++ out.keys.map (fun k => (k, e.currentHash)), c.2 ≠ "" →
            c.2 = e.currentHash := by
          intro c hc hcne
          rcases mem_append.mp hc with hc | hc
          · exact (hold c hc hne).resolve_left hcne
          · exact hnew c hc
        rw [hof a ha hane, hof b hb hbne]

lemma OneSource.step (h : OneSource p) (hC : KeepsSource p a) (hs : step j p a = some p') :
    OneSource p' := by
  by_cases ha : ∃ e out, a = .output e out
  · obtain ⟨e, out, rfl⟩ := ha
    obtain ⟨-, rfl⟩ := of_step_output hs
    exact h.output hC
  obtain ⟨hasked, hgrow, -⟩ := step_grows hs fun e out heq => ha ⟨e, out, heq⟩
  refine ⟨?_, ?_⟩
  · rw [storedHash, hgrow.hash, hasked]
    exact h.pinned
  · rw [hasked]
    exact h.agree

lemma storedHash_step (hs : step j p a = some p') (hst : storedHash p ≠ "") :
    storedHash p' = storedHash p := by
  by_cases ha : ∃ e out, a = .output e out
  · obtain ⟨e, out, rfl⟩ := ha
    obtain ⟨-, rfl⟩ := of_step_output hs
    unfold Machine.output
    cases hr : handleWacV2Output j e out p.rows with
    | error err => rfl
    | ok rows => exact (accepted_of_ok hr).hash.resolve_right fun h => hst h.1
  · exact (step_grows hs fun e out heq => ha ⟨e, out, heq⟩).2.1.hash

/-- **In every run whose approvals, sleeps and first outputs keep to one source, a checkpoint has
one source**: recorded steps were asked for by accepted outputs, these agree on their source, a
stored hash stays, and an output of another version is refused and changes nothing. -/
theorem steps_from_one_source {j : Job} {as : List Action} {t : Parent}
    (hC : Meets (step j) KeepsSource as Parent.start)
    (hrun : run (step j) as Parent.start = some t) :
    (∀ k ∈ completedOf t, k ∈ t.asked.map Prod.fst) ∧
    (∀ a ∈ t.asked, ∀ b ∈ t.asked, a.2 ≠ "" → b.2 ≠ "" → a.2 = b.2) ∧
    ∀ a t', KeepsSource t a → step j t a = some t' → storedHash t ≠ "" →
    storedHash t' = storedHash t ∧
      ∀ e out, a = .output e out → (∀ result, out ≠ .complete result) →
        e.currentHash ≠ "" → e.currentHash ≠ storedHash t →
          (∃ err, handleWacV2Output j e out t.rows = .error err) ∧ t' = t := by
  have hacc : Accounted t := run_preserves (fun h hs => h.step hs)
    ⟨fun k hk => absurd hk (AList.notMem_empty k), fun w hw => (by cases hw), fun r hr =>
      (by cases hr)⟩ hrun
  have hone : OneSource t := run_invariant (fun h hC hs => h.step hC hs)
    ⟨fun _ a ha => (by cases ha), fun a ha => (by cases ha)⟩ hC hrun
  refine ⟨hacc.completed, hone.agree, fun a t' hCa hs hst => ⟨storedHash_step hs hst, ?_⟩⟩
  rintro e out rfl hout hne hdiff
  obtain ⟨-, rfl⟩ := of_step_output hs
  have hchk : checksHash out = true := by
    rcases checked_or_unchecked hout with hchk | hun
    · exact hchk
    · rcases hCa (.inl hun) with h' | ⟨h' | h', -⟩
      · exact absurd h' hne
      · exact absurd h' hst
      · exact absurd h'.symm hdiff
  cases hr : handleWacV2Output j e out t.rows with
  | error err => exact ⟨⟨err, rfl⟩, by rw [Machine.output, hr]⟩
  | ok rows =>
    rcases (accepted_of_ok hr).checked hchk with h' | h' | h'
    · exact absurd h' hne
    · exact absurd h' hst
    · exact absurd h'.symm hdiff

def taskDone : List Action :=
  [.output { runnableId := some 7, ids := [1] } (.dispatch (.named "sequential") [{ key := "a" }]),
   .completes 1 true (.num "1"), .handles 1, .pulls 10, .prepares]

def waitsFor (version : ScriptHash) : Action :=
  .output { runnableId := some version, now := 10 } (.approval "b" none none)

theorem approval_of_same_version : ∃ t, run (step { id := 9 })
    (taskDone ++ [waitsFor 7]) Parent.start = some t ∧
      t.asked = [("a", "7"), ("b", "7")] ∧ ∀ k ∈ completedOf t, k ∈ t.asked.map Prod.fst := by
  have hfirst : KeepsSource Parent.start (.output { runnableId := some 7, ids := [1] }
      (.dispatch (.named "sequential") [{ key := "a" }])) :=
    fun _ => .inr ⟨.inl rfl, nofun⟩
  have hC : Meets (step { id := 9 }) KeepsSource (taskDone ++ [waitsFor 7]) Parent.start := by
    refine meets_cons hfirst rfl (meets_cons trivial rfl (meets_cons trivial rfl
      (meets_cons trivial rfl (meets_cons trivial rfl
        (meets_cons (fun _ => .inr ?_) rfl trivial)))))
    exact ⟨.inr rfl, fun a ha => .inr (by rw [mem_singleton.mp ha]; rfl)⟩
  exact ⟨_, rfl, rfl, (steps_from_one_source hC rfl).1⟩

/-- The approval of version 8 is accepted on a checkpoint that is pinned to version 7: it becomes
the pending step, and is recorded when the workflow resumes. -/
theorem approval_of_other_version :
    ∃ p p' t, run (step { id := 9 }) taskDone Parent.start = some p ∧ storedHash p = "7" ∧
      (loadCheckpoint p.rows).pendingSteps = none ∧
      step { id := 9 } p (waitsFor 8) = some p' ∧ pendingApproval (loadCheckpoint p'.rows) =
      some "b" ∧ run (step { id := 9 }) [.pulls 2000, .prepares] p' = some t ∧ storedHash t = "7" ∧
      t.asked = [("a", "7"), ("b", "8")] ∧ "a" ∈ completedOf t ∧ "b" ∈ completedOf t :=
  ⟨_, _, _, rfl, rfl, rfl, rfl, rfl, rfl, rfl, rfl, AList.lookup_isSome.mp rfl,
    AList.lookup_isSome.mp rfl⟩

end Windmill.Wac.Pinning
