import Windmill.Lib.Except
import Windmill.Wac.Machine

/-! # What the actions write to the checkpoint

Each action of the machine changes the checkpoint in one of two ways. An accepted output
(`Accepted`) may pin the source hash, record its inline step, and set the pending steps. Every other
action only records steps and clears the pending ones (`Grows`). -/

namespace Windmill.Wac.Writes

open Flow.Value Checkpoint Machine List

/-! ### Accepted outputs -/

def checksHash : WacOutput → Bool
  | .dispatch _ _ => true
  | .inlineCheckpoint _ _ => true
  | _ => false

def records : WacOutput → Option String
  | .inlineCheckpoint key _ => some key
  | _ => none

def pendingOf (e : Execution) : WacOutput → Option WacPendingSteps
  | .dispatch mode steps => some
      { mode, keys := steps.map (·.key), jobIds := insertAll ∅ ((steps.map (·.key)).zip e.ids) }
  | .approval key _ _ => some { mode := .approval, keys := [key], jobIds := ∅ }
  | .sleep key _ => some { mode := .sleep, keys := [key], jobIds := ∅ }
  | _ => none

structure Accepted (e : Execution) (out : WacOutput) (cp cp' : WacCheckpoint) : Prop where
  checked : checksHash out = true → e.currentHash = "" ∨ cp.sourceHash = "" ∨
    cp.sourceHash = e.currentHash
  hash : cp'.sourceHash = cp.sourceHash ∨ cp.sourceHash = "" ∧ cp'.sourceHash = e.currentHash
  kept : ∀ k, records out ≠ some k → cp'.completedSteps.lookup k = cp.completedSteps.lookup k
  pending : ∀ w, cp'.pendingSteps = some w → cp.pendingSteps = some w ∨ pendingOf e out = some w
  asks : ∀ w, pendingOf e out = some w → w.keys ≠ []

variable {e : Execution} {rows : Rows} {key : String} {cp cp' : WacCheckpoint} {out : WacOutput}
  {allowed : String → Prop}

lemma accepted_dispatch {j mode steps rows'} (h : dispatch j e mode steps rows = .ok rows') :
    Accepted e (.dispatch mode steps) (loadCheckpoint rows) (loadCheckpoint rows') := by
  obtain ⟨⟨cp, hcp, hck⟩, -, -, hne⟩ := dispatch_ok h
  obtain ⟨hhash, rfl⟩ := validateSourceHash_ok hcp
  rw [loadCheckpoint_of_some hck]
  refine ⟨fun _ => hhash, ?_, fun k _ => ?_, fun w hw => .inr hw, fun w hw => ?_⟩
  · simp only [updateCheckpointForDispatch, sourceHash_seedInputArgs]
    split_ifs with hs
    · exact .inr ⟨hs, rfl⟩
    · exact .inl rfl
  · simp only [updateCheckpointForDispatch, completedSteps_seedInputArgs]
  · cases hw
    exact fun hnil => hne (map_eq_nil_iff.mp hnil)

lemma accepted_inlineCheckpoint {result : Json}
    (h : persistInlineCheckpointDelta cp e.currentHash key result = .ok cp') :
    Accepted e (.inlineCheckpoint key result) cp cp' := by
  unfold persistInlineCheckpointDelta at h
  cases hv : validateSourceHash cp e.currentHash with
  | error err => rw [hv] at h; cases h
  | ok cp₁ =>
    rw [hv] at h
    cases h
    obtain ⟨hhash, rfl⟩ := validateSourceHash_ok hv
    refine ⟨fun _ => hhash, ?_, fun k hk => ?_, fun w hw => .inl ?_, nofun⟩
    · split_ifs with hs
      · exact .inr ⟨hs, rfl⟩
      · exact .inl rfl
    · exact AList.lookup_insert_ne fun heq => hk (congrArg some heq.symm)
    · exact (Option.filter_eq_some_iff.mp hw).1

lemma accepted_suspend {mode : Mode} (hun : checksHash out = false)
    (hout : pendingOf e out = some { mode, keys := [key], jobIds := ∅ }) :
    Accepted e out cp { cp with pendingSteps := some { mode, keys := [key], jobIds := ∅ } } := by
  refine ⟨fun hchk => ?_, .inl rfl, fun _ _ => rfl, ?_, fun w hw => ?_⟩
  · simp [hun] at hchk
  · rintro w hw
    cases hw
    exact .inr hout
  · rw [hout] at hw
    cases hw
    exact cons_ne_nil _ _

lemma accepted_of_ok {j : Job} {rows' : Rows} (h : handleWacV2Output j e out rows = .ok rows') :
    Accepted e out (loadCheckpoint rows) (loadCheckpoint rows') := by
  cases out with
  | complete result =>
    cases h
    exact ⟨nofun, .inl rfl, fun _ _ => rfl, fun _ hw => .inl hw,
      nofun⟩
  | dispatch mode steps => exact accepted_dispatch h
  | inlineCheckpoint key result =>
    obtain ⟨cp, hcp, rfl⟩ := Lib.Except.map_eq_ok.mp h
    exact accepted_inlineCheckpoint hcp
  | approval key timeout sad =>
    rw [handleWacV2Output, approval] at h
    split_ifs at h
    cases h
    exact accepted_suspend rfl rfl
  | sleep key seconds =>
    cases h
    exact accepted_suspend rfl rfl

lemma keys_pendingOf {w} (h : pendingOf e out = some w) : w.keys = out.keys ∧ ∀ k ∈ w.jobIds,
    k ∈ out.keys := by
  cases out with
  | complete | inlineCheckpoint => cases h
  | approval | sleep =>
    cases h
    exact ⟨rfl, fun k hk => absurd hk (AList.notMem_empty k)⟩
  | dispatch mode steps =>
    cases h
    refine ⟨rfl, fun k hk => ?_⟩
    obtain ⟨c, hc⟩ := Option.isSome_iff_exists.mp (AList.lookup_isSome.mpr hk)
    rcases mem_of_lookup_insertAll hc with hmem | hnone
    · exact (of_mem_zip hmem).1
    · cases hnone

lemma mem_keys_of_records {k} (h : records out = some k) : k ∈ out.keys := by
  cases out with
  | inlineCheckpoint key result =>
    cases h
    exact mem_singleton.mpr rfl
  | complete | dispatch | approval | sleep => cases h

/-! ### What the other actions write -/

/-- A change of the checkpoint that records steps of `allowed`, and pins nothing. -/
structure Grows (allowed : String → Prop) (cp cp' : WacCheckpoint) : Prop where
  hash : cp'.sourceHash = cp.sourceHash
  kept : ∀ k, ¬ allowed k → cp'.completedSteps.lookup k = cp.completedSteps.lookup k
  pending : ∀ w, cp'.pendingSteps = some w → cp.pendingSteps = some w

lemma Grows.refl (cp : WacCheckpoint) : Grows allowed cp cp := ⟨rfl, fun _ _ => rfl, fun _ hw => hw⟩

lemma Grows.mono {allowed' : String → Prop} (h : Grows allowed cp cp')
    (hmono : ∀ k, allowed k → allowed' k) : Grows allowed' cp cp' :=
  ⟨h.hash, fun k hk => h.kept k fun hall => hk (hmono k hall), h.pending⟩

lemma grows_insert (hkey : allowed key) (v : Json) (cp : WacCheckpoint) :
    Grows allowed cp (mergeStep key v cp) := by
  refine ⟨rfl, fun k hk => ?_, fun _ hw => hw⟩
  exact AList.lookup_insert_ne fun heq => hk (heq ▸ hkey)

lemma Grows.clearPending (h : Grows allowed cp cp') : Grows allowed cp (clearPending cp') :=
  ⟨h.hash, h.kept, nofun⟩

lemma grows_completion {r} : Grows (fun k => ∃ ids, r.jobIds = some ids ∧ k ∈ ids)
    (loadCheckpoint rows) (loadCheckpoint (handleWacChildCompletion j r rows)) := by
  unfold handleWacChildCompletion
  cases hids : r.jobIds with
  | none => exact .refl _
  | some ids =>
    dsimp only
    cases hkey : stepKeyOf ids r.child with
    | none => split_ifs <;> exact .refl _
    | some key =>
      cases hcp : rows.checkpoint with
      | none =>
        have : loadCheckpoint (completeStep j key r rows) = loadCheckpoint rows := by
          simp only [loadCheckpoint, completeStep, hcp]
          split_ifs <;> rfl
        rw [this]
        exact .refl _
      | some cp =>
        -- the step that a child is found under is one of the pending ones
        obtain ⟨e, he, hek⟩ := exists_of_findSome?_eq_some hkey
        split_ifs at hek
        cases hek
        have hgrow : Grows (fun k => ∃ ids', some ids = some ids' ∧ k ∈ ids') cp
            (mergeStep e.1 (childResult e.1 r.child r.success (readResult j r.result)) cp) :=
          grows_insert ⟨ids, rfl, mem_map.mpr ⟨e, he, rfl⟩⟩ _ cp
        simp only [loadCheckpoint, completeStep, hcp, Option.map_some, Option.getD_some]
        split_ifs
        · exact hgrow.clearPending
        · exact hgrow

lemma grows_prepare {resumeRows} :
    Grows (fun k => ∃ w, cp.pendingSteps = some w ∧ (∀ text, w.mode ≠ .named text) ∧
      k = w.firstKey) cp (prepareCheckpointForResume resumeRows cp) := by
  unfold prepareCheckpointForResume
  cases hw : cp.pendingSteps with
  | none => exact .refl _
  | some w =>
    dsimp only
    cases hm : w.mode with
    | approval | sleep =>
      refine (grows_insert ⟨w, rfl, fun text heq => ?_, rfl⟩ _ cp).clearPending
      simp [hm] at heq
    | named text => exact .refl _

lemma pendingSteps_load (rows : Rows) :
    rows.checkpoint.bind (·.pendingSteps) = (loadCheckpoint rows).pendingSteps := by
  cases h : rows.checkpoint with
  | none | some cp => rw [loadCheckpoint, h]; rfl

end Windmill.Wac.Writes
