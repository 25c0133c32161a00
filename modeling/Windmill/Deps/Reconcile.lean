import Mathlib.Tactic

/-! # Reconciling the dependency map

A dependency job fetches the rows of its importer, is told for each node which paths it references
(`patch`) and in the end deletes the rows that were not referenced (`dissolve`). The unique key of
`dependency_map` makes the rows of an importer a partial function of the node and the imported path.
On a rename only the rows of the old path are moved and tracked. -/

namespace Windmill.Deps.Reconcile

open List

inductive Kind where
  | script | flow | app
  deriving DecidableEq

structure Importer where
  wId : String
  importerPath : String
  importerKind : Kind
  deriving DecidableEq

abbrev Rows := String × String → Option (Option ℤ)

abbrev Table := Importer → Rows

/-- `ScopedDependencyMap` and the table: the rows that are deleted unless they are referenced. -/
structure Scoped where
  toDelete : Rows
  table : Table

/-- The object under its former path, if it was renamed. -/
def renamedFrom (s : Importer) (parentPath : Option String) : Option Importer :=
  match parentPath with
  | none => none
  | some x => if x ≠ "" ∧ x ≠ s.importerPath then some { s with importerPath := x } else none

def rearrange (s old : Importer) (T : Table) : Table := fun i =>
  if i = s then fun p => (T old p).or (T s p) else if i = old then fun _ => none else T i

def fetchMaybeRearranged (s : Importer) (parentPath : Option String) (T : Table) : Scoped :=
  match renamedFrom s parentPath with
  | some old => ⟨T old, rearrange s old T⟩
  | none => ⟨T s, T⟩

def upsert (s : Importer) (p : String × String) (hash : Option ℤ) (T : Table) : Table :=
  Function.update T s (Function.update (T s) p (some hash))

/-- `retain`: the paths without an unchanged row, and the rows that are still to be deleted. -/
def retain (node : String) (hash : String → Option ℤ) : List String → Rows → List String × Rows
  | [], d => ([], d)
  | path :: paths, d =>
    if d (node, path) = some (hash path) then retain node hash paths
      (Function.update d (node, path) none)
    else (path :: (retain node hash paths d).1, (retain node hash paths d).2)

/-- The references of a node, as `patch` is given them. -/
abbrev Patch := String × Option (List String)

section
variable (hash : String → Option ℤ) (s : Importer)

/-- `patch_tx_ref`; `hash` is the lock hash of a path, none if `lock_hash` has no row for it. -/
def patch (st : Scoped) : Patch → Scoped
  | (_, none) => st
  | (node, some paths) =>
    ⟨(retain node hash paths st.toDelete).2,
      (retain node hash paths st.toDelete).1.foldl
      (fun T path => upsert s (node, path) (hash path) T) st.table⟩

def dissolve (st : Scoped) : Table :=
  Function.update st.table s fun p => if st.toDelete p = st.table s p then none else st.table s p

/-- The table after a dependency job. -/
def reconcile (parentPath : Option String) (ps : List Patch) (T : Table) : Table :=
  dissolve s (ps.foldl (patch hash s) (fetchMaybeRearranged s parentPath T))

end

/-- The pairs of a node and a path it references. -/
def pairs (ps : List Patch) : List (String × String) :=
  ps.flatMap fun p => (p.2.getD []).map fun path => (p.1, path)

/-! ### Patches path by path -/

variable {hash : String → Option ℤ} {s : Importer}

def reference (hash : String → Option ℤ) (s : Importer) (st : Scoped) (p : String × String) :
    Scoped :=
  if st.toDelete p = some (hash p.2) then { st with toDelete := Function.update st.toDelete p none }
  else { st with table := upsert s p (hash p.2) st.table }

lemma patch_eq_foldl (node : String) : ∀ paths st,
    patch hash s st (node, some paths) = (paths.map fun path => (node, path)).foldl
    (reference hash s) st
  | [], _ => rfl
  | path :: paths, st => by
    rw [map_cons, foldl_cons, ← patch_eq_foldl node paths]
    simp only [patch, retain, reference]
    split_ifs <;> rfl

lemma patches_eq_foldl : ∀ ps st,
    ps.foldl (patch hash s) st = (pairs ps).foldl (reference hash s) st
  | [], _ => rfl
  | (node, none) :: ps, st => patches_eq_foldl ps st
  | (node, some paths) :: ps, st => by
    rw [foldl_cons, patches_eq_foldl ps, patch_eq_foldl, ← foldl_append]
    rfl

structure Behind (hash : String → Option ℤ) (s : Importer) (st₀ : Scoped)
  (W : List (String × String))
    (st : Scoped) : Prop where
  left : ∀ p, p ∉ W → st.toDelete p = st₀.toDelete p ∧ st.table s p = st₀.table s p
  written : ∀ p ∈ W, st.toDelete p ≠ some (hash p.2) ∧ st.table s p = some (hash p.2)
  others : ∀ i, i ≠ s → st.table i = st₀.table i

variable {st₀ st : Scoped} {W : List (String × String)}

/-- A row that is tracked is in the table: a reference to it need not write. -/
lemma Behind.step (hd : ∀ p h, st₀.toDelete p = some h → st₀.table s p = some h)
    (h : Behind hash s st₀ W st)
    (p : String × String) : Behind hash s st₀ (W ++ [p]) (reference hash s st p) := by
  have hmem : ∀ q, q ∈ W ++ [p] ↔ q ∈ W ∨ q = p := fun q => by simp
  unfold reference
  split_ifs with hp
  · have hnew : p ∉ W := fun hW => (h.written p hW).1 hp
    refine ⟨fun q hq => ?_, fun q hq => ?_, h.others⟩
    · rw [hmem, not_or] at hq
      exact ⟨(Function.update_of_ne hq.2 _ _).trans (h.left q hq.1).1, (h.left q hq.1).2⟩
    by_cases heq : q = p
    · subst heq
      obtain ⟨hdel, htab⟩ := h.left q hnew
      exact ⟨by simp, htab.trans (hd q _ (hdel.symm.trans hp))⟩
    · have hq := h.written q (((hmem q).mp hq).resolve_right heq)
      exact ⟨(Function.update_of_ne heq _ _).trans_ne hq.1, hq.2⟩
  · refine ⟨fun q hq => ?_, fun q hq => ?_, fun i hi => (Function.update_of_ne hi _ _).trans
      (h.others i hi)⟩
    · rw [hmem, not_or] at hq
      exact ⟨(h.left q hq.1).1, by simpa [upsert, hq.2] using (h.left q hq.1).2⟩
    · by_cases heq : q = p
      · subst heq
        exact ⟨hp, by simp [upsert]⟩
      · have hq := h.written q (((hmem q).mp hq).resolve_right heq)
        exact ⟨hq.1, by simpa [upsert, heq] using hq.2⟩

lemma Behind.foldl (hd : ∀ p h, st₀.toDelete p = some h → st₀.table s p = some h) :
    ∀ (ps W : List (String × String))
    (st : Scoped), Behind hash s st₀ W st → Behind hash s st₀ (W ++ ps)
    (ps.foldl (reference hash s) st)
  | [], W, st, h => by rwa [append_nil]
  | p :: ps, W, st, h => by
    have htail := Behind.foldl hd ps (W ++ [p]) _ (h.step hd p)
    rwa [append_assoc] at htail

/-- **What is in the table behind the patches and the deletion.** -/
theorem dissolve_patches (hash : String → Option ℤ) (st : Scoped) (ps : List Patch)
    (hd : ∀ p h, st.toDelete p = some h → st.table s p = some h) :
    let T := dissolve s (ps.foldl (patch hash s) st)
    (∀ p ∈ pairs ps, T s p = some (hash p.2)) ∧
      (∀ p, p ∉ pairs ps → T s p = if st.toDelete p = st.table s p then none else st.table s p) ∧
      ∀ i, i ≠ s → T i = st.table i := by
  have hstart : Behind hash s st [] st :=
    ⟨fun _ _ => ⟨rfl, rfl⟩, fun _ h => absurd h not_mem_nil, fun _ _ => rfl⟩
  have hb := Behind.foldl hd (pairs ps) [] st hstart
  rw [← patches_eq_foldl] at hb
  refine ⟨fun p hp => ?_, fun p hp => ?_, fun i hi => (Function.update_of_ne hi _ _).trans
    (hb.others i hi)⟩
  · obtain ⟨hdel, htab⟩ := hb.written p hp
    simp [dissolve, htab, hdel]
  · obtain ⟨hdel, htab⟩ := hb.left p hp
    simp [dissolve, htab, hdel]

/-! ### The whole job -/

variable {parentPath : Option String} {ps : List Patch} {T T' : Table}

/-- What a reconciliation is to leave: one row for each reference, with the lock hash of its path,
none under the old path, and the rows of all others. -/
structure Reconciled (hash : String → Option ℤ) (s : Importer) (parentPath : Option String)
  (ps : List Patch)
    (T T' : Table) : Prop where
  own : ∀ p, T' s p = if p ∈ pairs ps then some (hash p.2) else none
  old : ∀ o, renamedFrom s parentPath = some o → ∀ p, T' o p = none
  others : ∀ i, i ≠ s → renamedFrom s parentPath ≠ some i → T' i = T i

/-- The `UPDATE` of the rename does not fail: no moved row meets the key of another one. -/
def NoClash (s : Importer) (parentPath : Option String) (T : Table) : Prop :=
  ∀ old, renamedFrom s parentPath = some old → ∀ p, T old p = none ∨ T s p = none

lemma renamedFrom_ne {old} (h : renamedFrom s parentPath = some old) : old ≠ s := by
  cases parentPath with
  | none => cases h
  | some x =>
    unfold renamedFrom at h
    simp only at h
    split_ifs at h with hx
    cases h
    exact fun heq => hx.2 (congrArg Importer.importerPath heq)

lemma rearrange_spec {old} (hold : old ≠ s) :
    (∀ p, rearrange s old T s p = (T old p).or (T s p)) ∧ (∀ p, rearrange s old T old p = none) ∧
      ∀ i, i ≠ s → i ≠ old → rearrange s old T i = T i := by
  refine ⟨fun p => by simp [rearrange], fun p => by simp [rearrange, hold], fun i hi hio => by
    simp [rearrange, hi, hio]⟩

/-- **The rows of the importer after the job**: those that were referenced, and after a
rename those that stood under the new path. -/
theorem reconcile_own (hclash : NoClash s parentPath T) (p : String × String) :
    reconcile hash s parentPath ps T s p = if p ∈ pairs ps then some (hash p.2)
      else if (renamedFrom s parentPath).isSome then T s p else none := by
  unfold reconcile fetchMaybeRearranged
  cases hold : renamedFrom s parentPath with
  | none =>
    obtain ⟨hin, hout, -⟩ := dissolve_patches hash ⟨T s, T⟩ ps fun _ _ h => h
    by_cases hp : p ∈ pairs ps
    · rw [if_pos hp]
      exact hin p hp
    · rw [if_neg hp]
      exact (hout p hp).trans (if_pos rfl)
  | some old =>
    obtain ⟨hs, -, -⟩ := rearrange_spec (T := T) (renamedFrom_ne hold)
    have hd : ∀ p h, T old p = some h → rearrange s old T s p = some h :=
      fun p h hp => by rw [hs, hp, Option.some_or]
    obtain ⟨hin, hout, -⟩ := dissolve_patches hash ⟨T old, rearrange s old T⟩ ps hd
    by_cases hp : p ∈ pairs ps
    · rw [if_pos hp]
      exact hin p hp
    rw [if_neg hp]
    refine (hout p hp).trans ?_
    simp only [hs]
    rcases hclash old hold p with hnone | hnone
    · cases hT : T s p <;> simp [hnone]
    · simp [hnone]

lemma reconcile_others {i} (hi : i ≠ s) : reconcile hash s parentPath ps T i =
    if renamedFrom s parentPath = some i then fun _ => none else T i := by
  unfold reconcile fetchMaybeRearranged
  cases hold : renamedFrom s parentPath with
  | none => exact (dissolve_patches hash ⟨T s, T⟩ ps fun _ _ h => h).2.2 i hi
  | some old =>
    obtain ⟨hs, ho, hothers⟩ := rearrange_spec (T := T) (renamedFrom_ne hold)
    have hd : ∀ p h, T old p = some h → rearrange s old T s p = some h :=
      fun p h hp => by rw [hs, hp, Option.some_or]
    refine ((dissolve_patches hash ⟨T old, rearrange s old T⟩ ps hd).2.2 i hi).trans ?_
    split_ifs with heq
    · cases heq
      exact funext ho
    · exact hothers i hi fun h => heq (congrArg some h.symm)

/-- **A job reconciles the rows of its importer exactly if, after a rename, every row that stood
under the new path is referenced.** -/
theorem reconciled_iff (hclash : NoClash s parentPath T) :
    Reconciled hash s parentPath ps T (reconcile hash s parentPath ps T) ↔
      ((renamedFrom s parentPath).isSome → ∀ p, T s p ≠ none → p ∈ pairs ps) := by
  constructor
  · intro hrec hsome p hp
    by_contra hW
    have hown := (reconcile_own hclash p).symm.trans (hrec.own p)
    rw [if_neg hW, if_pos hsome, if_neg hW] at hown
    exact hp hown
  · intro hall
    refine ⟨fun p => (reconcile_own hclash p).trans ?_, fun o ho p => ?_, fun i hi hio => ?_⟩
    · split_ifs with hp hsome
      · rfl
      · by_contra hT
        exact hp (hall hsome p hT)
      · rfl
    · rw [reconcile_others (renamedFrom_ne ho), if_pos ho]
    · rw [reconcile_others hi, if_neg hio]

theorem reconciled_iff_rename : Reconciled (fun _ => some 7) ⟨"w", "u/b", .script⟩ (some "u/a")
    [("", some ["u/lib", "u/lib"])]
    (fun i p => if i.importerPath = "u/a" ∧ p = ("", "u/old") then some none else none)
    (reconcile (fun _ => some 7) ⟨"w", "u/b", .script⟩ (some "u/a") [("", some ["u/lib", "u/lib"])]
      fun i p => if i.importerPath = "u/a" ∧ p = ("", "u/old") then some none else none) :=
  (reconciled_iff fun _ _ _ => .inr (if_neg (by simp))).mpr fun _ _ h => absurd (if_neg (by simp)) h

/-- The script is renamed to a path under which another script had a row: the row stays. -/
theorem rename_keeps_stale_row : pairs [("", some ["u/lib"])] = [("", "u/lib")] ∧
    reconcile (fun _ => none) ⟨"w", "u/b", .script⟩ (some "u/a") [("", some ["u/lib"])]
      (fun i p => if i.importerPath = "u/b" ∧ p = ("", "u/old") then some none else none)
      ⟨"w", "u/b", .script⟩ ("", "u/old") = some none :=
  ⟨rfl, by decide⟩

end Windmill.Deps.Reconcile
