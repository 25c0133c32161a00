import Windmill.Lib.Records

/-! # A part of a job's result

`extract_result_from_job_result` returns the result of a job or the list of results of several jobs,
or what stands there under a path. Under a path the first component is read as a number by Rust and
selects the job, the other components go to the SQL operator `#>`. -/

namespace Windmill.Queue.Extract

open Lib.Records

abbrev Uuid := ℕ

/-- The job or the jobs whose results are asked for; a vector is not longer than `usize` can count.
-/
inductive JobResult where
  | singleJob (id : Uuid)
  | listJob (ids : List Uuid) (fits : ids.length < 2 ^ 64)

def parseUsize (x : String) : Option ℕ :=
  let digits := if x.toList.head? = some '+' then x.toList.tail else x.toList
  let value := digits.foldl (fun n c => 10 * n + (c.toNat - '0'.toNat)) 0
  if digits ≠ [] ∧ digits.all Char.isDigit ∧ value < 2 ^ 64 then some value else none

/-- How Postgres reads a component of a path as an index into an array. What Rust reads as a number,
it reads as the same number; it may read more, as negative numbers. -/
structure Indices where
  index : String → Option ℤ
  index_of_parse : ∀ {x n}, parseUsize x = some n → index x = some (n : ℤ)

variable (R : Indices)

def at? {α : Type} (l : List α) (i : ℤ) : Option α :=
  if 0 ≤ i then l[i.toNat]? else if -i ≤ l.length then l[(l.length + i).toNat]? else none

def component (x : String) : Json → Option Json
  | .obj fields => fields.lookup x
  | .arr elems => (R.index x).bind (at? elems)
  | _ => none

/-- `value #> path`. -/
def navigate : List String → Json → Option Json
  | [], v => some v
  | x :: path, v => (component R x v).bind (navigate path)

def split (jsonPath : String) : List String := (jsonPath.toList.splitOn '.').map String.ofList

/-- A completed job may have no result. -/
def orNull (result : Option Json) : Json := result.getD .null

/-- `extract_result_from_job_result`; `completed` are the rows of `v2_job_completed`. -/
def extractResultFromJobResult (completed : Uuid → Option (Option Json)) (job : JobResult)
    (jsonPath : Option String) : Json :=
  match job, jsonPath with
  | .listJob ids _, some jsonPath =>
    match split jsonPath with
    | [] => .null
    | first :: rest =>
      match parseUsize first with
      | none => .null
      | some idx =>
        match ids[idx]? with
        | none => .null
        | some id => orNull ((completed id).join.bind (navigate R rest))
  | .listJob ids _, none => .arr (ids.map fun id => orNull (completed id).join)
  | .singleJob id, jsonPath =>
    orNull ((completed id).join.bind (navigate R ((jsonPath.map split).getD [])))

variable {R} {completed : Uuid → Option (Option Json)}

lemma navigate_orNull (path : List String) (result : Option Json) :
    orNull (navigate R path (orNull result)) = orNull (result.bind (navigate R path)) := by
  cases result with
  | some v => rfl
  | none => cases path <;> rfl

lemma at?_map {α β : Type} (f : α → β) (l : List α) (i : ℤ) :
    at? (l.map f) i = (at? l i).map f := by
  unfold at?
  split_ifs <;> simp_all

lemma at?_natCast {α : Type} (l : List α) (n : ℕ) : at? l n = l[n]? := by
  rw [at?, if_pos (Int.natCast_nonneg n), Int.toNat_natCast]

lemma navigate_list {ids first rest} :
    orNull (navigate R (first :: rest) (.arr (ids.map fun id => orNull (completed id).join)))
      = orNull (((R.index first).bind (at? ids)).bind fun id =>
        (completed id).join.bind (navigate R rest)) := by
  rw [navigate, component]
  cases R.index first with
  | none => rfl
  | some i =>
    rw [Option.bind_some, Option.bind_some, at?_map]
    cases at? ids i with
    | none => rfl
    | some id => exact navigate_orNull rest _

def onlyPostgres (R : Indices) (completed : Uuid → Option (Option Json)) (job : JobResult)
    (path : List String) : Json :=
  match job, path with
  | .listJob ids _, first :: rest =>
    if parseUsize first = none then
      orNull (((R.index first).bind (at? ids)).bind fun id =>
        (completed id).join.bind (navigate R rest))
    else .null
  | _, _ => .null

/-- **The result under a path is what navigating the whole result finds, exactly if nothing is there
that only Postgres finds.** -/
theorem extract_path_iff (job : JobResult) (path : String) :
    extractResultFromJobResult R completed job (some path)
        = orNull (navigate R (split path) (extractResultFromJobResult R completed job none)) ↔
      onlyPostgres R completed job (split path) = .null := by
  cases job with
  | singleJob id =>
    have hfull : extractResultFromJobResult R completed (.singleJob id) none =
        orNull (completed id).join := by
      simp only [extractResultFromJobResult]
      cases (completed id).join <;> rfl
    rw [hfull, navigate_orNull]
    exact iff_of_true rfl rfl
  | listJob ids fits =>
    obtain ⟨first, rest, hsplit⟩ := List.exists_cons_of_ne_nil
      (mt List.map_eq_nil_iff.mp (List.splitOn_ne_nil _ _) : split path ≠ [])
    have hfull : orNull (navigate R (first :: rest)
      (extractResultFromJobResult R completed (.listJob ids fits) none))
        = _ := navigate_list
    rw [hsplit, hfull]
    simp only [extractResultFromJobResult, onlyPostgres, hsplit]
    cases hparse : parseUsize first with
    | none => simp only [if_true, eq_comm]
    | some n =>
      rw [R.index_of_parse hparse, Option.bind_some, at?_natCast]
      simp only [reduceCtorEq, if_false, iff_true]
      cases ids[n]? <;> rfl

def decimals : Indices where
  index x := match parseUsize x with
    | some n => some (n : ℤ)
    | none => if x.toList.head? = some '-' then (parseUsize (String.ofList x.toList.tail)).map
        fun n => -(n : ℤ) else none
  index_of_parse h := by rw [h]

/-- The last of one job: nothing under the path `-1`, but the whole list has an element there. -/
theorem last_job_not_found :
    extractResultFromJobResult decimals (fun _ => some (some (.bool true)))
    (.listJob [5] (by decide)) (some "-1")
        = .null ∧ navigate decimals ["-1"]
          (extractResultFromJobResult decimals (fun _ => some (some (.bool true)))
          (.listJob [5] (by decide)) none)
        = some (.bool true) :=
  ⟨rfl, rfl⟩

end Windmill.Queue.Extract
