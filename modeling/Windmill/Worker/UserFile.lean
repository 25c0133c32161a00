import Mathlib.Data.List.Infix

/-!
# Files at a user-defined location

A job may name the files it writes. `is_allowed_file_location` joins the name to the job
directory, normalises both lexically and compares them component by component. The meaning of
a path is the directory walk of POSIX without symbolic links (`resolve`): the code's stack of
components and the walk are followed side by side.
-/

namespace Windmill.Worker.UserFile

open List

/-- `std::path::Component` on Unix, where no path has a prefix. -/
inductive Component
  | rootDir
  | curDir
  | parentDir
  | normal (name : List Char)
  deriving DecidableEq, Repr

namespace Component

def asOsStr : Component → List Char
  | rootDir => ['/']
  | curDir => ['.']
  | parentDir => ['.', '.']
  | normal name => name

end Component

open Component

/-- A `PathBuf`, as the components by which paths are compared. -/
abbrev PathBuf := List Component

def isAbsolute (path : List Char) : Bool := path.head? = some '/'

/-- A piece between two separators; empty and `.` pieces are no components. -/
def component : List Char → Option Component
  | [] => none
  | ['.'] => none
  | ['.', '.'] => some parentDir
  | name => some (normal name)

/-- `Path::components`: a leading `.` stays when there is no root. -/
def components (path : List Char) : List Component :=
  let pieces := path.splitOn '/'
  let start := if isAbsolute path then [rootDir] else if pieces.head? = some ['.']
    then [curDir] else []
  start ++ pieces.filterMap component

/-- `PathBuf::pop`: the root and the empty path have no parent. -/
def pop (ret : PathBuf) : PathBuf := if ret = [rootDir] then ret else ret.dropLast

/-- One turn of the loop of `normalize_path`. -/
def normalizeStep (ret : PathBuf) : Component → PathBuf
  | rootDir => [rootDir]
  | curDir => ret
  | parentDir => pop ret
  | normal name => ret ++ [normal name]

/-- `normalize_path`: `.` and `..` are resolved on the text. -/
def normalizePath (path : List Char) : PathBuf := (components path).foldl normalizeStep []

def join (dir path : List Char) : List Char :=
  if isAbsolute path then path
  else if dir = [] ∨ dir.getLast? = some '/' then dir ++ path
  else dir ++ '/' :: path

/-- The `std::io::Error` values of the check. -/
inductive IoError
  | permissionDenied (message : String)
  deriving DecidableEq, Repr

/-- `is_allowed_file_location`: the path, if it is in the job directory. -/
def isAllowedFileLocation (jobDir userDefinedPath : List Char) : Except IoError PathBuf :=
  let fullPath := join jobDir userDefinedPath
  let normalizedJobDir := normalizePath jobDir
  let normalizedFullPath := normalizePath fullPath
  if normalizedJobDir.isPrefixOf normalizedFullPath then .ok normalizedFullPath
  else .error (.permissionDenied "Path is outside the allowed job directory.")

/-! ### The walk of POSIX -/

/-- Entering one piece of a path from the directory `dir`, given by its names from the root. -/
def enter (dir : List (List Char)) (piece : List Char) : List (List Char) :=
  if piece = [] ∨ piece = ['.'] then dir
  else if piece = ['.', '.'] then dir.dropLast
  else dir ++ [piece]

/-- The file a path denotes from the working directory `cwd` when nothing is a link. -/
def resolve (cwd : List (List Char)) (path : List Char) : List (List Char) :=
  (path.splitOn '/').foldl enter (if isAbsolute path then [] else cwd)

def located (file : List (List Char)) : PathBuf := rootDir :: file.map normal

/-- A name a directory entry can have beside `.` and `..`. -/
def Proper (name : List Char) : Prop := name ≠ [] ∧ name ≠ ['.'] ∧ name ≠ ['.', '.']

lemma proper_enter {dir piece} (h : ∀ name ∈ dir, Proper name) :
    ∀ name ∈ enter dir piece, Proper name := by
  intro name hname
  rw [enter] at hname
  split_ifs at hname with hstay hup
  · exact h name hname
  · exact h name (mem_of_mem_dropLast hname)
  · rw [mem_append, mem_singleton] at hname
    rcases hname with hname | rfl
    · exact h name hname
    · exact ⟨fun h => hstay (.inl h), fun h => hstay (.inr h), hup⟩

lemma proper_foldl_enter (pieces : List (List Char)) :
    ∀ dir, (∀ name ∈ dir, Proper name) → ∀ name ∈ pieces.foldl enter dir, Proper name := by
  induction pieces with
  | nil => exact fun _ h => h
  | cons piece pieces ih => exact fun dir h => ih (enter dir piece) (proper_enter h)

lemma resolve_join {dir} (habs : isAbsolute dir) (path : List Char) :
    resolve [] (join dir path) = resolve (resolve [] dir) path := by
  have hdir : dir ≠ [] := by
    rintro rfl
    simp [isAbsolute] at habs
  have happ : ∀ tail, isAbsolute (dir ++ tail) := by
    simpa [isAbsolute, head?_append_of_ne_nil _ hdir] using habs
  by_cases hpath : isAbsolute path
  · simp [join, resolve, hpath]
  by_cases hlast : dir.getLast? = some '/'
  · obtain ⟨front, rfl⟩ := getLast?_eq_some_iff.mp hlast
    have hsplit : (front ++ ['/'] ++ path).splitOn '/' = front.splitOn '/' ++ path.splitOn '/' := by
      rw [append_assoc, singleton_append, splitOn_append_cons_self]
    have hfront : (front ++ ['/']).splitOn '/' = front.splitOn '/' ++ [[]] := by
      rw [splitOn_append_cons_self, splitOn_nil]
    simp [join, resolve, hpath, habs, happ, -append_assoc, hsplit, hfront, enter]
  · have hsplit : (dir ++ '/' :: path).splitOn '/' = dir.splitOn '/' ++ path.splitOn '/' :=
      splitOn_append_cons_self dir path
    simp [join, resolve, hpath, hlast, hdir, habs, happ, hsplit]

/-! ### The stack of components -/

lemma pop_located (file : List (List Char)) : pop (located file) = located file.dropLast := by
  rcases file.eq_nil_or_concat with rfl | ⟨front, name, rfl⟩
  · rfl
  · simp [pop, located, dropLast_cons_of_ne_nil]

lemma normalizeStep_located (file : List (List Char)) (piece : List Char) :
    (component piece).toList.foldl normalizeStep (located file) = located (enter file piece) := by
  rw [component.eq_def]
  split
  · rfl
  · rfl
  · exact pop_located file
  · rename_i hnil hcur hup
    have hstay : ¬(piece = [] ∨ piece = ['.']) := fun h => h.elim hnil hcur
    rw [enter, if_neg hstay, if_neg hup]
    simp [normalizeStep, located]

lemma foldl_located (pieces : List (List Char)) : ∀ file,
    (pieces.filterMap component).foldl normalizeStep (located file) = located
    (pieces.foldl enter file) := by
  induction pieces with
  | nil => exact fun _ => rfl
  | cons piece pieces ih =>
    intro file
    have hcons : (piece :: pieces).filterMap component
        = (component piece).toList ++ pieces.filterMap component := by
      cases hpc : component piece <;> simp [hpc]
    rw [hcons, foldl_append, normalizeStep_located, ih, foldl_cons]

/-- **An absolute path is normalised to the file it denotes.** -/
theorem normalizePath_eq_located {path} (habs : isAbsolute path) :
    normalizePath path = located (resolve [] path) := by
  rw [normalizePath, components, if_pos habs, resolve, if_pos habs]
  exact foldl_located _ []

lemma isAbsolute_join {dir} (habs : isAbsolute dir) (path : List Char) :
    isAbsolute (join dir path) := by
  rw [join]
  cases dir <;> split_ifs <;> simp_all [isAbsolute]

lemma isAllowedFileLocation_eq {jobDir} (habs : isAbsolute jobDir) (userDefinedPath : List Char) :
    isAllowedFileLocation jobDir userDefinedPath = if resolve [] jobDir <+: resolve []
    (join jobDir userDefinedPath)
        then .ok (located (resolve [] (join jobDir userDefinedPath)))
        else .error (.permissionDenied "Path is outside the allowed job directory.") := by
  have hinside : ∀ dir file, (located dir).isPrefixOf (located file) ↔
      dir <+: file := by
    intro dir file
    refine isPrefixOf_iff_prefix.trans ?_
    rw [located, located, prefix_cons_inj]
    exact prefix_map_iff_of_injective fun _ _ h => normal.inj h
  simp only [isAllowedFileLocation, normalizePath_eq_located habs,
    normalizePath_eq_located (isAbsolute_join habs userDefinedPath), hinside]

/-- **User-chosen files stay in the job directory.** An allowed location has no `.` or `..`, is the
normalised job directory with components after it, and is the file that the user's path denotes from
there; every path that resolves inside the job directory is allowed. -/
theorem allowed_location_sound_complete {jobDir : List Char} (habs : isAbsolute jobDir)
    (userDefinedPath : List Char) : (∀ p, isAllowedFileLocation jobDir userDefinedPath = .ok p →
    (∀ c ∈ p, c.asOsStr ≠ ['.'] ∧ c.asOsStr ≠ ['.', '.'])
        ∧ (∃ rest, p = normalizePath jobDir ++ rest) ∧ p = located
        (resolve [] (join jobDir userDefinedPath))
        ∧ p = located (resolve (resolve [] jobDir) userDefinedPath))
      ∧ (resolve [] jobDir <+: resolve (resolve [] jobDir) userDefinedPath →
          ∃ p, isAllowedFileLocation jobDir userDefinedPath = .ok p) := by
  rw [isAllowedFileLocation_eq habs, resolve_join habs]
  refine ⟨fun p hp => ?_, fun hinside => ⟨_, if_pos hinside⟩⟩
  split_ifs at hp with hinside
  cases hp
  refine ⟨fun c hc => ?_, ?_, rfl, rfl⟩
  · rcases mem_cons.mp hc with rfl | hc
    · decide
    · obtain ⟨name, hname, rfl⟩ := mem_map.mp hc
      rw [← resolve_join habs] at hname
      exact (proper_foldl_enter _ _ (by simp) name hname).2
  · obtain ⟨rest, hrest⟩ := hinside
    refine ⟨rest.map normal, ?_⟩
    rw [normalizePath_eq_located habs, ← hrest, located, located, map_append, cons_append]

/-- A file two directories below a job directory that is itself written with `..`. -/
theorem allowed_location_nested : isAbsolute "/tmp/x/../job//".toList = true
      ∧ ∃ p, isAllowedFileLocation "/tmp/x/../job//".toList "./a/../../job/b".toList = .ok p :=
  ⟨by decide, (allowed_location_sound_complete (by decide) _).2 (by decide)⟩

end Windmill.Worker.UserFile
