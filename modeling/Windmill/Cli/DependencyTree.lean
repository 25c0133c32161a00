import Mathlib.Data.List.Induction
import Windmill.Lib.Worklist

/-! # Stale scripts

The command line client keeps a tree of the scripts that import each other
(`cli/src/utils/dependency_tree.ts`). A node that is imported before it is added is a placeholder.
`propagateStaleness` marks the importers of directly stale nodes, `traverseTransitive` calls a
callback for all that a node imports. -/

namespace Windmill.Cli.DependencyTree

open Lib.Worklist List Relation Function

/-- The sets are in the order of insertion. -/
structure DependencyNode where
  imports : List String := []
  importedBy : List String := []
  isDirectlyStale : Bool := false

/-- The keys of the map `nodes`, and what it has under them. -/
structure Tree where
  paths : List String
  node : String → DependencyNode

def add (set : List String) (path : String) : List String :=
  if path ∈ set then set else set ++ [path]

section

variable (t : Tree) (path : String)

def Tree.create (isDirectlyStale : Bool) : Tree :=
  if path ∈ t.paths then t else ⟨t.paths ++ [path], update t.node path { isDirectlyStale }⟩

def Tree.modify (f : DependencyNode → DependencyNode) : Tree :=
  { t with node := update t.node path (f (t.node path)) }

def Tree.link (importPath : String) : Tree :=
  ((t.modify path fun n => { n with imports := add n.imports importPath }).create importPath
    false).modify importPath fun n => { n with importedBy := add n.importedBy path }

end

/-- The arguments of `addNode`, with the workspace dependencies of the script and whether they are
up to date. -/
structure Call where
  path : String
  imports : List String
  filteredDeps : List (String × Bool)
  isDirectlyStale : Bool

def Call.allImports (c : Call) : List String := c.imports ++ c.filteredDeps.map Prod.fst

/-- The node of the call itself. -/
def Tree.setNode (t : Tree) (c : Call) : Tree :=
  (t.create c.path false).modify c.path fun n => { n with isDirectlyStale := c.isDirectlyStale }

def addNode (t : Tree) (c : Call) : Tree :=
  let t := t.setNode c
  let t := c.filteredDeps.foldl (fun t dep => t.create dep.1 !dep.2) t
  c.allImports.foldl (fun t importPath => t.link c.path importPath) t

def Tree.of (calls : List Call) : Tree := calls.foldl addNode ⟨[], fun _ => {}⟩

structure Marks (t : Tree) where
  staleReason : String → Option String
  allStale : List String
  exact : ∀ path ∈ t.paths, (staleReason path).isSome = true ↔ path ∈ allStale

variable {t : Tree} {path : String}

lemma Marks.mark_exact (marks : Marks t) (paths : List String) (reason : String) : ∀ path ∈ t.paths,
    (if path ∈ paths ∧ path ∈ t.paths then some reason else marks.staleReason path).isSome = true ↔
      path ∈ marks.allStale ++ paths := by
  intro path hpath
  rw [mem_append, ← marks.exact path hpath]
  split_ifs with h
  · simp [h]
  · have hno : path ∉ paths := fun hmem => h ⟨hmem, hpath⟩
    simp [hno]

def Marks.mark (marks : Marks t) (paths : List String) (reason : String) : Marks t :=
  ⟨fun path => if path ∈ paths ∧ path ∈ t.paths then some reason else marks.staleReason path,
    marks.allStale ++ paths, marks.mark_exact paths reason⟩

/-- The loop over the importers: they are a set, so that none of them is marked twice. -/
def markImporters (t : Tree) (scriptPath : String) (marks : Marks t) : Marks t × List String :=
  let importers := (t.node scriptPath).importedBy.filter (· ∉ marks.allStale)
  (marks.mark importers ("depends on " ++ scriptPath), importers)

/-- The nodes that are stale themselves. -/
def Tree.directlyStale (t : Tree) : List String :=
  t.paths.filter fun path => (t.node path).isDirectlyStale

/-- `propagateStaleness`: a breadth-first search. -/
def propagateStaleness (t : Tree) : Marks t :=
  run t.paths (markImporters t) t.directlyStale []
    (Marks.mark ⟨fun _ => none, [], fun _ _ => by simp⟩ t.directlyStale "content changed")

/-- The paths that the callback is called for; `stop` is what it returns. -/
def traverseTransitive (t : Tree) (scriptPath : String) (stop : String → Bool) : List String :=
  run t.paths (fun current called =>
    let imports := (t.node current).imports.filter (· ∈ t.paths)
    (called ++ imports, imports.filter fun importPath => !stop importPath)) [scriptPath] [] []

/-! ### Imports and importers -/

structure Linked (t : Tree) : Prop where
  inverse : ∀ a b, b ∈ (t.node a).imports ↔ a ∈ (t.node b).importedBy
  nodes : ∀ a b, b ∈ (t.node a).imports → a ∈ t.paths ∧ b ∈ t.paths

lemma mem_add {set x} : x ∈ add set path ↔ x ∈ set ∨ x = path := by
  unfold add
  split_ifs with h
  · exact ⟨.inl, fun hx => hx.elim id fun heq => heq ▸ h⟩
  · simp

lemma mem_create {stale x} : x ∈ (t.create path stale).paths ↔ x ∈ t.paths ∨ x = path := by
  rw [← mem_add, Tree.create, add]
  split_ifs <;> rfl

lemma Linked.eq_nil (h : Linked t) (hpath : path ∉ t.paths) :
    (t.node path).imports = [] ∧ (t.node path).importedBy = [] := by
  refine ⟨eq_nil_iff_forall_not_mem.mpr fun b hb => hpath (h.nodes path b hb).1, ?_⟩
  exact eq_nil_iff_forall_not_mem.mpr fun a ha =>
    hpath (h.nodes a path ((h.inverse a path).mpr ha)).2

lemma Linked.congr {t' : Tree} (h : Linked t) (hsub : ∀ a ∈ t.paths, a ∈ t'.paths) (hnode : ∀ a,
    (t'.node a).imports = (t.node a).imports ∧ (t'.node a).importedBy = (t.node a).importedBy) :
    Linked t' := by
  refine ⟨fun a b => by rw [(hnode a).1, (hnode b).2, h.inverse], fun a b hb => ?_⟩
  rw [(hnode a).1] at hb
  exact (h.nodes a b hb).imp (hsub a) (hsub b)

lemma Linked.node_create (h : Linked t) (path : String) (stale : Bool) (a : String) :
    ((t.create path stale).node a).imports = (t.node a).imports ∧
      ((t.create path stale).node a).importedBy = (t.node a).importedBy := by
  unfold Tree.create
  split_ifs with hpath
  · exact ⟨rfl, rfl⟩
  · obtain ⟨himports, himportedBy⟩ := h.eq_nil hpath
    by_cases ha : a = path <;> simp [ha, himports, himportedBy]

lemma Linked.create (h : Linked t) (path : String) (stale : Bool) : Linked (t.create path stale) :=
  h.congr (fun _ ha => mem_create.mpr (.inl ha)) (h.node_create path stale)

lemma Linked.node_link (h : Linked t) (hpath : path ∈ t.paths) (importPath a : String) :
    ((t.link path importPath).node a).imports =
        (if a = path then add (t.node a).imports importPath else (t.node a).imports) ∧
      ((t.link path importPath).node a).importedBy =
        if a = importPath then add (t.node a).importedBy path else (t.node a).importedBy := by
  unfold Tree.link Tree.modify Tree.create
  by_cases hi : importPath ∈ t.paths
  · simp only [hi, if_true, update_apply]
    split_ifs <;> simp_all
  · obtain ⟨himports, himportedBy⟩ := h.eq_nil hi
    have hne : importPath ≠ path := fun heq => hi (heq ▸ hpath)
    simp only [hi, if_false, update_apply]
    split_ifs <;> simp_all

/-- `a` imports `b`. -/
def Tree.Imports (t : Tree) (a b : String) : Prop := b ∈ (t.node a).imports

lemma Linked.imports_link (h : Linked t) (hpath : path ∈ t.paths) (importPath a b : String) :
    (t.link path importPath).Imports a b ↔ t.Imports a b ∨ a = path ∧ b = importPath := by
  rw [Tree.Imports, (h.node_link hpath importPath a).1]
  split_ifs with ha <;> simp [mem_add, ha, Tree.Imports]

lemma Linked.link (h : Linked t) (hpath : path ∈ t.paths) (importPath : String) :
    Linked (t.link path importPath) := by
  have himports := h.imports_link hpath importPath
  have himportedBy : ∀ a b, a ∈ ((t.link path importPath).node b).importedBy ↔
      a ∈ (t.node b).importedBy ∨ a = path ∧ b = importPath := fun a b => by
    rw [(h.node_link hpath importPath b).2]
    split_ifs with hb <;> simp [mem_add, hb]
  have hpaths : ∀ x, x ∈ (t.link path importPath).paths ↔ x ∈ t.paths ∨ x = importPath :=
    fun x => mem_create
  refine ⟨fun a b => (himports a b).trans ?_, fun a b hb => ?_⟩
  · rw [himportedBy, ← h.inverse]
    rfl
  rw [hpaths, hpaths]
  rcases (himports a b).mp hb with hb | ⟨rfl, rfl⟩
  · exact (h.nodes a b hb).imp .inl .inl
  · exact ⟨.inl hpath, .inr rfl⟩

/-! ### What the calls say -/

/-- Whether a path is in the tree, and then whether it is directly stale. -/
def Tree.flag (t : Tree) (a : String) : Option Bool :=
  if a ∈ t.paths then some (t.node a).isDirectlyStale else none

/-- A call says it of its path; of others that are not in the tree, what it knows of its
dependencies. -/
def Call.flag (c : Call) (old : String → Option Bool) (a : String) : Option Bool :=
  if a = c.path then some c.isDirectlyStale
  else ((old a).or ((c.filteredDeps.lookup a).map (!·))).or (if a ∈ c.allImports then some false
    else none)

lemma flag_create {stale a} :
    (t.create path stale).flag a = (t.flag a).or (if a = path then some stale else none) := by
  unfold Tree.flag Tree.create
  by_cases ha : a = path <;> split_ifs <;> simp_all

lemma flag_foldl_create (deps : List (String × Bool)) (a : String) :
    (deps.foldl (fun t dep => t.create dep.1 !dep.2) t).flag a = (t.flag a).or
    ((deps.lookup a).map (!·)) := by
  induction deps generalizing t with
  | nil => simp
  | cons dep deps ih =>
    rw [foldl_cons, ih, flag_create, lookup_cons]
    by_cases ha : a = dep.1
    · simp [ha]
    · simp [ha, beq_eq_false_iff_ne.mpr ha]

lemma flag_link {importPath a} : (t.link path importPath).flag a = (t.flag a).or
    (if a = importPath then some false else none) := by
  unfold Tree.flag Tree.link Tree.modify Tree.create
  by_cases hi : importPath ∈ t.paths <;> simp only [hi, if_true, if_false, update_apply]
    <;> split_ifs <;> simp_all

lemma flag_foldl_link (links : List String) (a : String) :
    (links.foldl (fun t importPath => t.link path importPath) t).flag a =
      (t.flag a).or (if a ∈ links then some false else none) := by
  induction links generalizing t with
  | nil => simp
  | cons importPath links ih =>
    rw [foldl_cons, ih, flag_link]
    by_cases ha : a = importPath <;> simp [ha]

lemma flag_addNode (t : Tree) (c : Call) : (addNode t c).flag = c.flag t.flag := by
  funext a
  have hset : (t.setNode c).flag a = if a = c.path then some c.isDirectlyStale else t.flag a := by
    unfold Tree.flag Tree.setNode Tree.modify Tree.create
    by_cases ha : a = c.path <;> split_ifs <;> simp_all
  rw [addNode, flag_foldl_link, flag_foldl_create, hset, Call.flag]
  split_ifs <;> rfl

lemma mem_directlyStale {a} : a ∈ t.directlyStale ↔ t.flag a = some true := by
  simp [Tree.directlyStale, Tree.flag]

lemma Linked.foldl_link (links : List String) (h : Linked t) (hpath : path ∈ t.paths) :
    let t' := links.foldl (fun t importPath => t.link path importPath) t
    Linked t' ∧ ∀ a b, t'.Imports a b ↔ t.Imports a b ∨ a = path ∧ b ∈ links := by
  induction links generalizing t with
  | nil => simp [h]
  | cons importPath links ih =>
    obtain ⟨hlinked, himports⟩ := ih (h.link hpath importPath) (mem_create.mpr (.inl hpath))
    refine ⟨hlinked, fun a b => (himports a b).trans ?_⟩
    rw [h.imports_link hpath, mem_cons, and_or_left, or_assoc]

lemma Linked.addNode (h : Linked t) (c : Call) : Linked (addNode t c) ∧
    ∀ a b, (DependencyTree.addNode t c).Imports a b ↔ t.Imports a b ∨ a = c.path ∧
    b ∈ c.allImports := by
  have hset : ∀ a, ((t.setNode c).node a).imports = (t.node a).imports ∧
      ((t.setNode c).node a).importedBy = (t.node a).importedBy := fun a => by
    obtain ⟨himports, himportedBy⟩ := h.node_create c.path false a
    simp only [Tree.setNode, Tree.modify, update_apply]
    split_ifs with ha
    · subst ha
      exact ⟨himports, himportedBy⟩
    · exact ⟨himports, himportedBy⟩
  have hpaths : ∀ x, x ∈ (t.setNode c).paths ↔ x ∈ t.paths ∨ x = c.path := fun x => mem_create
  have hlinked : Linked (t.setNode c) := h.congr (fun a ha => (hpaths a).mpr (.inl ha)) hset
  obtain ⟨hdeps, hpath, himports⟩ := foldlRecOn
    (motive := fun t' => Linked t' ∧ c.path ∈ t'.paths ∧ ∀ a, (t'.node a).imports =
      (t.node a).imports) c.filteredDeps
    (fun t dep => t.create dep.1 !dep.2)
    ⟨hlinked, (hpaths c.path).mpr (.inr rfl), fun a => (hset a).1⟩
    fun t ht dep _ => ⟨ht.1.create _ _, mem_create.mpr (.inl ht.2.1), fun a =>
      (ht.1.node_create dep.1 _ a).1.trans (ht.2.2 a)⟩
  refine (hdeps.foldl_link c.allImports hpath).imp_right fun hlinks a b => (hlinks a b).trans ?_
  rw [Tree.Imports, himports]
  rfl

lemma linked_of (calls : List Call) : Linked (Tree.of calls) :=
  foldlRecOn calls addNode ⟨by simp, by simp⟩ fun _ h c _ => (h.addNode c).1

/-- **The tree says what the calls say**: which paths import which, and which are directly stale. -/
theorem of_calls (calls : List Call) :
    (∀ a b, (Tree.of calls).Imports a b ↔ ∃ c ∈ calls, a = c.path ∧ b ∈ c.allImports) ∧
    ∀ a, a ∈ (Tree.of calls).directlyStale ↔ calls.foldl (fun old c => c.flag old)
    (fun _ => none) a = some true := by
  refine ⟨fun a b => ?_, fun a => ?_⟩
  · induction calls using List.reverseRecOn with
    | nil => simp [Tree.of, Tree.Imports]
    | append_singleton calls c ih =>
      have hof : Tree.of (calls ++ [c]) = addNode (Tree.of calls) c := by simp [Tree.of]
      rw [hof, ((linked_of calls).addNode c).2, ih]
      simp [or_and_right, exists_or]
  · have hempty : Tree.flag ⟨[], fun _ => {}⟩ = fun _ => none := by
      funext a
      simp [Tree.flag]
    rw [mem_directlyStale, ← hempty, foldl_hom Tree.flag fun t c => (flag_addNode t c).symm]
    rfl

/-! ### What is reached -/

lemma Linked.stale_iff (h : Linked t) (hpath : path ∈ t.paths) :
    ((propagateStaleness t).staleReason path).isSome = true ↔
    path ∈ t.directlyStale ∨ ∃ stale ∈ t.directlyStale, TransGen t.Imports path stale := by
  have hrel : (fun a b => a ∈ t.paths ∧ b ∈ (t.node a).importedBy) = swap t.Imports := by
    funext a b
    refine propext ⟨fun hb => (h.inverse b a).mpr hb.2, fun hb =>
      ⟨(h.nodes b a hb).2, (h.inverse b a).mp hb⟩⟩
  rw [(propagateStaleness t).exact path hpath, propagateStaleness,
    marked_run_iff (fun a => (t.node a).importedBy) (fun (marks : Marks t) path =>
      path ∈ marks.allStale), hrel]
  · simp [Marks.mark, transGen_swap]
  · intro a marks y
    simp only [markImporters, Marks.mark, mem_append, mem_filter, decide_eq_true_eq]
    tauto
  · intro a marks y hy
    exact (mem_filter.mp hy).1
  · intro a marks y hy
    exact mem_append.mp hy
  · intro y hy
    simpa [Marks.mark] using hy

lemma Linked.traverse_iff (h : Linked t) (scriptPath : String) :
    path ∈ traverseTransitive t scriptPath (fun _ => false) ↔
    TransGen t.Imports scriptPath path := by
  have hrel : (fun a b => a ∈ t.paths ∧ b ∈ (t.node a).imports.filter (· ∈ t.paths)) =
      t.Imports := by
    funext a b
    rw [mem_filter]
    exact propext ⟨fun hb => hb.2.1, fun hb =>
      ⟨(h.nodes a b hb).1, hb, decide_eq_true (h.nodes a b hb).2⟩⟩
  rw [traverseTransitive, marked_run_iff (fun a => (t.node a).imports.filter (· ∈ t.paths))
    (fun (called : List String) path => path ∈ called), hrel]
  · simp
  · exact fun a called y => mem_append
  · exact fun a called y hy => (mem_filter.mp hy).1
  · intro a called y hy
    simpa using hy
  · exact fun y hy => absurd hy not_mem_nil

/-- **Staleness is propagated exactly**, however the nodes were added, and all transitive imports
are traversed. -/
theorem staleness_exact (calls : List Call) : let t := Tree.of calls
    (∀ a b, t.Imports a b ↔ a ∈ (t.node b).importedBy) ∧
    (∀ path ∈ t.paths, ((propagateStaleness t).staleReason path).isSome = true ↔
      path ∈ t.directlyStale ∨ ∃ stale ∈ t.directlyStale, TransGen t.Imports path stale) ∧
    ∀ scriptPath path, path ∈ traverseTransitive t scriptPath (fun _ => false) ↔
      TransGen t.Imports scriptPath path :=
  have h := linked_of calls
  ⟨h.inverse, fun _ hpath => h.stale_iff hpath, fun scriptPath _ => h.traverse_iff scriptPath⟩

/-! ### The reasons -/

/-- What a node is marked with is true of it. -/
def Justified (t : Tree) (marks : Marks t) (path reason : String) : Prop :=
  path ∈ t.directlyStale ∧ reason = "content changed" ∨
    ∃ stale ∈ marks.allStale, path ∈ (t.node stale).importedBy ∧ reason = "depends on " ++ stale

lemma justified_of_staleReason {reason}
    (hreason : (propagateStaleness t).staleReason path = some reason) :
    Justified t (propagateStaleness t) path reason := by
  refine (run_induct (I := fun queue marks => (∀ a ∈ queue, a ∈ marks.allStale) ∧
    ∀ path reason, marks.staleReason path = some reason → Justified t marks path reason) ?_ ?_ ?_).2
    path reason hreason
  · exact fun a queue marks hI => ⟨fun b hb => hI.1 b (mem_cons_of_mem a hb), hI.2⟩
  · intro a queue marks hI
    have hold : ∀ b ∈ marks.allStale, b ∈ (markImporters t a marks).1.allStale :=
      fun b hb => mem_append_left _ hb
    refine ⟨fun b hb => ?_, fun path reason hr => ?_⟩
    · rcases mem_append.mp hb with hb | hb
      · exact hold b (hI.1 b (mem_cons_of_mem a hb))
      · exact mem_append_right _ hb
    · simp only [markImporters, Marks.mark] at hr
      split_ifs at hr with hmem
      · cases hr
        exact .inr ⟨a, hold a (hI.1 a mem_cons_self), (mem_filter.mp hmem.1).1, rfl⟩
      · exact (hI.2 path reason hr).imp_right fun ⟨stale, hstale, hrest⟩ =>
          ⟨stale, hold stale hstale, hrest⟩
  · refine ⟨fun a ha => ha, fun path reason hr => ?_⟩
    simp only [Marks.mark] at hr
    split_ifs at hr with hmem
    cases hr
    exact .inl ⟨hmem.1, rfl⟩

/-- **Every reason that is shown is true**: the content of the node has changed, or it imports the
stale node that is named. -/
theorem stale_reasons_justified (calls : List Call) : let t := Tree.of calls
    ∀ path reason, (propagateStaleness t).staleReason path = some reason →
      path ∈ t.directlyStale ∧ reason = "content changed" ∨
      ∃ stale, t.Imports path stale ∧ ((propagateStaleness t).staleReason stale).isSome = true ∧
        reason = "depends on " ++ stale := by
  intro t path reason hreason
  have h : Linked t := linked_of calls
  refine (justified_of_staleReason hreason).imp_right ?_
  rintro ⟨stale, hstale, himp, rfl⟩
  have himports := (h.inverse path stale).mpr himp
  exact ⟨stale, himports, ((propagateStaleness t).exact stale (h.nodes path stale himports).2).mpr
    hstale, rfl⟩

end Windmill.Cli.DependencyTree
