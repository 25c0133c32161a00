import Windmill.Flow.Iterations

/-! # The approvals of several suspend steps

A gate counts the rows for the job of its own step and the rows for the flow, and marks none of them
as used. `Assignable` asks that the passes of a run can nevertheless be given rows of their own. The
rows suffice as long as no gate is passed while the debt of all passes is larger than the number of
rows for the flow at that moment (`WithinMeans`). -/

namespace Windmill.Flow.Passes

open Value Status Reads Completion Flow.Suspend Push Resume Run Iterations Lib.Run List

/-- The pass is given as many approvals as its step requires, among the rows its gate counted. -/
structure Given (p : Pass) (rows : List ResumeRow) : Prop where
  length : rows.length = p.required
  counted : rows ⊆ p.rows
  approved : ∀ r ∈ rows, r.approved = true

/-- Each pass gets approvals that no other one gets. -/
def Assignable (passes : List Pass) : Prop :=
  ∃ given : List (List ResumeRow), List.Forall₂ Given passes given ∧
    (given.flatten.map ResumeRow.id).Nodup

/-! ### Debts -/

def flowRows (flowId : Uuid) (rows : List ResumeRow) : List ResumeRow :=
  rows.filter fun r => r.job == flowId

lemma flowRows_append (flowId : Uuid) (rows rows' : List ResumeRow) :
    flowRows flowId (rows ++ rows') = flowRows flowId rows ++ flowRows flowId rows' :=
  filter_append _ _

def ownRows (flowId : Uuid) (earlier : List Pass) (p : Pass) : List ResumeRow :=
  if p.last = flowId ∨ p.last ∈ earlier.map Pass.last then [] else p.rows.filter fun r =>
    r.job == p.last

def deficit (flowId : Uuid) (earlier : List Pass) (p : Pass) : ℕ :=
  p.required - (ownRows flowId earlier p).length

def debt (flowId : Uuid) (earlier : List Pass) : List Pass → ℕ
  | [] => 0
  | p :: ps => deficit flowId earlier p + debt flowId (earlier ++ [p]) ps

lemma debt_concat {flowId : Uuid} {p : Pass} : ∀ {ps earlier},
    debt flowId earlier (ps ++ [p]) = debt flowId earlier ps + deficit flowId (earlier ++ ps) p
  | [], earlier => by simp [debt]
  | q :: ps, earlier => by
    simp only [cons_append, debt, @debt_concat flowId p ps, append_assoc, nil_append]
    omega

/-! ### Handing out rows -/

/-- The rows given so far: those for the flow are the first ones that came. -/
structure HandedOut (flowId : Uuid) (table : List ResumeRow) (passes : List Pass)
    (given : List (List ResumeRow)) : Prop where
  takes : List.Forall₂ Given passes given
  stored : given.flatten ⊆ table
  nodup : given.flatten.Nodup
  first : ∀ r ∈ given.flatten, r.job = flowId →
    r ∈ (flowRows flowId table).take (debt flowId [] passes)
  own : ∀ r ∈ given.flatten, r.job ≠ flowId → r.job ∈ passes.map Pass.last

section HandedOut

variable {flowId : Uuid} {table : List ResumeRow} {passes : List Pass}
  {given : List (List ResumeRow)} {p : Pass}

lemma HandedOut.insert (h : HandedOut flowId table passes given)
    (hdebt : debt flowId [] passes ≤ (flowRows flowId table).length) (row : ResumeRow) :
    HandedOut flowId (table ++ [row]) passes given := by
  refine ⟨h.takes, fun r hr => mem_append_left _ (h.stored hr), h.nodup, fun r hr hjob => ?_, h.own⟩
  have hmem := h.first r hr hjob
  rwa [flowRows_append, take_append_of_le_length hdebt]

lemma HandedOut.pass (h : HandedOut flowId table passes given) (hnd : table.Nodup)
    (hrows : p.rows = gateRows p.last flowId table) (happ : ∀ r ∈ p.rows, r.approved = true)
    (hmeans : debt flowId [] (passes ++ [p]) ≤ (flowRows flowId table).length) :
    ∃ new, HandedOut flowId table (passes ++ [p]) (given ++ [new]) := by
  have hdebt := @debt_concat flowId p passes []
  rw [hdebt] at hmeans
  -- the own rows first, then a slice of the rows for the flow
  let own := (ownRows flowId passes p).take p.required
  let slice := ((flowRows flowId table).drop (debt flowId [] passes)).take (deficit flowId passes p)
  have hownRows : ∀ r ∈ own, r ∈ p.rows ∧ r.job = p.last ∧ r.job ≠ flowId ∧
      r.job ∉ passes.map Pass.last := by
    intro r hr
    have hr' := mem_of_mem_take hr
    unfold ownRows at hr'
    split_ifs at hr' with hused
    · cases hr'
    · obtain ⟨hmem, hjob⟩ := mem_filter.mp hr'
      have hjob' : r.job = p.last := by simpa using hjob
      rw [not_or] at hused
      exact ⟨hmem, hjob', hjob' ▸ hused.1, hjob' ▸ hused.2⟩
  have hsliceRows : ∀ r ∈ slice, r ∈ table ∧ r.job = flowId := by
    intro r hr
    have hr' := mem_of_mem_drop (mem_of_mem_take hr)
    obtain ⟨hmem, hjob⟩ := mem_filter.mp hr'
    exact ⟨hmem, by simpa using hjob⟩
  have hflow : (flowRows flowId table).Nodup := hnd.filter _
  have hcnt : ∀ r, r ∈ own ++ slice → r ∈ p.rows := by
    intro r hr
    rcases mem_append.mp hr with hr | hr
    · exact (hownRows r hr).1
    · obtain ⟨hmem, hjob⟩ := hsliceRows r hr
      rw [hrows]
      exact mem_filter.mpr ⟨hmem, by simp [hjob]⟩
  have hstored : ∀ r ∈ p.rows, r ∈ table := by
    intro r hr
    rw [hrows] at hr
    exact (mem_filter.mp hr).1
  have hflatten : (given ++ [own ++ slice]).flatten = given.flatten ++ (own ++ slice) := by simp
  refine ⟨own ++ slice, ?_, ?_, ?_, ?_, ?_⟩
  · refine rel_append h.takes (List.Forall₂.cons ⟨?_, hcnt, fun r hr => ?_⟩ .nil)
    · rw [nil_append] at hmeans
      simp only [own, slice, deficit, length_append, length_take, length_drop] at hmeans ⊢
      omega
    · exact happ r (hcnt r hr)
  · rw [hflatten]
    intro r hr
    rcases mem_append.mp hr with hr | hr
    · exact h.stored hr
    · exact hstored r (hcnt r hr)
  · rw [hflatten]
    refine nodup_append'.mpr ⟨h.nodup, nodup_append'.mpr ⟨?_, ?_, ?_⟩, ?_⟩
    · refine List.Nodup.sublist (take_sublist _ _) ?_
      unfold ownRows
      split_ifs
      · exact nodup_nil
      · rw [hrows]
        exact (hnd.filter _).filter _
    · exact hflow.sublist ((take_sublist _ _).trans (drop_sublist _ _))
    · intro r hown hslice
      exact (hownRows r hown).2.2.1 (hsliceRows r hslice).2
    · intro r hold hnew
      rcases mem_append.mp hnew with hnew | hnew
      · exact (hownRows r hnew).2.2.2 (h.own r hold (hownRows r hnew).2.2.1)
      · exact disjoint_take_drop hflow (le_refl _) (h.first r hold (hsliceRows r hnew).2)
          (mem_of_mem_take hnew)
  · rw [hflatten]
    intro r hr hjob
    rw [hdebt, take_add]
    rcases mem_append.mp hr with hr | hr
    · exact mem_append_left _ (h.first r hr hjob)
    · rcases mem_append.mp hr with hr | hr
      · exact absurd hjob (hownRows r hr).2.2.1
      · exact mem_append_right _ hr
  · rw [hflatten]
    intro r hr hjob
    rw [map_append]
    rcases mem_append.mp hr with hr | hr
    · exact mem_append_left _ (h.own r hr hjob)
    · rcases mem_append.mp hr with hr | hr
      · exact mem_append_right _ (by simp [(hownRows r hr).2.1])
      · exact absurd (hsliceRows r hr).2 hjob

end HandedOut

/-! ### Runs -/

def ForFlow (flowId : Uuid) (_ : RunState) : RunAction → Prop
  | .push w => w.flowJob.id = flowId
  | _ => True

/-- A gate is passed only while the rows for the flow cover the debt of all passes. -/
def WithinMeans (flow : FlowValue) (flowId : Uuid) (s : RunState) : RunAction → Prop
  | .push w => ∀ lastResult pulled p, s.ctrl = .chaining lastResult pulled →
      gatePass w flow lastResult s.db = some p →
      debt flowId [] (s.passes ++ [p]) ≤ (flowRows flowId s.db.resumeJobs).length
  | _ => True

structure PassInv (flowId : Uuid) (s : RunState) : Prop where
  ids : (s.db.resumeJobs.map ResumeRow.id).Nodup
  means : debt flowId [] s.passes ≤ (flowRows flowId s.db.resumeJobs).length
  handed : ∃ given, HandedOut flowId s.db.resumeJobs s.passes given

section Run

variable {flow : FlowValue} {flowId : Uuid} {s s' : RunState} {a : RunAction} {w : World}
  {lastResult : Option Json}

lemma nodup_insertResumeJob {q rows} (h : (rows.map ResumeRow.id).Nodup)
    (hnew : alreadySent q rows = false) : ((insertResumeJob q rows).map ResumeRow.id).Nodup := by
  rw [insertResumeJob, map_append]
  refine nodup_append'.mpr ⟨h, nodup_singleton _, fun id hid hq => ?_⟩
  obtain ⟨r, hr, rfl⟩ := mem_map.mp hid
  rw [alreadySent, any_eq_false] at hnew
  exact hnew r hr (beq_iff_eq.mpr (mem_singleton.mp hq))

variable {db db' : FlowDb} {old : FlowStatus} {r : Report} {tries : ℕ}

lemma pushes_resumeJobs {flowEnv step statusModule res}
    (h : Pushes w flow flowEnv lastResult db step statusModule db' res) :
    db'.resumeJobs = db.resumeJobs := by
  cases h with
  | started _ _ _ hstart =>
    obtain ⟨-, -, ⟨_, -, rfl, -⟩ | ⟨_, _, -, hcom, -⟩⟩ := startModule_ok hstart
    · rfl
    · obtain ⟨_, _, _, -, -, rfl⟩ := commitJobs_ok hcom
      rfl
  | _ => rfl

lemma handles_resumeJobs {ctrl : Ctrl} (h : Handles w flow old r tries db db' ctrl) :
    db'.resumeJobs = db.resumeJobs := by
  cases h <;> rfl

lemma passInv_pushed {pulled : Bool} (h : PassInv flowId s) (hflow : w.flowJob.id = flowId)
    (hmeans : ∀ p, gatePass w flow lastResult s.db = some p →
      debt flowId [] (s.passes ++ [p]) ≤ (flowRows flowId s.db.resumeJobs).length) :
    PassInv flowId (pushed w flow lastResult pulled s) := by
  have hrows : (pushed w flow lastResult pulled s).db.resumeJobs = s.db.resumeJobs :=
    pushes_resumeJobs (pushNextFlowJob_pushes lastResult s.db)
  have hpasses : (pushed w flow lastResult pulled s).passes
      = s.passes ++ (gatePass w flow lastResult s.db).toList := rfl
  cases hpass : gatePass w flow lastResult s.db with
  | none =>
    rw [hpass, Option.toList_none, append_nil] at hpasses
    exact ⟨hrows ▸ h.ids, by rw [hrows, hpasses]; exact h.means, by
      rw [hrows, hpasses]; exact h.handed⟩
  | some p =>
    rw [hpass] at hpasses
    obtain ⟨suspend, -, -, -, -, -, -, -, hcnt, hcan, -⟩ := gatePass_some hpass
    obtain ⟨given, hgiven⟩ := h.handed
    rw [hflow] at hcnt
    have happ : ∀ r ∈ p.rows, r.approved = true := by
      simp only [canBeResumed, Bool.and_eq_true, Option.isNone_iff_eq_none, disapproval,
        find?_eq_none] at hcan
      intro r hr
      simpa using hcan.1 r hr
    obtain ⟨new, hnew⟩ := hgiven.pass (List.Nodup.of_map _ h.ids) hcnt happ (hmeans p hpass)
    exact ⟨hrows ▸ h.ids, by rw [hrows, hpasses]; exact hmeans p hpass, by
      rw [hrows, hpasses]; exact ⟨_, hnew⟩⟩

lemma passInv_reported (h : PassInv flowId s) : PassInv flowId (reported w flow old r tries s) := by
  have hrows : (reported w flow old r tries s).db.resumeJobs = s.db.resumeJobs :=
    handles_resumeJobs (handleReport_handles w flow old r tries s.db)
  exact ⟨hrows ▸ h.ids, by rw [hrows]; exact h.means, by rw [hrows]; exact h.handed⟩

lemma passInv_step (h : PassInv flowId s) (hC : ForFlow flowId s a ∧ WithinMeans flow flowId s a)
    (hstep : runStep flow s a = some s') : PassInv flowId s' := by
  obtain ⟨hflow, hmeans⟩ := hC
  cases runStep_steps hstep with
  | pull _ => exact ⟨h.ids, h.means, h.handed⟩
  | push hctrl => exact passInv_pushed h hflow fun p => hmeans _ _ p hctrl
  | report _ | again _ => exact passInv_reported h
  | request hnew =>
    obtain ⟨given, hgiven⟩ := h.handed
    refine ⟨nodup_insertResumeJob h.ids hnew, ?_, given, hgiven.insert h.means _⟩
    refine h.means.trans ?_
    show _ ≤ (flowRows flowId (s.db.resumeJobs ++ [_])).length
    rw [flowRows_append, length_append]
    exact Nat.le_add_right _ _

lemma passInv_start (flow : FlowValue) : PassInv flowId (.start flow) :=
  ⟨nodup_nil, Nat.zero_le _, [], .nil, List.Subset.refl _, nodup_nil,
    nofun, nofun⟩

lemma PassInv.assignable (h : PassInv flowId s) : Assignable s.passes := by
  obtain ⟨given, hgiven⟩ := h.handed
  refine ⟨given, hgiven.takes, hgiven.nodup.map_on fun r hr r' hr' hid => ?_⟩
  exact inj_on_of_nodup_map h.ids (hgiven.stored hr) (hgiven.stored hr') hid

end Run

/-- **The gates that a flow passes can be given approvals of their own**, in every run in which no
gate is passed while the rows for the flow are fewer than what all passes so far need from them. -/
theorem passes_assignable {flow : FlowValue} {flowId : Uuid} {as : List RunAction} {s : RunState}
    (hmeets : Meets (runStep flow) (fun s a => ForFlow flowId s a ∧ WithinMeans flow flowId s a) as
    (.start flow)) (hrun : run (runStep flow) as (.start flow) = some s) : Assignable s.passes :=
  (run_invariant passInv_step (passInv_start flow) hmeets hrun).assignable

lemma Given.eq_of_one {last r rows} (h : Given ⟨last, 1, [r]⟩ rows) : rows = [r] := by
  obtain ⟨r', rfl⟩ := length_eq_one_iff.mp h.length
  rw [mem_singleton.mp (h.counted (mem_singleton_self r'))]

def approvalStep (id : String) : FlowModule where
  id := id
  value := .script
  suspend := some ⟨some 1, none, none, none, none, none⟩

def approvalFlow : FlowValue where
  modules := [approvalStep "a", approvalStep "b", { id := "c", value := .script }]

def preApproval : ResumeRequest :=
  { jobId := 1, resumeId := 7, approved := true, target := .flowLevel }

def approvedOnce : RunState :=
  { firstPushed approvalFlow with
    db := acceptRequest preApproval (getFlowInfoForResume (firstPushed approvalFlow).db)
      (firstPushed approvalFlow).db }

def workerAt (id : ℕ) : World :=
  { World.plain (.plain 1) with newUuid := fun i => BitVec.ofNat 128 (id + i) }

def jobEnds (job : Uuid) : Report := { jobIdForStatus := job, success := true, result := .null }

def endStep (job : Uuid) (next : ℕ) (s : RunState) : List RunAction :=
  [.report (.plain (.plain 1)) s.db.status (jobEnds job), .push (workerAt next)]

def stepEnded (job : Uuid) (next : ℕ) (s : RunState) : RunState :=
  pushed (workerAt next) approvalFlow (some .null) false
    (reported (.plain (.plain 1)) approvalFlow s.db.status (jobEnds job) 3 s)

def approveOnce : List RunAction :=
  [.pull, .push (.plain (.plain 1)),
    .request preApproval (getFlowInfoForResume (firstPushed approvalFlow).db)]

theorem first_gate_assignable :
    run (runStep approvalFlow) (approveOnce ++ endStep 1000 2000 approvedOnce) (.start approvalFlow)
        = some (stepEnded 1000 2000 approvedOnce) ∧
      (stepEnded 1000 2000 approvedOnce).passes = [⟨1000, 1, [preApproval.row]⟩] ∧
      Assignable (stepEnded 1000 2000 approvedOnce).passes :=
  ⟨rfl, rfl, @passes_assignable approvalFlow 1 (approveOnce ++ endStep 1000 2000 approvedOnce) _
    (meets_cons ⟨trivial, trivial⟩ rfl (meets_cons ⟨rfl, fun _ _ _ h hp => by cases h; cases hp⟩ rfl
      (meets_cons ⟨trivial, trivial⟩ rfl (meets_cons ⟨trivial, trivial⟩ rfl
        (meets_cons ⟨rfl, fun _ _ _ h hp => by cases h; cases hp; decide⟩ rfl trivial))))) rfl⟩

/-- **One approval for the flow lets it through two gates**, and cannot be given to both. -/
theorem one_approval_two_gates : ∃ as s, Meets (runStep approvalFlow) (ForFlow 1) as
    (.start approvalFlow) ∧ run (runStep approvalFlow) as (.start approvalFlow) = some s ∧
      s.passes = [⟨1000, 1, [preApproval.row]⟩, ⟨2000, 1, [preApproval.row]⟩] ∧
      ¬ Assignable s.passes := by
  refine ⟨approveOnce ++ endStep 1000 2000 approvedOnce
      ++ endStep 2000 3000 (stepEnded 1000 2000 approvedOnce),
    stepEnded 2000 3000 (stepEnded 1000 2000 approvedOnce), ?_, rfl, rfl, ?_⟩
  · exact meets_cons trivial rfl (meets_cons rfl rfl (meets_cons trivial rfl (meets_cons trivial rfl
      (meets_cons rfl rfl (meets_cons trivial rfl (meets_cons rfl rfl trivial))))))
  · rintro ⟨given, htakes, hnd⟩
    obtain ⟨first, rest, hfirst, hrest, rfl⟩ := forall₂_cons_left_iff.mp htakes
    obtain ⟨second, _, hsnd, -, rfl⟩ := forall₂_cons_left_iff.mp hrest
    rw [hfirst.eq_of_one, hsnd.eq_of_one] at hnd
    simp at hnd

end Windmill.Flow.Passes
