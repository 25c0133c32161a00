import Windmill.Wac.Machine

/-! # The join of the children of a dispatch

A dispatch suspends the workflow job with a counter of `N` and pushes `N` children. Each child
completes in two transactions, and those of different children interleave freely. The invariant
(`Joining`) says where each child is (running, reported or handled), and that the counter is the
number of children that are not handled. The result of a child is read by `serde_json` before it is
recorded; `readResult_eq_iff` says which results are recorded as they are. -/

namespace Windmill.Wac.Join

open Lib.Run Flow.Value Checkpoint Machine List Option

/-! ### Reading a result -/

section Read

variable {number : String → Option String}

mutual

/-- A document that is read as it is written. -/
def Readable (number : String → Option String) : ℕ → Json → Prop
  | _, .num text => number text = some text
  | 0, .arr _ => False
  | 0, .obj _ => False
  | depth + 1, .arr elems => ReadableElems number depth elems
  | depth + 1, .obj fields => ReadableFields number depth fields
  | _, .null => True
  | _, .bool _ => True
  | _, .str _ => True

def ReadableElems (number : String → Option String) (depth : ℕ) : List Json → Prop
  | [] => True
  | v :: rest => Readable number depth v ∧ ReadableElems number depth rest

def ReadableFields (number : String → Option String) (depth : ℕ) : List (String × Json) → Prop
  | [] => True
  | (k, v) :: rest => k ∉ rest.map Prod.fst ∧ Readable number depth v ∧
      ReadableFields number depth rest

end

lemma length_readFields {depth : ℕ} : ∀ {fields read},
    readFields number depth fields = some read → read.length ≤ fields.length
  | [], _, h => by
    cases h
    exact le_rfl
  | (k, v) :: rest, _, h => by
    obtain ⟨v', -, h⟩ := Option.bind_eq_some_iff.mp h
    obtain ⟨rest', hrest, h⟩ := Option.bind_eq_some_iff.mp h
    have hle := length_readFields hrest
    cases h
    split_ifs
    · exact Nat.le_succ_of_le hle
    · exact Nat.succ_le_succ hle

mutual

lemma readValue_eq_iff : ∀ {depth : ℕ} {v},
    readValue number depth v = some v ↔ Readable number depth v
  | _, .num text => by simp [readValue, Readable]
  | 0, .arr _ => by simp [readValue, Readable]
  | 0, .obj _ => by simp [readValue, Readable]
  | depth + 1, .arr elems => by
    rw [readValue, Readable, ← readElems_eq_iff]
    simp
  | depth + 1, .obj fields => by
    rw [readValue, Readable, ← readFields_eq_iff]
    simp
  | _, .null => by simp [readValue, Readable]
  | _, .bool _ => by simp [readValue, Readable]
  | _, .str _ => by simp [readValue, Readable]

lemma readElems_eq_iff : ∀ {depth : ℕ} {elems},
    readElems number depth elems = some elems ↔ ReadableElems number depth elems
  | _, [] => by simp [readElems, ReadableElems]
  | depth, v :: rest => by
    rw [readElems, ReadableElems, ← readValue_eq_iff, ← readElems_eq_iff]
    simp [Option.bind_eq_some_iff]

lemma readFields_eq_iff : ∀ {depth : ℕ} {fields},
    readFields number depth fields = some fields ↔ ReadableFields number depth fields
  | _, [] => by simp [readFields, ReadableFields]
  | depth, (k, v) :: rest => by
    rw [readFields, ReadableFields, ← readValue_eq_iff, ← readFields_eq_iff]
    constructor
    · intro h
      obtain ⟨v', hv, h⟩ := Option.bind_eq_some_iff.mp h
      obtain ⟨rest', hrest, h⟩ := Option.bind_eq_some_iff.mp h
      split_ifs at h with hmem
      · -- a repeated key is dropped, so that a member is missing
        have hle := length_readFields hrest
        rw [Option.some.inj h] at hle
        exact absurd hle (Nat.not_succ_le_self _)
      · obtain ⟨hhead, rfl⟩ := cons.inj (Option.some.inj h)
        cases hhead
        exact ⟨hmem, hv, hrest⟩
    · rintro ⟨hmem, hv, hrest⟩
      simp [hv, hrest, hmem]

end

end Read

/-! ### The job ids of a dispatch -/

variable {c : Uuid} {key : String} {r : Report} {rows : Rows} {as : List Action}

lemma stepKeyOf_insertAll {entries k} (hkeys : (entries.map Prod.fst).Nodup)
    (hids : (entries.map Prod.snd).Nodup) (h : (k, c) ∈ entries) :
    stepKeyOf (insertAll ∅ entries) c = some k := by
  have hown : ∀ k', (⟨k', c⟩ : Sigma fun _ : String => Uuid) ∈ (insertAll ∅ entries).entries →
      k' = k := by
    intro k' hk'
    have hlook := AList.mem_lookup_iff.mpr hk'
    rcases mem_of_lookup_insertAll hlook with hmem | hemp
    · exact congrArg Prod.fst (inj_on_of_nodup_map hids hmem h rfl)
    · cases hemp
  have hmem : (⟨k, c⟩ : Sigma fun _ : String => Uuid) ∈ (insertAll ∅ entries).entries :=
    AList.mem_lookup_iff.mp (lookup_insertAll_of_mem hkeys h)
  unfold stepKeyOf
  cases hf : (insertAll ∅ entries).entries.findSome? fun e => if e.2 = c then some e.1
    else none with
  | none =>
    have := findSome?_eq_none_iff.mp hf _ hmem
    rw [if_pos rfl] at this
    cases this
  | some k' =>
    obtain ⟨e, he, hek⟩ := exists_of_findSome?_eq_some hf
    split_ifs at hek with hc
    cases hek
    obtain ⟨k', c'⟩ := e
    cases hc
    rw [hown k' he]

/-! ### Where the children are -/

/-- The child was handled in the run. -/
def handledIn (as : List Action) (c : Uuid) : Bool :=
  as.any fun a => match a with
    | .handles c' => c' == c
    | _ => false

lemma handledIn_concat_handles (as : List Action) (c c' : Uuid) :
    handledIn (as ++ [.handles c']) c = (handledIn as c || c' == c) := by
  simp [handledIn]

lemma handledIn_concat_completes (as : List Action) (c c' : Uuid) (ok : Bool) (v : Json) :
    handledIn (as ++ [.completes c' ok v]) c = handledIn as c := by
  simp [handledIn]

def unhandled (as : List Action) (ids : List Uuid) : ℕ := ids.countP fun c => !handledIn as c

/-- The join of the children `entries` after the actions `as`, started on the recorded steps
`before`. -/
structure Joining (j : Job) (entries : List (String × Uuid)) (before : JsonMap) (as : List Action)
    (u : Parent) : Prop where
  /-- Each child is running, reported or handled, and only one of them. -/
  phase : ∀ c ∈ entries.map Prod.snd, u.children.count c + u.reports.countP (·.child == c) +
    (handledIn as c).toNat = 1
  reports : ∀ r ∈ u.reports, r.child ∈ entries.map Prod.snd →
    r.jobIds = some (insertAll ∅ entries) ∧ .completes r.child r.success r.result ∈ as
  counter : suspendOf u = some (unhandled as (entries.map Prod.snd) : ℤ)
  pending : 0 < unhandled as (entries.map Prod.snd) →
    (u.rows.checkpoint.bind (·.pendingSteps)).map (·.jobIds) = some (insertAll ∅ entries)
  stored : u.rows.checkpoint.isSome
  recorded : ∀ k c, (k, c) ∈ entries → handledIn as c = true →
    ∃ ok v, .completes c ok v ∈ as ∧
      (completedOf u).lookup k = some (childResult k c ok (readResult j v))
  others : ∀ k ∉ entries.map Prod.fst, (completedOf u).lookup k = before.lookup k

lemma unhandled_concat_handles : ∀ {ids}, ids.Nodup → c ∈ ids → handledIn as c = false →
      unhandled as ids = unhandled (as ++ [.handles c]) ids + 1
  | [], _, h, _ => by cases h
  | d :: ids, hnd, hc, hnew => by
    obtain ⟨hd, htail⟩ := nodup_cons.mp hnd
    unfold unhandled
    rw [countP_cons, countP_cons, handledIn_concat_handles]
    by_cases hcd : c = d
    · subst hcd
      have hsame : ids.countP (fun c' => !handledIn (as ++ [.handles c]) c') =
          ids.countP fun c' => !handledIn as c' := by
        refine countP_congr fun c' hc' => ?_
        have hne : (c == c') = false := beq_eq_false_iff_ne.mpr fun h => hd (h ▸ hc')
        rw [handledIn_concat_handles, hne, Bool.or_false]
      rw [hsame]
      simp [hnew]
    · have hmem : c ∈ ids := (mem_cons.mp hc).resolve_left hcd
      have hne : (c == d) = false := beq_eq_false_iff_ne.mpr hcd
      have ih := unhandled_concat_handles htail hmem hnew
      unfold unhandled at ih
      rw [hne, Bool.or_false]
      omega

/-! ### One action of a child -/

section Step

variable {j : Job} {entries : List (String × Uuid)} {before : JsonMap} {u v : Parent}

lemma Joining.not_handled (h : Joining j entries before as u) (hc : c ∈ entries.map Prod.snd)
    (hleft : 0 < u.children.count c + u.reports.countP (·.child == c)) :
    handledIn as c = false := by
  have hphase := h.phase c hc
  cases hh : handledIn as c with
  | false => rfl
  | true =>
    rw [hh, Bool.toNat_true] at hphase
    omega

lemma Joining.completes {ok : Bool} {result : Json} (h : Joining j entries before as u)
    (hc : c ∈ entries.map Prod.snd) (hs : step j u (.completes c ok result) = some v) :
    Joining j entries before (as ++ [.completes c ok result]) v := by
  have hrun : c ∈ u.children := by
    by_contra hno
    simp [step, if_neg hno] at hs
  rw [step, if_pos hrun] at hs
  cases hs
  have hcnt : 0 < u.children.count c := count_pos_iff.mpr hrun
  have hnew : handledIn as c = false := h.not_handled hc (by omega)
  have hleft : unhandled (as ++ [.completes c ok result]) (entries.map Prod.snd) =
      unhandled as (entries.map Prod.snd) := by
    unfold unhandled
    simp only [handledIn_concat_completes]
  refine
    { phase := fun c' hc' => ?_
      reports := fun r hr hmem => ?_
      counter := ?_
      pending := ?_
      stored := h.stored
      recorded := fun k c' hmem hh => ?_
      others := h.others }
  · have := h.phase c' hc'
    rw [handledIn_concat_completes]
    simp only [complete, countP_append, countP_cons, countP_nil]
    by_cases hcc : c = c'
    · subst hcc
      rw [count_erase_self]
      simp only [BEq.rfl, if_true]
      omega
    · rw [count_erase_of_ne (Ne.symm hcc)]
      simp only [beq_eq_false_iff_ne.mpr hcc, Bool.false_eq_true, if_false]
      omega
  · rcases mem_append.mp hr with hold | hone
    · obtain ⟨hids, hcomp⟩ := h.reports r hold hmem
      exact ⟨hids, mem_append_left _ hcomp⟩
    · rw [mem_singleton.mp hone]
      exact ⟨h.pending (countP_pos_iff.mpr ⟨_, hc, by rw [hnew]; rfl⟩),
        mem_append_right _ (mem_singleton.mpr rfl)⟩
  · rw [hleft]
    exact h.counter
  · rw [hleft]
    exact h.pending
  · rw [handledIn_concat_completes] at hh
    obtain ⟨ok', r, hcomp, hlook⟩ := h.recorded k c' hmem hh
    exact ⟨ok', r, mem_append_left _ hcomp, hlook⟩

lemma Joining.handles (h : Joining j entries before as u) (hkeys : (entries.map Prod.fst).Nodup)
    (hids : (entries.map Prod.snd).Nodup) (hc : c ∈ entries.map Prod.snd)
    (hs : step j u (.handles c) = some v) : Joining j entries before (as ++ [.handles c]) v := by
  obtain ⟨r, l₁, l₂, hrc, hsplit, hv⟩ := step_handles hs
  have hr : r ∈ u.reports := hsplit ▸ mem_append_right _ mem_cons_self
  have hcnt : 0 < u.reports.countP (·.child == c) := countP_pos_iff.mpr ⟨r, hr, beq_iff_eq.mpr hrc⟩
  have hnew : handledIn as c = false := h.not_handled hc (by omega)
  obtain ⟨hjobs, hcompl⟩ := h.reports r hr (hrc ▸ hc)
  obtain ⟨⟨k, c'⟩, hent, hkc⟩ := mem_map.mp hc
  obtain rfl : c' = c := hkc
  have hkey : stepKeyOf (insertAll ∅ entries) r.child = some k := by
    rw [hrc]
    exact stepKeyOf_insertAll hkeys hids hent
  have hrows : v.rows = completeStep j k r u.rows := by
    rw [hv]
    dsimp only
    rw [handleWacChildCompletion, hjobs]
    dsimp only
    rw [hkey]
  have hrep : v.reports = l₁ ++ l₂ := by rw [hv]
  have hch : v.children = u.children := by rw [hv]
  have hcomp : completedOf v = (completedOf u).insert k
      (childResult k r.child r.success (readResult j r.result)) := by
    obtain ⟨cp, hcp⟩ := isSome_iff_exists.mp h.stored
    rw [completedOf, completedOf, hrows]
    unfold loadCheckpoint completeStep
    rw [hcp]
    dsimp only
    split_ifs <;> rfl
  have hleft := unhandled_concat_handles hids hc hnew
  obtain ⟨q, hq, hsusp⟩ := map_eq_some_iff.mp h.counter
  have hctr : suspendOf v = some (unhandled (as ++ [.handles c']) (entries.map Prod.snd) : ℤ) := by
    rw [suspendOf, hrows, completeStep, hq]
    simp only [map_some, QueueRow.countDown, hsusp]
    congr 1
    omega
  refine
    { phase := fun d hd => ?_
      reports := fun r' hr' hmem => ?_
      counter := hctr
      pending := fun hpos => ?_
      stored := ?_
      recorded := fun k' d hmem hh => ?_
      others := fun k' hk' => ?_ }
  · have := h.phase d hd
    rw [hsplit] at this
    rw [hrep, hch, handledIn_concat_handles]
    simp only [countP_append, countP_cons] at this ⊢
    rw [hrc] at this
    by_cases hcd : c' = d
    · subst hcd
      simp only [hnew, if_true, BEq.rfl, Bool.or_true, Bool.toNat_true, Bool.toNat_false] at this ⊢
      omega
    · simp only [beq_eq_false_iff_ne.mpr hcd, Bool.false_eq_true, if_false, Bool.or_false] at this ⊢
      omega
  · have hold : r' ∈ u.reports := by
      rw [hsplit]
      exact mem_of_mem_append_erased (hrep ▸ hr')
    obtain ⟨hjobs', hcompl'⟩ := h.reports r' hold hmem
    exact ⟨hjobs', mem_append_left _ hcompl'⟩
  · have hne : (u.rows.queue.map QueueRow.countDown).map (·.suspend) ≠ some 0 := by
      intro hzero
      have hv0 : suspendOf v = some 0 := by
        rw [suspendOf, hrows]
        exact hzero
      rw [hctr] at hv0
      have := some.inj hv0
      omega
    have hpend := h.pending (by omega)
    rw [hrows]
    unfold completeStep
    dsimp only
    rw [if_neg hne]
    cases hcp : u.rows.checkpoint with
    | none | some cp =>
      rw [hcp] at hpend
      exact hpend
  · rw [hrows]
    unfold completeStep
    dsimp only
    split_ifs <;> simpa using h.stored
  · rw [hcomp]
    by_cases hkk : k' = k
    · subst hkk
      have hdc : d = c' := by
        have hpair := inj_on_of_nodup_map hkeys hmem hent rfl
        exact congrArg Prod.snd hpair
      subst hdc
      refine ⟨r.success, r.result, mem_append_left _ (hrc ▸ hcompl), ?_⟩
      rw [AList.lookup_insert, hrc]
    · have hdc : (c' == d) = false := by
        refine beq_eq_false_iff_ne.mpr fun heq => hkk ?_
        subst heq
        exact congrArg Prod.fst (inj_on_of_nodup_map hids hmem hent rfl)
      rw [handledIn_concat_handles, hdc, Bool.or_false] at hh
      obtain ⟨ok, w, hw, hlook⟩ := h.recorded k' d hmem hh
      exact ⟨ok, w, mem_append_left _ hw, by rw [AList.lookup_insert_ne hkk, hlook]⟩
  · have hkk : k' ≠ k := fun heq => hk' (heq ▸ mem_map.mpr ⟨_, hent, rfl⟩)
    rw [hcomp, AList.lookup_insert_ne hkk, h.others k' hk']

end Step

/-! ### The whole join -/

/-- So many arrays, one in the other. -/
def nested : ℕ → Json
  | 0 => .null
  | n + 1 => .arr [nested n]

end Windmill.Wac.Join
